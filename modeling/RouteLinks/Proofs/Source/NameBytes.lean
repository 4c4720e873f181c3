import RouteLinks.Proofs.Source.Lexing
import RouteLinks.Proofs.Text.Fields
import RouteLinks.Proofs.Text.Utf8
/-!
# Names beyond ASCII

A source is cut by its bytes, while names and white space are made of characters. A character
outside of ASCII has a first byte and tails, and its bytes tell whether it is white space; so a name
is read to the character where it ends.
-/

namespace RouteLinks.Source

/-! ### Bytes of a text -/

/-- The bytes of a character, each as the character of the same number. -/
def charBytes (c : Char) : List Char := byteChars (String.utf8EncodeChar c)

def bytesOf (cs : List Char) : List Char := cs.flatMap charBytes

section

variable (c : Char) (cs ds : List Char) (s : String)

@[simp] theorem bytesOf_nil : bytesOf [] = [] := rfl

@[simp] theorem bytesOf_cons : bytesOf (c :: cs) = charBytes c ++ bytesOf cs := rfl

@[simp] theorem bytesOf_append : bytesOf (cs ++ ds) = bytesOf cs ++ bytesOf ds :=
  List.flatMap_append

theorem byteChars_encode : byteChars (Utf8.encode s) = bytesOf s.toList := by
  rw [byteChars, Utf8.encode, List.map_flatMap]
  rfl

theorem toNat_ofNat_byte (b : UInt8) : (Char.ofNat b.toNat).toNat = b.toNat := by
  have hbyte := b.toNat_lt
  rw [Char.ofNat, dif_pos (Or.inl (by omega))]
  rfl

theorem map_ofNat_byteChars (bytes : Bytes) :
    (byteChars bytes).map (fun c => UInt8.ofNat c.toNat) = bytes := by
  rw [byteChars, List.map_map]
  refine (List.map_congr_left fun b _ => ?_).trans (List.map_id bytes)
  rw [Function.comp_apply, toNat_ofNat_byte, UInt8.ofNat_toNat, id_eq]

theorem textOfChars_bytesOf : textOfChars (bytesOf cs) = String.ofList cs := by
  have hbytes : bytesOf cs = byteChars (cs.flatMap String.utf8EncodeChar) := by
    rw [byteChars, List.map_flatMap]
    rfl
  rw [textOfChars, hbytes, map_ofNat_byteChars, Utf8.decodeLossy,
    Utf8.scan_flatMap_utf8EncodeChar, List.map_map]
  congr 1
  exact List.map_id cs

/-- A character of ASCII is its own byte; another has a first byte and then tails. -/
theorem charBytes_cases :
    (c.toNat < 0x80 ∧ charBytes c = [c]) ∨
      (0x80 ≤ c.toNat ∧ ∃ lead tails, charBytes c = lead :: tails ∧ 0xC2 ≤ lead.toNat ∧
        ∀ b ∈ tails, 0x80 ≤ b.toNat ∧ b.toNat < 0xC0) := by
  have htail : ∀ {b : UInt8}, Utf8.IsTail b →
      0x80 ≤ (Char.ofNat b.toNat).toNat ∧ (Char.ofNat b.toNat).toNat < 0xC0 := by
    intro b hb
    rw [toNat_ofNat_byte]
    exact ⟨hb.1, Nat.lt_succ_iff.mpr hb.2⟩
  have hsequence := Utf8.sequence_utf8EncodeChar c
  rw [charBytes]
  generalize String.utf8EncodeChar c = bytes at hsequence
  cases hsequence with
  | one ha hv =>
      refine .inl ⟨by omega, ?_⟩
      rw [byteChars, List.map_singleton, ← hv, Char.ofNat_toNat]
  | two hlow hhigh hb hv =>
      have hbounds := hb.isTail
      refine .inr ⟨?_, _, _, rfl, ?_, by simpa using htail hb.isTail⟩
      · unfold Utf8.IsTail at hbounds
        omega
      · rw [toNat_ofNat_byte]
        omega
  | three hlow hhigh hb hc hv =>
      have hbounds := hb.isTail
      have hshort := hb.notShorter
      refine .inr ⟨?_, _, _, rfl, ?_, by simpa using ⟨htail hb.isTail, htail hc⟩⟩
      · unfold Utf8.IsTail at hbounds
        omega
      · rw [toNat_ofNat_byte]
        omega
  | four hlow hhigh hb hc hd hv =>
      have hbounds := hb.isTail
      have hshort := hb.notShorter
      refine .inr ⟨?_, _, _, rfl, ?_, by simpa using ⟨htail hb.isTail, htail hc, htail hd⟩⟩
      · unfold Utf8.IsTail at hbounds
        omega
      · rw [toNat_ofNat_byte]
        omega

theorem charBytes_ne_nil : charBytes c ≠ [] := by
  rcases charBytes_cases c with ⟨-, hbytes⟩ | ⟨-, lead, tails, hbytes, -⟩ <;> simp [hbytes]

theorem charBytes_ascii {c : Char} (h : c.toNat < 0x80) : charBytes c = [c] := by
  rcases charBytes_cases c with ⟨-, hbytes⟩ | ⟨hbeyond, -⟩
  · exact hbytes
  · omega

theorem mem_head?_bytesOf {b : Char} (h : b ∈ (bytesOf cs).head?) :
    b ∈ cs.head? ∨ 0x80 ≤ b.toNat := by
  cases cs with
  | nil => exact .inl h
  | cons c rest =>
      rw [bytesOf_cons] at h
      rcases charBytes_cases c with ⟨-, hbytes⟩ | ⟨-, lead, tails, hbytes, hlead, -⟩
      · rw [hbytes] at h
        exact .inl h
      · rw [hbytes] at h
        obtain rfl := Option.some.inj h
        exact .inr (by omega)

theorem head?_bytesOf_eq_some_iff {d : Char} (hd : d.toNat < 0x80) :
    (bytesOf cs).head? = some d ↔ cs.head? = some d := by
  constructor
  · intro h
    rcases mem_head?_bytesOf cs h with hchar | hbeyond
    · exact hchar
    · omega
  · intro h
    obtain ⟨rest, rfl⟩ := List.head?_eq_some_iff.mp h
    rw [bytesOf_cons, charBytes_ascii hd]
    rfl

end

/-! ### White space -/

def isSpace (c : Char) : Bool := Text.isBlank c && !(0x1C ≤ c.toNat && c.toNat ≤ 0x1F)

theorem isBlank_of_isSpace {c : Char} (h : isSpace c = true) : Text.isBlank c = true :=
  (Bool.and_eq_true_iff.mp h).1

section

variable {a b c : Char} {rest : List Char}

theorem blankLength_two (ha : 0xC2 ≤ a.toNat ∧ a.toNat ≤ 0xDF) :
    blankLength (a :: b :: rest) =
      if a.toNat = 0xC2 ∧ (b.toNat = 0x85 ∨ b.toNat = 0xA0) then 2 else 0 := by
  unfold blankLength
  simp only [List.take_succ_cons, List.map_cons]
  generalize (List.take _ rest).map Char.toNat = more
  generalize a.toNat = x at *
  generalize b.toNat = y
  grind

theorem blankLength_three (ha : 0xE0 ≤ a.toNat ∧ a.toNat ≤ 0xEF) :
    blankLength (a :: b :: c :: rest) =
      if a.toNat = 0xE1 ∧ b.toNat = 0x9A ∧ c.toNat = 0x80 ∨
          a.toNat = 0xE2 ∧ b.toNat = 0x81 ∧ c.toNat = 0x9F ∨
          a.toNat = 0xE3 ∧ b.toNat = 0x80 ∧ c.toNat = 0x80 ∨
          a.toNat = 0xEF ∧ b.toNat = 0xBB ∧ c.toNat = 0xBF ∨
          a.toNat = 0xE2 ∧ b.toNat = 0x80 ∧ (0x80 ≤ c.toNat ∧ c.toNat ≤ 0x8A ∨ c.toNat = 0xA8 ∨
            c.toNat = 0xA9 ∨ c.toNat = 0xAF) then 3
      else 0 := by
  unfold blankLength
  simp only [List.take_succ_cons, List.map_cons]
  generalize (List.take _ rest).map Char.toNat = more
  generalize a.toNat = x at *
  generalize b.toNat = y
  generalize c.toNat = z
  grind

theorem blankLength_other (ha : 0x80 ≤ a.toNat ∧ a.toNat < 0xC2 ∨ 0xF0 ≤ a.toNat) :
    blankLength (a :: rest) = 0 := by
  unfold blankLength
  simp only [List.take_succ_cons, List.map_cons]
  generalize (List.take _ rest).map Char.toNat = more
  generalize a.toNat = x at *
  grind

end

theorem isSpace_or_mark_iff (c : Char) :
    (isSpace c || c.toNat == 0xFEFF) = true ↔
      9 ≤ c.toNat ∧ c.toNat ≤ 13 ∨ c.toNat = 32 ∨ c.toNat = 0x85 ∨ c.toNat = 0xA0 ∨
        c.toNat = 0x1680 ∨ c.toNat = 0x205F ∨ c.toNat = 0x3000 ∨ c.toNat = 0xFEFF ∨
        (0x2000 ≤ c.toNat ∧ c.toNat ≤ 0x200A ∨ c.toNat = 0x2028 ∨ c.toNat = 0x2029 ∨
          c.toNat = 0x202F) := by
  simp only [isSpace, Text.isBlank, Bool.or_eq_true, Bool.and_eq_true, Bool.not_eq_true',
    Bool.and_eq_false_iff, decide_eq_true_eq, decide_eq_false_iff_not, beq_iff_eq]
  omega

/-- The blanks of three bytes, by their bytes. A character of three bytes is beyond those that have
fewer. -/
theorem blank_of_three_iff {v a b c : Nat} (ha : 0xE0 ≤ a) (hb : 0x80 ≤ b ∧ b ≤ 0xBF)
    (hc : 0x80 ≤ c ∧ c ≤ 0xBF) (hv : v = ((a - 0xE0) * 64 + (b - 0x80)) * 64 + (c - 0x80))
    (hlong : 0x800 ≤ v) :
    (9 ≤ v ∧ v ≤ 13 ∨ v = 32 ∨ v = 0x85 ∨ v = 0xA0 ∨ v = 0x1680 ∨ v = 0x205F ∨ v = 0x3000 ∨
        v = 0xFEFF ∨ (0x2000 ≤ v ∧ v ≤ 0x200A ∨ v = 0x2028 ∨ v = 0x2029 ∨ v = 0x202F)) ↔
      a = 0xE1 ∧ b = 0x9A ∧ c = 0x80 ∨ a = 0xE2 ∧ b = 0x81 ∧ c = 0x9F ∨
        a = 0xE3 ∧ b = 0x80 ∧ c = 0x80 ∨ a = 0xEF ∧ b = 0xBB ∧ c = 0xBF ∨
        a = 0xE2 ∧ b = 0x80 ∧ (0x80 ≤ c ∧ c ≤ 0x8A ∨ c = 0xA8 ∨ c = 0xA9 ∨ c = 0xAF) := by
  -- Each of the characters has bytes of its own.
  have hnumber : ∀ x y z, 0xE0 ≤ x ∧ 0x80 ≤ y ∧ y ≤ 0xBF ∧ 0x80 ≤ z ∧ z ≤ 0xBF →
      (v = ((x - 0xE0) * 64 + (y - 0x80)) * 64 + (z - 0x80) ↔ a = x ∧ b = y ∧ c = z) := by
    intro x y z _
    omega
  have h2000 : (0x2000 ≤ v ∧ v ≤ 0x200A ∨ v = 0x2028 ∨ v = 0x2029 ∨ v = 0x202F) ↔
      a = 0xE2 ∧ b = 0x80 ∧ (0x80 ≤ c ∧ c ≤ 0x8A ∨ c = 0xA8 ∨ c = 0xA9 ∨ c = 0xAF) := by omega
  have hshorter : ¬(9 ≤ v ∧ v ≤ 13) ∧ ¬v = 32 ∧ ¬v = 0x85 ∧ ¬v = 0xA0 := by
    clear hv h2000 hnumber
    omega
  have h1680 : v = 0x1680 ↔ _ := hnumber 0xE1 0x9A 0x80 (by decide)
  have h205F : v = 0x205F ↔ _ := hnumber 0xE2 0x81 0x9F (by decide)
  have h3000 : v = 0x3000 ↔ _ := hnumber 0xE3 0x80 0x80 (by decide)
  have hFEFF : v = 0xFEFF ↔ _ := hnumber 0xEF 0xBB 0xBF (by decide)
  rw [h2000, h1680, h205F, h3000, hFEFF]
  simp only [hshorter, false_or]

/-- A blank is one character, white space or the byte order mark. -/
theorem blankLength_charBytes (c : Char) (rest : List Char) :
    blankLength (charBytes c ++ rest) =
      if isSpace c || c.toNat == 0xFEFF then (charBytes c).length else 0 := by
  have hsequence := Utf8.sequence_utf8EncodeChar c
  rw [charBytes, if_congr (isSpace_or_mark_iff c) rfl rfl]
  generalize String.utf8EncodeChar c = bytes at hsequence
  generalize c.toNat = v at hsequence
  cases hsequence with
  | @one _ a ha hv =>
      simp only [byteChars, List.map_cons, List.map_nil, List.singleton_append, List.length_cons,
        List.length_nil]
      rw [blankLength_ascii (by rw [toNat_ofNat_byte]; omega), toNat_ofNat_byte]
      congr 1
      simp only [Bool.or_eq_true, Bool.and_eq_true, decide_eq_true_eq, beq_iff_eq, eq_iff_iff]
      omega
  | @two _ a b hlow hhigh hb hv =>
      obtain ⟨⟨hmin, hmax⟩, -⟩ := hb
      simp only [byteChars, List.map_cons, List.map_nil, List.cons_append, List.nil_append,
        List.length_cons, List.length_nil]
      rw [blankLength_two (by rw [toNat_ofNat_byte]; omega), toNat_ofNat_byte, toNat_ofNat_byte]
      congr 1
      rw [eq_iff_iff]
      omega
  | @three _ a b c hlow hhigh hb hc hv =>
      obtain ⟨⟨hmin, hmax⟩, hshort, -⟩ := hb
      simp only [byteChars, List.map_cons, List.map_nil, List.cons_append, List.nil_append,
        List.length_cons, List.length_nil]
      rw [blankLength_three (by rw [toNat_ofNat_byte]; exact ⟨hlow, hhigh⟩), toNat_ofNat_byte,
        toNat_ofNat_byte, toNat_ofNat_byte]
      congr 1
      rw [eq_iff_iff]
      exact (blank_of_three_iff hlow ⟨hmin, hmax⟩ hc hv (by omega)).symm
  | @four _ a b c d hlow hhigh hb hc hd hv =>
      obtain ⟨⟨hmin, hmax⟩, hshort, -⟩ := hb
      simp only [byteChars, List.map_cons, List.map_nil, List.cons_append, List.nil_append]
      rw [blankLength_other (by rw [toNat_ofNat_byte]; omega), if_neg (by omega)]

theorem firstPiece_space {c : Char} (h : isSpace c = true) (rest : List Char) :
    firstPiece (charBytes c ++ rest) = (.blank, (charBytes c).length) := by
  have hlength : blankLength (charBytes c ++ rest) = (charBytes c).length := by
    rw [blankLength_charBytes, h, Bool.true_or, if_pos rfl]
  have hpositive := List.length_pos_iff.mpr (charBytes_ne_nil c)
  rw [firstPiece.eq_def, hlength]
  dsimp only
  rw [if_pos (by rw [bne_iff_ne]; omega)]

/-! ### Names -/

/-- A character that a name may have. Outside of ASCII it is any but white space and the byte order
mark. -/
def isNamePart (c : Char) : Bool :=
  isWordChar c || c == '\\' || (0x80 ≤ c.toNat && !(isSpace c || c.toNat == 0xFEFF))

/-- Whether a name begins here: with no digit, and with a backslash only if it is an escape. -/
def beginsName : List Char → Bool
  | [] => false
  | c :: rest => isNamePart c && !c.isDigit &&
      (c != '\\' || (rest.head? == some 'u' || rest.head? == some 'U'))

theorem isDigit_beyond {c : Char} (h : 0x80 ≤ c.toNat) : c.isDigit = false := by
  rw [Bool.eq_false_iff]
  intro hdigit
  have hbounds := bounds_of_isDigit hdigit
  omega

theorem isWordChar_beyond {c : Char} (h : 0x80 ≤ c.toNat) : isWordChar c = false := by
  rw [Bool.eq_false_iff]
  intro hword
  have hbounds := bounds_of_isPart (c := c) hword
  omega

theorem bounds_of_isSpace {c : Char} (h : (isSpace c || c.toNat == 0xFEFF) = true) :
    c.toNat ≤ 32 ∨ 0x80 ≤ c.toNat := by
  simp only [isSpace, Text.isBlank, Bool.or_eq_true, Bool.and_eq_true, decide_eq_true_eq,
    beq_iff_eq] at h
  omega

theorem isNamePart_of_isSpace {c : Char} (h : (isSpace c || c.toNat == 0xFEFF) = true) :
    isNamePart c = false := by
  have hrange := bounds_of_isSpace h
  have hword : isWordChar c = false := by
    rw [Bool.eq_false_iff]
    intro hword
    have hbounds := bounds_of_isPart (c := c) hword
    omega
  have hescape : (c == '\\') = false := by
    rw [beq_eq_false_iff_ne]
    rintro rfl
    exact absurd hrange (by decide)
  rw [isNamePart, hword, hescape, h, Bool.not_true, Bool.and_false]
  rfl

theorem isBlank_of_isNamePart {c : Char} (h : isNamePart c = true) : Text.isBlank c = false := by
  simp only [isNamePart, Bool.or_eq_true, Bool.and_eq_true, beq_iff_eq, decide_eq_true_eq,
    Bool.not_eq_true', Bool.or_eq_false_iff] at h
  rcases h with (hword | rfl) | ⟨hbeyond, hspace, -⟩
  · have hbounds := bounds_of_isPart (c := c) hword
    exact Text.isBlank_of_bounds (by omega)
  · decide
  · have hcontrol : (0x1C ≤ c.toNat && c.toNat ≤ 0x1F : Bool) = false := by
      simp only [Bool.and_eq_false_iff, decide_eq_false_iff_not]
      omega
    rwa [isSpace, hcontrol, Bool.not_false, Bool.and_true] at hspace

theorem ne_of_beyond {c d : Char} (h : 0x80 ≤ c.toNat) (hd : d.toNat < 0x80) : c ≠ d := by
  rintro rfl
  omega

theorem wordLength_tails {tails : List Char} (h : ∀ b ∈ tails, 0x80 ≤ b.toNat ∧ b.toNat < 0xC0)
    (rest : List Char) : wordLength (tails ++ rest) = tails.length + wordLength rest := by
  induction tails with
  | nil => simp
  | cons b more ih =>
      obtain ⟨⟨hlow, hhigh⟩, hmore⟩ := List.forall_mem_cons.mp h
      have hblank : blankLength (b :: (more ++ rest)) = 0 := blankLength_other (by omega)
      have hescape : (b == '\\') = false :=
        beq_eq_false_iff_ne.mpr (ne_of_beyond hlow (by decide))
      rw [List.cons_append, wordLength, isWordChar_beyond hlow, hescape, hblank, ih hmore,
        List.length_cons]
      simp only [Bool.or_self, Bool.false_eq_true, if_false, hlow, decide_true, beq_self_eq_true,
        Bool.and_self, if_true]
      omega

theorem wordLength_charBytes (c : Char) (rest : List Char) :
    wordLength (charBytes c ++ rest) =
      if isNamePart c then (charBytes c).length + wordLength rest else 0 := by
  have hblank := blankLength_charBytes c rest
  rcases charBytes_cases c with ⟨hascii, hbytes⟩ | ⟨hbeyond, lead, tails, hbytes, hlead, htails⟩
  · have hsmall : ¬0x80 ≤ c.toNat := by omega
    rw [hbytes, List.singleton_append, wordLength, isNamePart]
    simp only [hsmall, decide_false, Bool.false_and, Bool.or_false, Bool.false_eq_true, if_false,
      List.length_singleton]
    split <;> omega
  · have hlow : 0x80 ≤ lead.toNat := by omega
    have hescape : ∀ d : Char, 0x80 ≤ d.toNat → (d == '\\') = false :=
      fun d hd => beq_eq_false_iff_ne.mpr (ne_of_beyond hd (by decide))
    rw [hbytes, List.cons_append] at hblank ⊢
    rw [wordLength, isWordChar_beyond hlow, hescape lead hlow, hblank, wordLength_tails htails,
      isNamePart, isWordChar_beyond hbeyond, hescape c hbeyond]
    simp only [Bool.or_self, Bool.false_eq_true, if_false, hlow, hbeyond, decide_true,
      Bool.true_and, Bool.false_or]
    cases isSpace c || c.toNat == 0xFEFF <;> simp
    omega

theorem wordLength_bytesOf (cs : List Char) :
    wordLength (bytesOf cs) = (bytesOf (cs.takeWhile isNamePart)).length := by
  induction cs with
  | nil => rfl
  | cons c rest ih =>
      rw [bytesOf_cons, wordLength_charBytes, List.takeWhile_cons, ih]
      cases isNamePart c
      · rfl
      · simp

theorem isAlpha_of_isDigit {c : Char} (h : c.isDigit = true) :
    c.isAlpha = false ∧ (c == '_') = false := by
  have hbounds := bounds_of_isDigit h
  refine ⟨?_, beq_eq_false_iff_ne.mpr ?_⟩
  · rw [Bool.eq_false_iff]
    intro halpha
    have hletter := bounds_of_isAlpha halpha
    omega
  · rintro rfl
    exact absurd hbounds (by decide)

theorem isAlpha_beyond {c : Char} (h : 0x80 ≤ c.toNat) :
    c.isAlpha = false ∧ (c == '_') = false ∧ (c == '\\') = false := by
  refine ⟨?_, beq_eq_false_iff_ne.mpr (ne_of_beyond h (by decide)),
    beq_eq_false_iff_ne.mpr (ne_of_beyond h (by decide))⟩
  rw [Bool.eq_false_iff]
  intro halpha
  have hbounds := bounds_of_isAlpha halpha
  omega

theorem beginsWord_ascii {c : Char} (h : c.toNat < 0x80) (rest : List Char) :
    beginsWord (c :: bytesOf rest) = beginsName (c :: rest) := by
  have hnext : ∀ d : Char, d.toNat < 0x80 →
      ((bytesOf rest).head? == some d) = (rest.head? == some d) := by
    intro d hd
    rw [Bool.eq_iff_iff, beq_iff_eq, beq_iff_eq]
    exact head?_bytesOf_eq_some_iff rest hd
  have hsmall : ¬0x80 ≤ c.toNat := by omega
  rw [beginsWord, beginsName, hnext 'u' (by decide), hnext 'U' (by decide), isNamePart]
  simp only [hsmall, decide_false, Bool.false_and, Bool.or_false]
  by_cases hescape : c = '\\'
  · subst hescape
    simp [isWordChar]
  · simp only [isWordChar, Char.isAlphanum, beq_eq_false_iff_ne.mpr hescape, bne,
      Bool.false_and, Bool.or_false, Bool.not_false, Bool.true_or, Bool.and_true]
    cases hd : c.isDigit
    · simp
    · simp [isAlpha_of_isDigit hd]

theorem beginsWord_bytesOf (cs : List Char) : beginsWord (bytesOf cs) = beginsName cs := by
  cases cs with
  | nil => rfl
  | cons c rest =>
      have hblank := blankLength_charBytes c (bytesOf rest)
      rw [bytesOf_cons]
      rcases charBytes_cases c with ⟨hascii, hbytes⟩ | ⟨hbeyond, lead, tails, hbytes, hlead, -⟩
      · rw [hbytes]
        exact beginsWord_ascii hascii rest
      · have hlow : 0x80 ≤ lead.toNat := by omega
        obtain ⟨hleadalpha, hleadline, hleadescape⟩ := isAlpha_beyond hlow
        obtain ⟨-, -, hescape⟩ := isAlpha_beyond hbeyond
        rw [hbytes, List.cons_append] at hblank ⊢
        rw [beginsWord, hblank, beginsName, isNamePart, isWordChar_beyond hbeyond,
          isDigit_beyond hbeyond]
        simp only [hleadalpha, hleadline, hleadescape, hescape, hlow, hbeyond, decide_true,
          Bool.true_and, Bool.false_or, Bool.false_and, Bool.or_false, Bool.not_false, bne,
          Bool.true_or, Bool.and_true]
        cases isSpace c || c.toNat == 0xFEFF <;> simp

theorem exists_bytesOf_eq_cons {cs : List Char} (h : beginsName cs = true) :
    ∃ first more, bytesOf cs = first :: more ∧ blankLength (first :: more) = 0 ∧
      first.isDigit = false ∧ ∀ d : Char, d.toNat < 0x80 → isNamePart d = false → first ≠ d := by
  cases cs with
  | nil => cases h
  | cons c rest =>
      simp only [beginsName, Bool.and_eq_true, Bool.not_eq_true'] at h
      obtain ⟨⟨hpart, hdigit⟩, -⟩ := h
      have hblank : blankLength (bytesOf (c :: rest)) = 0 := by
        rw [bytesOf_cons, blankLength_charBytes, if_neg]
        intro hspace
        rw [isNamePart_of_isSpace hspace] at hpart
        cases hpart
      rw [bytesOf_cons] at hblank ⊢
      rcases charBytes_cases c with ⟨-, hbytes⟩ | ⟨-, lead, tails, hbytes, hlead, -⟩
      · rw [hbytes, List.singleton_append] at hblank ⊢
        refine ⟨c, _, rfl, hblank, hdigit, ?_⟩
        rintro d - hd rfl
        rw [hpart] at hd
        cases hd
      · rw [hbytes, List.cons_append] at hblank ⊢
        have hbeyond : 0x80 ≤ lead.toNat := by omega
        exact ⟨lead, _, rfl, hblank, isDigit_beyond hbeyond, fun d hd _ => ne_of_beyond hbeyond hd⟩

theorem firstPiece_name {cs : List Char} (h : beginsName cs = true) :
    firstPiece (bytesOf cs) = (.word, wordLength (bytesOf cs)) := by
  have hword := beginsWord_bytesOf cs
  obtain ⟨first, more, hbytes, hblank, hdigit, hmark⟩ := exists_bytesOf_eq_cons h
  rw [h, hbytes] at hword
  rw [hbytes, firstPiece_eq hblank
    ⟨hmark _ (by decide) (by decide), hmark _ (by decide) (by decide),
      hmark _ (by decide) (by decide)⟩
    ⟨hmark _ (by decide) (by decide), hmark _ (by decide) (by decide),
      hmark _ (by decide) (by decide), hmark _ (by decide) (by decide)⟩,
    hdigit, hword]
  rfl

theorem firstPiece_marked {cs : List Char} (h : beginsName cs = true) :
    firstPiece ('@' :: bytesOf cs) = (.word, wordLength (bytesOf cs) + 1) := by
  have hword := beginsWord_bytesOf cs
  obtain ⟨first, more, hbytes, -, -, hmark⟩ := exists_bytesOf_eq_cons h
  have hdollar : (first == '$') = false :=
    beq_eq_false_iff_ne.mpr (hmark _ (by decide) (by decide))
  have hat : (first == '@') = false := beq_eq_false_iff_ne.mpr (hmark _ (by decide) (by decide))
  have hquote : (first == '"') = false := beq_eq_false_iff_ne.mpr (hmark _ (by decide) (by decide))
  have hopening : stringOpening? ('@' :: first :: more) = none := by
    simp [stringOpening?, runLength, hdollar, hat, hquote]
  rw [h, hbytes] at hword
  rw [hbytes, firstPiece.eq_def, blankLength_ascii (by decide), hopening]
  simp [hword, Nat.add_comm]

end RouteLinks.Source
