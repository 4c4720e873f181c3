import RouteLinks.Proofs.Source.NameBytes
/-!
# Tokens of types

The tokens of a type are words and signs. A reader finds them in their text without white space,
unless two of them join: two words, or two of the signs that make one sign together. Then it finds
fewer.
-/

namespace RouteLinks.Source

/-- A word of a type, which may be marked as a name. -/
structure TypeWord where
  marked : Bool
  name : String
  begins : beginsName name.toList = true
  parts : ∀ c ∈ name.toList, isNamePart c = true
  deriving DecidableEq

/-- A sign of a type. -/
inductive TypeSign where
  | point
  | colons
  | comma
  | less
  | greater
  | question
  | star
  | openRound
  | closeRound
  | openSquare
  | closeSquare
  deriving DecidableEq

def TypeSign.isDoubled (s : TypeSign) : Bool := [point, less, question].contains s

inductive TypeToken where
  | word (w : TypeWord)
  | sign (s : TypeSign)
  deriving DecidableEq

def TypeWord.chars (w : TypeWord) : List Char :=
  if w.marked then '@' :: w.name.toList else w.name.toList

def TypeSign.chars : TypeSign → List Char
  | .point => ['.']
  | .colons => [':', ':']
  | .comma => [',']
  | .less => ['<']
  | .greater => ['>']
  | .question => ['?']
  | .star => ['*']
  | .openRound => ['(']
  | .closeRound => [')']
  | .openSquare => ['[']
  | .closeSquare => [']']

namespace TypeToken

def chars : TypeToken → List Char
  | word w => w.chars
  | sign s => s.chars

def kind : TypeToken → TokenKind
  | word _ => .word
  | sign _ => .symbol

def pieceKind : TypeToken → PieceKind
  | word _ => .word
  | sign _ => .symbol

def lexeme (t : TypeToken) : TokenKind × String := (t.kind, String.ofList t.chars)

/-- Whether two tokens are read as one where no white space is between them. -/
def joinsTo : TypeToken → TypeToken → Bool
  | word _, word w => !w.marked
  | sign s, sign s' => s == s' && s.isDoubled
  | _, _ => false

end TypeToken

def plainWord (name : String) (begins : beginsName name.toList = true)
    (parts : name.toList.all isNamePart = true) : TypeWord :=
  ⟨false, name, begins, List.all_eq_true.mp parts⟩

def plainName (name : String) (begins : beginsName name.toList = true)
    (parts : name.toList.all isNamePart = true) : TypeToken :=
  .word (plainWord name begins parts)

def numberWord : TypeWord := plainWord "int" (by decide) (by decide)

def stringWord : TypeWord := plainWord "string" (by decide) (by decide)

def compact (ts : List TypeToken) : List Char := ts.flatMap TypeToken.chars

/-- What a reader finds in a text that begins at an offset. -/
def lexemesFrom (offset fuel : Nat) (cs : List Char) : List (TokenKind × String) :=
  ((piecesFrom offset fuel cs).filterMap Piece.token?).map fun t => (t.kind, t.text)

/-- The tokens of a text, each with its kind. -/
def lexemesOf (s : String) : List (TokenKind × String) :=
  ((pieces (Utf8.encode s)).filterMap Piece.token?).map fun t => (t.kind, t.text)

/-! ### The first token of a text -/

theorem beginsName_append {cs : List Char} (h : beginsName cs = true) (next : List Char) :
    beginsName (cs ++ next) = true := by
  cases cs with
  | nil => cases h
  | cons c rest =>
      cases rest with
      | nil =>
          have hescape : c ≠ '\\' := by
            rintro rfl
            exact absurd h (by decide)
          simp only [beginsName, Bool.and_eq_true] at h
          simp [beginsName, h.1, hescape]
      | cons d more => exact h

theorem TypeWord.mem_head?_chars {w : TypeWord} {c : Char} (h : c ∈ w.chars.head?) :
    (w.marked = true ∧ c = '@') ∨
      (w.marked = false ∧ isNamePart c = true ∧ c.isDigit = false) := by
  have hbegins := w.begins
  rw [chars] at h
  split at h
  · next hmarked => exact .inl ⟨hmarked, (Option.some.inj h).symm⟩
  · next hmarked =>
    obtain ⟨rest, hname⟩ := List.head?_eq_some_iff.mp h
    simp only [hname, beginsName, Bool.and_eq_true, Bool.not_eq_true'] at hbegins
    exact .inr ⟨by simpa using hmarked, hbegins.1⟩

theorem TypeWord.chars_ne_nil (w : TypeWord) : w.chars ≠ [] := by
  have hbegins := w.begins
  rw [chars]
  split
  · exact List.cons_ne_nil _ _
  · intro hnil
    rw [hnil] at hbegins
    cases hbegins

theorem TypeWord.firstPiece_append (w : TypeWord) (next : List Char) :
    firstPiece (bytesOf (w.chars ++ next)) =
      (.word, (bytesOf (w.chars ++ next.takeWhile isNamePart)).length) := by
  have hwhole : (w.name.toList ++ next).takeWhile isNamePart =
      w.name.toList ++ next.takeWhile isNamePart := List.takeWhile_append_of_pos w.parts
  have hbegins := beginsName_append w.begins next
  rw [TypeWord.chars]
  split
  · rw [List.cons_append, List.cons_append, bytesOf_cons, bytesOf_cons, charBytes_ascii (by decide),
      List.singleton_append, firstPiece_marked hbegins, wordLength_bytesOf, hwhole]
    rfl
  · rw [firstPiece_name hbegins, wordLength_bytesOf, hwhole]

namespace TypeSign

@[simp] theorem bytesOf_chars (s : TypeSign) : bytesOf s.chars = s.chars := by
  cases s <;> decide

theorem bounds_chars (s : TypeSign) : ∀ c ∈ s.chars, 33 ≤ c.toNat ∧ c.toNat < 0x80 := by
  cases s <;> exact forall_mem_of_all (by decide)

theorem isNamePart_chars (s : TypeSign) : ∀ c ∈ s.chars, isNamePart c = false := by
  cases s <;> exact forall_mem_of_all (by decide)

theorem isDigit_chars (s : TypeSign) : ∀ c ∈ s.chars, c.isDigit = false := by
  cases s <;> exact forall_mem_of_all (by decide)

theorem ne_equals_chars (s : TypeSign) : ∀ c ∈ s.chars, c ≠ '=' := by
  cases s <;> exact forall_mem_of_all (by decide)

/-- A sign is told by its first character, but that a point may begin a number. -/
theorem firstPiece_append (s : TypeSign) {next : List Char}
    (hnext : ∀ d ∈ next.head?, d.isDigit = false) :
    firstPiece (s.chars ++ next) = (.symbol, symbolLength (s.chars ++ next)) := by
  by_cases hpoint : s = point
  · subst hpoint
    rw [firstPiece.eq_def, chars, List.singleton_append, blankLength_ascii (by decide),
      stringOpening?_eq_none (by decide)]
    cases next with
    | nil => rfl
    | cons d more =>
        dsimp only
        rw [if_neg (by decide)]
        show (if d.isDigit then _ else (PieceKind.symbol, symbolLength ('.' :: d :: more))) = _
        rw [hnext d rfl]
        rfl
  · obtain ⟨c, more, hchars, hmark⟩ : ∃ c more, s.chars = c :: more ∧
        c ∈ [':', ',', '<', '>', '?', '*', '(', ')', '[', ']'] := by
      cases s <;> first | exact absurd rfl hpoint | exact ⟨_, _, rfl, by decide⟩
    have hmarks : ∀ c ∈ [':', ',', '<', '>', '?', '*', '(', ')', '[', ']'],
        c.toNat < 128 ∧ ((9 ≤ c.toNat && c.toNat ≤ 13) || c.toNat == 32) = false ∧
        (c ≠ '$' ∧ c ≠ '@' ∧ c ≠ '"') ∧ (c ≠ '/' ∧ c ≠ '#' ∧ c ≠ Char.ofNat 39 ∧ c ≠ '.') ∧
        c.isDigit = false ∧ c.isAlpha = false ∧ c ≠ '_' ∧ c ≠ '\\' :=
      forall_mem_of_all (by decide)
    obtain ⟨hascii, hspace, hquote, hother, hdigit, halpha, hline, hescape⟩ := hmarks c hmark
    have hblank : blankLength (c :: (more ++ next)) = 0 := by
      rw [blankLength_ascii hascii, hspace]
      rfl
    have hword : beginsWord (c :: (more ++ next)) = false := by
      have hsmall : ¬0x80 ≤ c.toNat := by omega
      simp [beginsWord, halpha, hline, hescape, hsmall]
    rw [hchars, List.cons_append, firstPiece_eq hblank hquote hother, hdigit, hword]
    rfl

/-- With another character a sign makes one symbol only if that is an equals sign, or if the sign is
doubled. -/
theorem joins_eq_false {s : TypeSign} {c d : Char} (hchars : s.chars = [c]) (hd : d ≠ '=')
    (hdouble : s.isDoubled = true → d ≠ c) : joins c d = false := by
  have hpairs : ∀ p ∈ longSymbols.map fun x => x.toList.take 2, p.head? = s.chars.head? →
      p.getLast? = some '=' ∨ (s.isDoubled = true ∧ p = s.chars ++ s.chars) ∨ s = colons := by
    cases s <;> decide
  rw [joins, List.any_eq_false]
  intro x hx hbegins
  have htake : x.toList.take 2 = [c, d] :=
    (List.prefix_iff_eq_take.mp (List.isPrefixOf_iff_prefix.mp hbegins)).symm
  rcases hpairs [c, d] (List.mem_map.mpr ⟨x, hx, htake⟩) (by rw [hchars]; rfl) with
    hequals | ⟨hdoubled, hpair⟩ | rfl
  · exact hd (Option.some.inj hequals)
  · rw [hchars] at hpair
    exact hdouble hdoubled (List.cons.inj (List.cons.inj hpair).2).1
  · cases hchars

theorem symbolLength_append (s : TypeSign) {next : List Char}
    (hnext : ∀ d ∈ next.head?, d ≠ '=' ∧ (s.isDoubled = true → s.chars ≠ [d])) :
    symbolLength (s.chars ++ next) = s.chars.length := by
  by_cases hcolons : s = colons
  · subst hcolons
    simp [chars, symbolLength, longSymbols]
    rfl
  · obtain ⟨c, hchars⟩ : ∃ c, s.chars = [c] := by
      cases s <;> first | exact absurd rfl hcolons | exact ⟨_, rfl⟩
    rw [hchars, List.singleton_append]
    refine symbolLength_eq_one fun d hd => ?_
    obtain ⟨hequals, hdouble⟩ := hnext d hd
    refine joins_eq_false hchars hequals fun hdoubled => ?_
    rintro rfl
    exact hdouble hdoubled hchars

theorem symbolLength_double {s : TypeSign} (h : s.isDoubled = true) {next : List Char}
    (hnext : ∀ d ∈ next.head?, d ≠ '=') : symbolLength (s.chars ++ (s.chars ++ next)) = 2 := by
  have hcases : s = point ∨ s = less ∨ s = question := by simpa [isDoubled] using h
  rcases hcases with rfl | rfl | rfl
  all_goals
    cases next with
    | nil => decide
    | cons d more =>
        have hd := hnext d rfl
        simp [symbolLength, longSymbols, chars, List.isPrefixOf, hd.symm]
        rfl

end TypeSign

namespace TypeToken

/-- Whether a token ends where a text follows it. -/
def Ends (t : TypeToken) (next : List Char) : Prop :=
  ∀ d ∈ next.head?, match t with
    | word _ => isNamePart d = false
    | sign s => d ≠ '=' ∧ d.isDigit = false ∧ (s.isDoubled = true → s.chars ≠ [d])

theorem firstPiece_append {t : TypeToken} {next : List Char} (h : t.Ends next) :
    firstPiece (bytesOf (t.chars ++ next)) = (t.pieceKind, (bytesOf t.chars).length) := by
  cases t with
  | word w =>
      have hnone : next.takeWhile isNamePart = [] := by
        cases next with
        | nil => rfl
        | cons d more => rw [List.takeWhile_cons_of_neg (by simpa using h d rfl)]
      rw [chars, w.firstPiece_append, hnone, List.append_nil]
      rfl
  | sign s =>
      have hbyte : ∀ b ∈ (bytesOf next).head?,
          b ≠ '=' ∧ b.isDigit = false ∧ (s.isDoubled = true → s.chars ≠ [b]) := by
        intro b hb
        rcases mem_head?_bytesOf next hb with hchar | hbeyond
        · exact h b hchar
        · refine ⟨ne_of_beyond hbeyond (by decide), isDigit_beyond hbeyond, fun _ hsame => ?_⟩
          have hascii := s.bounds_chars b (by rw [hsame]; exact List.mem_singleton_self b)
          omega
      rw [chars, bytesOf_append, s.bytesOf_chars, s.firstPiece_append fun b hb => (hbyte b hb).2.1,
        s.symbolLength_append fun b hb => ⟨(hbyte b hb).1, (hbyte b hb).2.2⟩]
      rfl

theorem ends_nil (t : TypeToken) : t.Ends [] := nofun

theorem ends_space {t : TypeToken} {c : Char} (hc : isSpace c = true) (rest : List Char) :
    t.Ends (c :: rest) := by
  have hspace : (isSpace c || c.toNat == 0xFEFF) = true := Bool.or_eq_true_iff.mpr (.inl hc)
  have hbounds := bounds_of_isSpace hspace
  rintro d ⟨⟩
  cases t with
  | word w => exact isNamePart_of_isSpace hspace
  | sign s =>
      refine ⟨?_, ?_, fun _ hsame => ?_⟩
      · rintro rfl
        exact absurd hbounds (by decide)
      · rw [Bool.eq_false_iff]
        intro hdigit
        have hrange := bounds_of_isDigit hdigit
        omega
      · have hsign := s.bounds_chars c (by rw [hsame]; exact List.mem_singleton_self c)
        omega

theorem chars_ne_nil (t : TypeToken) : t.chars ≠ [] := by
  cases t with
  | word w => exact w.chars_ne_nil
  | sign s => cases s <;> exact List.cons_ne_nil _ _

theorem isBlank_chars (t : TypeToken) : ∀ c ∈ t.chars, Text.isBlank c = false := by
  cases t with
  | word w =>
      intro c hc
      rw [chars, TypeWord.chars] at hc
      split at hc
      · rcases List.mem_cons.mp hc with rfl | hc
        · decide
        · exact isBlank_of_isNamePart (w.parts c hc)
      · exact isBlank_of_isNamePart (w.parts c hc)
  | sign s => exact fun c hc => Text.isBlank_of_bounds (s.bounds_chars c hc)

theorem ends_append {t u : TypeToken} (h : t.joinsTo u = false) (rest : List Char) :
    t.Ends (u.chars ++ rest) := by
  rw [Ends, List.head?_append_of_ne_nil _ u.chars_ne_nil]
  intro d hd
  cases u with
  | word w =>
      rcases w.mem_head?_chars hd with ⟨hmarked, rfl⟩ | ⟨hplain, hpart, hdigit⟩
      · cases t with
        | word v => rfl
        | sign s => exact ⟨by decide, by decide, fun _ => by cases s <;> decide⟩
      · cases t with
        | word v => simp [joinsTo, hplain] at h
        | sign s =>
            refine ⟨?_, hdigit, fun _ hsame => ?_⟩
            · rintro rfl
              exact absurd hpart (by decide)
            · rw [s.isNamePart_chars d (by rw [hsame]; exact List.mem_singleton_self d)] at hpart
              cases hpart
  | sign s =>
      have hmem := List.mem_of_mem_head? hd
      cases t with
      | word v => exact s.isNamePart_chars d hmem
      | sign r =>
          refine ⟨s.ne_equals_chars d hmem, s.isDigit_chars d hmem, fun hdoubled hsame => ?_⟩
          -- Signs of one character are told by it.
          have hsign : r = s := by
            obtain ⟨rest, hchars⟩ := List.head?_eq_some_iff.mp hd
            cases r <;> obtain ⟨rfl, -⟩ := List.cons.inj hsame <;> cases s <;>
              first | rfl | cases hchars
          simp [joinsTo, hsign, hsign ▸ hdoubled] at h

end TypeToken

/-! ### Tokens without white space -/

@[simp] theorem compact_nil : compact [] = [] := rfl

@[simp] theorem compact_cons (t : TypeToken) (ts : List TypeToken) :
    compact (t :: ts) = t.chars ++ compact ts := rfl

@[simp] theorem compact_append (ts us : List TypeToken) :
    compact (ts ++ us) = compact ts ++ compact us := List.flatMap_append

theorem TypeWord.not_mem_chars {c : Char} (hc : isNamePart c = false) (hmark : c ≠ '@')
    (w : TypeWord) : c ∉ w.chars := by
  have hname : c ∉ w.name.toList := fun hmem =>
    Bool.false_ne_true (hc.symm.trans (w.parts c hmem))
  rw [TypeWord.chars]
  split
  · exact List.not_mem_cons_of_ne_of_not_mem hmark hname
  · exact hname

theorem TypeToken.eq_sign_of_mem {t : TypeToken} {s : TypeSign} {c : Char} (hs : s.chars = [c])
    (hc : c ∈ t.chars) : t = .sign s := by
  cases t with
  | word w =>
      have hmark : c ≠ '@' := by
        rintro rfl
        cases s <;> cases hs
      exact absurd hc (w.not_mem_chars (s.isNamePart_chars c (by simp [hs])) hmark)
  | sign r =>
      cases s <;> obtain ⟨rfl, -⟩ := List.cons.inj hs <;> cases r <;>
        first | rfl | exact absurd hc (by decide)

theorem not_mem_compact {s : TypeSign} {c : Char} (hs : s.chars = [c]) {ts : List TypeToken}
    (h : .sign s ∉ ts) : c ∉ compact ts := by
  intro hc
  obtain ⟨t, ht, hct⟩ := List.mem_flatMap.mp hc
  obtain rfl := TypeToken.eq_sign_of_mem hs hct
  exact h ht

theorem exists_of_compact_eq {s : TypeSign} {c : Char} (hs : s.chars = [c])
    {ts : List TypeToken} {xs ys : List Char} (h : compact ts = xs ++ c :: ys) :
    ∃ us vs, ts = us ++ .sign s :: vs ∧ compact us = xs ∧ compact vs = ys := by
  induction ts generalizing xs with
  | nil => simp at h
  | cons t rest ih =>
      rw [compact_cons] at h
      rcases List.append_eq_append_iff.mp h with ⟨more, rfl, hrest⟩ | ⟨more, hchars, hrest⟩
      · obtain ⟨us, vs, rfl, rfl, rfl⟩ := ih hrest
        exact ⟨t :: us, vs, rfl, rfl, rfl⟩
      · cases more with
        | nil =>
            have hnext : compact rest = [] ++ c :: ys := hrest.symm
            obtain ⟨us, vs, rfl, hus, rfl⟩ := ih hnext
            refine ⟨t :: us, vs, rfl, ?_, rfl⟩
            rw [compact_cons, hus, hchars, List.append_nil, List.append_nil]
        | cons d more =>
            obtain ⟨rfl, rfl⟩ := List.cons.inj hrest
            obtain rfl := TypeToken.eq_sign_of_mem (t := t) hs (by simp [hchars])
            rw [TypeToken.chars, hs] at hchars
            cases xs with
            | cons e others => simp at hchars
            | nil =>
                obtain ⟨-, rfl⟩ := List.cons.inj hchars
                exact ⟨[], rest, rfl, rfl, rfl⟩

/-- Whether a word goes on with a token. -/
def TypeToken.isPlainWord : TypeToken → Bool
  | word w => !w.marked
  | sign _ => false

theorem takeWhile_isNamePart_compact (ts : List TypeToken) :
    (compact ts).takeWhile isNamePart = compact (ts.takeWhile TypeToken.isPlainWord) := by
  induction ts with
  | nil => rfl
  | cons t rest ih =>
      rw [compact_cons, List.takeWhile_cons]
      cases t with
      | word w =>
          cases hmarked : w.marked with
          | false =>
              have hchars : w.chars = w.name.toList := by simp [TypeWord.chars, hmarked]
              rw [TypeToken.chars, hchars, List.takeWhile_append_of_pos w.parts, ih]
              simp [TypeToken.isPlainWord, hmarked, TypeToken.chars, hchars]
          | true =>
              have hmark : isNamePart '@' = false := by decide
              simp [TypeToken.isPlainWord, hmarked, TypeToken.chars, TypeWord.chars, hmark]
      | sign s =>
          obtain ⟨c, more, hchars⟩ := List.exists_cons_of_ne_nil (TypeToken.sign s).chars_ne_nil
          have hc : isNamePart c = false := s.isNamePart_chars c (by
            rw [TypeToken.chars] at hchars
            simp [hchars])
          simp [TypeToken.isPlainWord, hchars, hc]

theorem TypeSign.exists_of_joins {s : TypeSign} {ts : List TypeToken}
    (h : ¬∀ u ∈ ts.head?, (TypeToken.sign s).joinsTo u = false) :
    ∃ more, ts = .sign s :: more ∧ s.isDoubled = true := by
  cases ts with
  | nil => exact absurd nofun h
  | cons u more =>
      cases u with
      | word v => exact absurd (by rintro u ⟨⟩; rfl) h
      | sign r =>
          have hsame : (s == r && s.isDoubled) = true := by simpa [TypeToken.joinsTo] using h
          rw [Bool.and_eq_true, beq_iff_eq] at hsame
          exact ⟨more, by rw [hsame.1], hsame.2⟩

theorem ne_equals_compact (ts : List TypeToken) : ∀ b ∈ (bytesOf (compact ts)).head?, b ≠ '=' := by
  intro b hb
  rcases mem_head?_bytesOf _ hb with hchar | hbeyond
  · cases ts with
    | nil => cases hchar
    | cons u others =>
        have hapart : (TypeToken.sign .comma).joinsTo u = false := by
          cases u <;> simp [TypeToken.joinsTo, TypeSign.isDoubled]
        have hends := TypeToken.ends_append hapart (compact others)
        exact (hends b hchar).1
  · exact ne_of_beyond hbeyond (by decide)

/-- Two doubled signs in a row are one piece. -/
theorem TypeSign.firstPiece_double {s : TypeSign} (h : s.isDoubled = true) (ts : List TypeToken) :
    firstPiece (bytesOf (compact (.sign s :: .sign s :: ts))) =
      (.symbol, (s.chars ++ s.chars).length) := by
  have hnext : ∀ d ∈ (s.chars ++ bytesOf (compact ts)).head?, d.isDigit = false := by
    have hne : s.chars ≠ [] := (TypeToken.sign s).chars_ne_nil
    rw [List.head?_append_of_ne_nil _ hne]
    exact fun d hd => s.isDigit_chars d (List.mem_of_mem_head? hd)
  have hchars : (s.chars ++ s.chars).length = 2 := by
    cases s <;> first | rfl | cases h
  simp only [compact_cons, TypeToken.chars, bytesOf_append, s.bytesOf_chars]
  rw [s.firstPiece_append hnext, s.symbolLength_double h (ne_equals_compact ts), hchars]

/-- The first piece of a row of tokens takes some of them as a whole, and more than one if the first
two join. -/
theorem firstPiece_compact (t : TypeToken) (ts : List TypeToken) :
    ∃ n ≤ ts.length, (n = 0 ↔ ∀ u ∈ ts.head?, t.joinsTo u = false) ∧
      firstPiece (bytesOf (compact (t :: ts))) =
        (t.pieceKind, (bytesOf (compact (t :: ts.take n))).length) := by
  cases t with
  | word w =>
      refine ⟨(ts.takeWhile TypeToken.isPlainWord).length,
        (List.takeWhile_prefix _).length_le, ?_, ?_⟩
      · cases ts with
        | nil => simp
        | cons u more =>
            cases u <;> simp [TypeToken.joinsTo, TypeToken.isPlainWord, List.takeWhile_cons]
      · rw [compact_cons, compact_cons, TypeToken.chars, w.firstPiece_append,
          takeWhile_isNamePart_compact, ← List.prefix_iff_eq_take.mp (List.takeWhile_prefix _)]
        rfl
  | sign s =>
      by_cases hjoins : ∀ u ∈ ts.head?, (TypeToken.sign s).joinsTo u = false
      · refine ⟨0, Nat.zero_le _, by simpa using hjoins, ?_⟩
        have hends : (TypeToken.sign s).Ends (compact ts) := by
          cases ts with
          | nil => exact TypeToken.ends_nil _
          | cons u more => exact TypeToken.ends_append (hjoins u rfl) _
        rw [compact_cons, TypeToken.firstPiece_append hends]
        simp
      · obtain ⟨more, rfl, hdoubled⟩ := TypeSign.exists_of_joins hjoins
        refine ⟨1, Nat.le_add_left _ _, by simpa using hjoins, ?_⟩
        rw [TypeSign.firstPiece_double hdoubled]
        simp [compact_cons, TypeToken.chars, TypeToken.pieceKind]

/-- Tokens none of which joins the next one. -/
def Apart (ts : List TypeToken) : Prop := ts.IsChain fun t u => t.joinsTo u = false

instance (ts : List TypeToken) : Decidable (Apart ts) :=
  inferInstanceAs (Decidable (List.IsChain _ _))

theorem apart_nil : Apart [] := .nil

theorem apart_cons {t : TypeToken} {ts : List TypeToken} :
    Apart (t :: ts) ↔ (∀ u ∈ ts.head?, t.joinsTo u = false) ∧ Apart ts := by
  cases ts with
  | nil => simp [Apart]
  | cons u more => simp [Apart, List.isChain_cons_cons]

theorem TypeToken.token?_mk (t : TypeToken) (offset : Nat) (cs : List Char) :
    (Piece.token? ⟨t.pieceKind, offset, bytesOf cs⟩).map (fun x => (x.kind, x.text)) =
      some (t.kind, String.ofList cs) := by
  cases t <;> simp [Piece.token?, TypeToken.pieceKind, TypeToken.kind, textOfChars_bytesOf]

theorem piecesFrom_succ {offset fuel : Nat} {c : Char} {rest : List Char} {kind : PieceKind}
    {length : Nat} (h : firstPiece (c :: rest) = (kind, length)) :
    piecesFrom offset (fuel + 1) (c :: rest) =
      ⟨kind, offset, (c :: rest).take (max length 1)⟩ ::
        piecesFrom (offset + ((c :: rest).take (max length 1)).length) fuel
          ((c :: rest).drop (max length 1)) := by
  rw [piecesFrom]
  simp only [h, List.splitAt_eq]
  simp

theorem piecesFrom_append {kind : PieceKind} {cs rest : List Char} (hne : cs ≠ [])
    (h : firstPiece (cs ++ rest) = (kind, cs.length)) (offset fuel : Nat) :
    piecesFrom offset (fuel + 1) (cs ++ rest) =
      ⟨kind, offset, cs⟩ :: piecesFrom (offset + cs.length) fuel rest := by
  obtain ⟨c, more, rfl⟩ := List.exists_cons_of_ne_nil hne
  have hlength : max (c :: more).length 1 = (c :: more).length :=
    Nat.max_eq_left (Nat.succ_le_succ (Nat.zero_le _))
  rw [List.cons_append] at h ⊢
  rw [piecesFrom_succ h, hlength, ← List.cons_append, List.take_left, List.drop_left]

/-- The first token that a reader finds in a row of them, and what is left. -/
theorem lexemesFrom_compact (t : TypeToken) (ts : List TypeToken) :
    ∃ n ≤ ts.length, (n = 0 ↔ ∀ u ∈ ts.head?, t.joinsTo u = false) ∧ ∀ offset fuel, ∃ offset',
      lexemesFrom offset (fuel + 1) (bytesOf (compact (t :: ts))) =
        (t.kind, String.ofList (compact (t :: ts.take n))) ::
          lexemesFrom offset' fuel (bytesOf (compact (ts.drop n))) := by
  obtain ⟨n, hn, hzero, hfirst⟩ := firstPiece_compact t ts
  refine ⟨n, hn, hzero, fun offset fuel => ?_⟩
  have hsplit : bytesOf (compact (t :: ts)) =
      bytesOf (compact (t :: ts.take n)) ++ bytesOf (compact (ts.drop n)) := by
    rw [← bytesOf_append, ← compact_append, List.cons_append, List.take_append_drop]
  have hne : bytesOf (compact (t :: ts.take n)) ≠ [] := by
    obtain ⟨c, more, hchars⟩ := List.exists_cons_of_ne_nil t.chars_ne_nil
    simp [hchars, charBytes_ne_nil]
  rw [hsplit] at hfirst
  have htoken := t.token?_mk offset (compact (t :: ts.take n))
  obtain ⟨x, hx, hlexeme⟩ := Option.map_eq_some_iff.mp htoken
  refine ⟨offset + (bytesOf (compact (t :: ts.take n))).length, ?_⟩
  rw [hsplit, lexemesFrom, piecesFrom_append hne hfirst, List.filterMap_cons_some hx, List.map_cons,
    hlexeme]
  rfl

theorem length_lexemesFrom_le (ts : List TypeToken) (offset fuel : Nat) :
    (lexemesFrom offset fuel (bytesOf (compact ts))).length ≤ ts.length := by
  induction fuel generalizing ts offset with
  | zero => simp [lexemesFrom, piecesFrom]
  | succ fuel ih =>
      cases ts with
      | nil => simp [lexemesFrom, piecesFrom]
      | cons t rest =>
          obtain ⟨n, hn, -, hstep⟩ := lexemesFrom_compact t rest
          obtain ⟨offset', hfound⟩ := hstep offset fuel
          rw [hfound, List.length_cons, List.length_cons]
          have hrest := ih (rest.drop n) offset'
          rw [List.length_drop] at hrest
          omega

theorem length_lexemesFrom_lt {ts : List TypeToken} (h : ¬Apart ts) (offset fuel : Nat) :
    (lexemesFrom offset fuel (bytesOf (compact ts))).length < ts.length := by
  induction fuel generalizing ts offset with
  | zero =>
      cases ts with
      | nil => exact absurd apart_nil h
      | cons t rest => simp [lexemesFrom, piecesFrom]
  | succ fuel ih =>
      cases ts with
      | nil => exact absurd apart_nil h
      | cons t rest =>
          obtain ⟨n, hn, hzero, hstep⟩ := lexemesFrom_compact t rest
          obtain ⟨offset', hfound⟩ := hstep offset fuel
          rw [hfound, List.length_cons, List.length_cons]
          by_cases hjoins : n = 0
          · have hrest : ¬Apart rest := fun hapart => h (apart_cons.mpr ⟨hzero.mp hjoins, hapart⟩)
            have hless := ih hrest offset'
            rw [hjoins, List.drop_zero]
            omega
          · have hless := length_lexemesFrom_le (rest.drop n) offset' fuel
            rw [List.length_drop] at hless
            omega

theorem lexemesFrom_eq {ts : List TypeToken} (h : Apart ts) {offset fuel : Nat}
    (hfuel : (bytesOf (compact ts)).length ≤ fuel) :
    lexemesFrom offset fuel (bytesOf (compact ts)) = ts.map TypeToken.lexeme := by
  induction ts generalizing offset fuel with
  | nil => cases fuel <;> simp [lexemesFrom, piecesFrom]
  | cons t rest ih =>
      obtain ⟨happart, hrest⟩ := apart_cons.mp h
      have hpositive : 0 < (bytesOf t.chars).length := by
        obtain ⟨c, more, hchars⟩ := List.exists_cons_of_ne_nil t.chars_ne_nil
        have hc := List.length_pos_iff.mpr (charBytes_ne_nil c)
        rw [hchars, bytesOf_cons, List.length_append]
        omega
      rw [compact_cons, bytesOf_append, List.length_append] at hfuel
      obtain ⟨fuel, rfl⟩ : ∃ n, fuel = n + 1 := Nat.exists_eq_add_one_of_ne_zero (by omega)
      obtain ⟨n, -, hzero, hstep⟩ := lexemesFrom_compact t rest
      obtain ⟨offset', hfound⟩ := hstep offset fuel
      rw [hfound, hzero.mpr happart, List.drop_zero, ih hrest (by omega)]
      simp [TypeToken.lexeme]

theorem lexemesOf_ofList (cs : List Char) :
    lexemesOf (String.ofList cs) =
      lexemesFrom 0 (Utf8.encode (String.ofList cs)).length (bytesOf cs) := by
  rw [lexemesOf, lexemesFrom, pieces, byteChars_encode, String.toList_ofList]

theorem length_lexemesOf_compact_le (ts : List TypeToken) :
    (lexemesOf (String.ofList (compact ts))).length ≤ ts.length := by
  rw [lexemesOf_ofList]
  exact length_lexemesFrom_le ts _ _

/-- Without white space the tokens are found if and only if none joins the next one. -/
theorem lexemesOf_compact_iff {ts : List TypeToken} :
    lexemesOf (String.ofList (compact ts)) = ts.map TypeToken.lexeme ↔ Apart ts := by
  rw [lexemesOf_ofList]
  constructor
  · intro h
    by_contra hapart
    have hless := length_lexemesFrom_lt hapart 0
      (Utf8.encode (String.ofList (compact ts))).length
    rw [h, List.length_map] at hless
    exact Nat.lt_irrefl _ hless
  · intro h
    refine lexemesFrom_eq h (Nat.le_of_eq ?_)
    rw [← String.toList_ofList (l := compact ts), ← byteChars_encode, byteChars, List.length_map,
      String.toList_ofList]

end RouteLinks.Source
