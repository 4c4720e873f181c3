import RouteLinks.Proofs.Emit.Layout
/-!
# Lines that switch warnings

A line switches warnings when, after blanks, the number sign and the words of the directive stand in
it with blanks between them, and the last of the words ends there. So it does not matter whether the
blanks at the end of a line are taken off before it is looked at.
-/

namespace RouteLinks

/-! ### Blanks -/

def Text.blankCodes : List Nat :=
  [0x09, 0x0A, 0x0B, 0x0C, 0x0D, 0x1C, 0x1D, 0x1E, 0x1F, 0x20, 0x85, 0xA0, 0x1680, 0x2000, 0x2001,
    0x2002, 0x2003, 0x2004, 0x2005, 0x2006, 0x2007, 0x2008, 0x2009, 0x200A, 0x2028, 0x2029, 0x202F,
    0x205F, 0x3000]

theorem Text.toNat_mem_blankCodes {c : Char} (h : isBlank c = true) : c.toNat ∈ blankCodes := by
  simp only [isBlank, Bool.or_eq_true, Bool.and_eq_true, decide_eq_true_eq, beq_iff_eq] at h
  simp only [blankCodes, List.mem_cons, List.not_mem_nil, or_false]
  omega

theorem Unicode.isWord_of_isBlank {c : Char} (h : Text.isBlank c = true) : isWord c = false := by
  have hcodes : ∀ n ∈ Text.blankCodes, isWord (Char.ofNat n) = false := by decide +kernel
  rw [← Char.ofNat_toNat c]
  exact hcodes _ (Text.toNat_mem_blankCodes h)

namespace Layout

open Text (isBlank trimStart trimEnd)

variable {word : String} {line cs rest : List Char}

/-! ### The words of the directive -/

theorem afterWord?_eq_some_iff : afterWord? word cs = some rest ↔
    ∃ gap, gap ≠ [] ∧ (∀ b ∈ gap, isBlank b = true) ∧ cs = word.toList ++ (gap ++ rest) ∧
      ∀ c ∈ rest.head?, isBlank c = false := by
  constructor
  · intro h
    rw [afterWord?] at h
    split at h
    · next hword =>
      obtain ⟨after, rfl⟩ := List.isPrefixOf_iff_prefix.mp hword
      rw [List.drop_left] at h
      cases after with
      | nil => cases h
      | cons b more =>
          simp only at h
          split at h
          · next hb =>
            cases h
            obtain ⟨⟨gap, hgap, hblank⟩, hhead⟩ := Text.exists_eq_append_trimStart (b :: more)
            refine ⟨gap, ?_, hblank, by rw [← hgap], hhead⟩
            -- the first blank is not left over
            rintro rfl
            have hb' := hhead b (by rw [← List.nil_append (trimStart _), ← hgap]; rfl)
            rw [hb] at hb'
            cases hb'
          · cases h
    · cases h
  · rintro ⟨gap, hne, hblank, rfl, hhead⟩
    obtain ⟨b, more, rfl⟩ := List.exists_cons_of_ne_nil hne
    have hword : word.toList.isPrefixOf (word.toList ++ (b :: more ++ rest)) = true :=
      List.isPrefixOf_iff_prefix.mpr (List.prefix_append _ _)
    rw [afterWord?, if_pos hword, List.drop_left]
    show (if isBlank b = true then some (trimStart (b :: more ++ rest)) else none) = _
    rw [if_pos (hblank b List.mem_cons_self), Text.trimStart_append hblank hhead]

theorem startsWithWord_iff : startsWithWord word cs = true ↔
    ∃ rest, cs = word.toList ++ rest ∧ ∀ c ∈ rest.head?, Unicode.isWord c = false := by
  rw [startsWithWord, Bool.and_eq_true, List.isPrefixOf_iff_prefix]
  constructor
  · rintro ⟨⟨rest, rfl⟩, h⟩
    refine ⟨rest, rfl, ?_⟩
    rw [List.drop_left] at h
    cases rest with
    | nil => simp
    | cons c more => simpa using h
  · rintro ⟨rest, rfl, h⟩
    refine ⟨List.prefix_append _ _, ?_⟩
    rw [List.drop_left]
    cases rest with
    | nil => rfl
    | cons c more => simpa using h

/-- Whether a line has the directive with a word. -/
def switches (word : String) (line : List Char) : Bool :=
  match (afterWord? "#pragma" (trimStart line)).bind (afterWord? "warning") with
  | some rest => startsWithWord word rest
  | none => false

theorem isPragma_eq (line : List Char) :
    isPragma line = (switches "disable" line || switches "restore" line) := by
  rw [isPragma, switches, switches]
  cases (afterWord? "#pragma" (trimStart line)).bind (afterWord? "warning") <;> rfl

def switchWords : List String := ["disable", "restore"]

/-- A word that is set off by blanks before it, and whose end is seen in a line. -/
structure IsSolid (word : String) : Prop where
  first : ∃ c more, word.toList = c :: more ∧ isBlank c = false
  last : ∃ front c, word.toList = front ++ [c] ∧ isBlank c = false

theorem isSolid_of_mem (h : word ∈ switchWords) : IsSolid word := by
  simp only [switchWords, List.mem_cons, List.not_mem_nil, or_false] at h
  obtain rfl | rfl := h
  · exact ⟨⟨'d', "isable".toList, by decide⟩, ⟨"disabl".toList, 'e', by decide⟩⟩
  · exact ⟨⟨'r', "estore".toList, by decide⟩, ⟨"restor".toList, 'e', by decide⟩⟩

def directive (margin gap space : List Char) (word : String) (rest : List Char) : List Char :=
  margin ++ ("#pragma".toList ++ (gap ++ ("warning".toList ++ (space ++ (word.toList ++ rest)))))

theorem switches_iff (h : IsSolid word) : switches word line = true ↔
    ∃ margin gap space rest : List Char, (∀ b ∈ margin, isBlank b = true) ∧
      (gap ≠ [] ∧ ∀ b ∈ gap, isBlank b = true) ∧ (space ≠ [] ∧ ∀ b ∈ space, isBlank b = true) ∧
        line = directive margin gap space word rest ∧
          ∀ c ∈ rest.head?, Unicode.isWord c = false := by
  constructor
  · intro hswitches
    rw [switches] at hswitches
    split at hswitches
    · next after hafter =>
      obtain ⟨inner, hpragma, hwarning⟩ := Option.bind_eq_some_iff.mp hafter
      obtain ⟨⟨margin, hline, hmargin⟩, _⟩ := Text.exists_eq_append_trimStart line
      obtain ⟨gap, hgap, hgap', hstart, _⟩ := afterWord?_eq_some_iff.mp hpragma
      obtain ⟨space, hspace, hspace', hinner, _⟩ := afterWord?_eq_some_iff.mp hwarning
      obtain ⟨rest, hword, hrest⟩ := startsWithWord_iff.mp hswitches
      refine ⟨margin, gap, space, rest, hmargin, ⟨hgap, hgap'⟩, ⟨hspace, hspace'⟩, ?_, hrest⟩
      rw [hline, hstart, hinner, hword]
      rfl
    · cases hswitches
  · rintro ⟨margin, gap, space, rest, hmargin, ⟨hgap, hgap'⟩, ⟨hspace, hspace'⟩, rfl, hrest⟩
    have hwarning : afterWord? "warning" ("warning".toList ++ (space ++ (word.toList ++ rest))) =
        some (word.toList ++ rest) := by
      obtain ⟨c, more, hword, hc⟩ := h.first
      refine afterWord?_eq_some_iff.mpr ⟨space, hspace, hspace', rfl, ?_⟩
      simp [hword, hc]
    have hpragma : afterWord? "#pragma" ("#pragma".toList ++ (gap ++ ("warning".toList ++
        (space ++ (word.toList ++ rest))))) =
          some ("warning".toList ++ (space ++ (word.toList ++ rest))) := by
      refine afterWord?_eq_some_iff.mpr ⟨gap, hgap, hgap', rfl, ?_⟩
      simp
      decide
    rw [switches, directive, Text.trimStart_append hmargin (by simp; decide), hpragma,
      Option.bind_some, hwarning]
    exact startsWithWord_iff.mpr ⟨rest, rfl, hrest⟩

/-! ### Blanks at the end -/

theorem switches_trimEnd (h : IsSolid word) (line : List Char) :
    switches word (trimEnd line) = switches word line := by
  rw [Bool.eq_iff_iff, switches_iff h, switches_iff h]
  constructor
  · rintro ⟨margin, gap, space, rest, hmargin, hgap, hspace, hline, hrest⟩
    obtain ⟨blanks, hline', hblanks⟩ := Text.exists_eq_trimEnd_append line
    refine ⟨margin, gap, space, rest ++ blanks, hmargin, hgap, hspace, ?_, ?_⟩
    · rw [hline', hline]
      simp only [directive, List.append_assoc]
    · intro c hc
      rw [List.head?_append] at hc
      rcases Option.or_eq_some_iff.mp hc with hc | ⟨_, hc⟩
      · exact hrest c hc
      · exact Unicode.isWord_of_isBlank (hblanks c (List.mem_of_mem_head? hc))
  · rintro ⟨margin, gap, space, rest, hmargin, hgap, hspace, hline, hrest⟩
    -- the last letter of the word is no blank, so only what stands behind the word is cut
    obtain ⟨front, last, hword, hlast⟩ := h.last
    refine ⟨margin, gap, space, trimEnd rest, hmargin, hgap, hspace, ?_,
      fun c hc => hrest c (Text.head?_trimEnd hc)⟩
    have hcut : ∀ tail, directive margin gap space word tail =
        directive margin gap space (String.ofList front) (last :: tail) := by
      simp [directive, hword]
    have hfront : ∀ tail, directive margin gap space (String.ofList front) tail =
        directive margin gap space (String.ofList front) [] ++ tail := by
      simp [directive]
    rw [hline, hcut, hfront, trimEnd_append_cons hlast, ← hfront, hcut]

theorem isPragma_trimEnd (line : List Char) : isPragma (trimEnd line) = isPragma line := by
  have hword : ∀ word ∈ switchWords, switches word (trimEnd line) = switches word line :=
    fun word h => switches_trimEnd (isSolid_of_mem h) line
  rw [isPragma_eq, isPragma_eq, hword "disable" (by decide), hword "restore" (by decide)]

theorem isPragma_of_blank (h : line.all isBlank = true) : isPragma line = false := by
  have hempty : trimEnd line = [] := Text.trimEnd_eq_nil_iff.mpr h
  rw [← isPragma_trimEnd, hempty]
  rfl

end Layout

end RouteLinks
