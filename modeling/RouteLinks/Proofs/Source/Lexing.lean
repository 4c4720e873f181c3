import RouteLinks.Proofs.Text.Ascii
import RouteLinks.Proofs.Text.Identifier
import RouteLinks.Source.Lexer
import RouteLinks.Text.Quoted
/-!
# The first piece of a text

Where a text begins with a blank, a word, a symbol or a literal, that is its first piece, whatever
follows it, if only what follows does not go on with it.
-/

namespace RouteLinks.Source

variable {c : Char} {rest : List Char}

theorem blankLength_ascii (h : c.toNat < 128) (rest : List Char) :
    blankLength (c :: rest) = if (9 ≤ c.toNat && c.toNat ≤ 13) || c.toNat == 32 then 1 else 0 := by
  unfold blankLength
  rw [List.take_succ_cons, List.map_cons]
  generalize (rest.take 2).map Char.toNat = more
  generalize c.toNat = n at h
  split
  all_goals
    next heq =>
      first
        | (obtain ⟨rfl, -⟩ := List.cons.inj heq; omega)
        | cases heq

theorem stringOpening?_eq_none (h : c ≠ '$' ∧ c ≠ '@' ∧ c ≠ '"') :
    stringOpening? (c :: rest) = none := by
  simp [stringOpening?, runLength, h]

/-! ### Blanks and words -/

/-- What begins with none of the marks that tell the first piece by themselves. -/
theorem firstPiece_eq (hblank : blankLength (c :: rest) = 0)
    (hmark : c ≠ '$' ∧ c ≠ '@' ∧ c ≠ '"')
    (hother : c ≠ '/' ∧ c ≠ '#' ∧ c ≠ Char.ofNat 39 ∧ c ≠ '.') :
    firstPiece (c :: rest) =
      if c.isDigit then (.literal, numberLength (c :: rest))
      else if beginsWord (c :: rest) then (.word, wordLength (c :: rest))
      else (.symbol, symbolLength (c :: rest)) := by
  obtain ⟨hslash, hsharp, hquote, hpoint⟩ := hother
  rw [firstPiece.eq_def, hblank, stringOpening?_eq_none hmark]
  dsimp only
  rw [if_neg (by decide)]
  split
  case h_7 heq =>
    obtain ⟨rfl, -⟩ := List.cons.inj heq
    rfl
  case h_8 heq => cases heq
  all_goals
    next heq =>
      obtain ⟨rfl, -⟩ := List.cons.inj heq
      first
        | exact absurd rfl hslash
        | exact absurd rfl hsharp
        | exact absurd rfl hquote
        | exact absurd rfl hmark.2.1
        | exact absurd rfl hpoint

/-! ### Symbols -/

/-- Whether a symbol of more than one character begins with these two. -/
def joins (c d : Char) : Bool := longSymbols.any fun s => [c, d].isPrefixOf s.toList

theorem symbolLength_eq_one (h : ∀ d ∈ rest.head?, joins c d = false) :
    symbolLength (c :: rest) = 1 := by
  have hnone : longSymbols.find? (·.toList.isPrefixOf (c :: rest)) = none := by
    rw [List.find?_eq_none]
    intro s hs hbegins
    have hlong : ∀ s ∈ longSymbols, 2 ≤ s.toList.length := by decide
    have hlength := hlong s hs
    rw [List.isPrefixOf_iff_prefix] at hbegins
    obtain ⟨a, b, more, hchars⟩ : ∃ a b more, s.toList = a :: b :: more := by
      cases hchars : s.toList with
      | nil => rw [hchars] at hlength; simp at hlength
      | cons a tail =>
          cases tail with
          | nil => rw [hchars] at hlength; simp at hlength
          | cons b more => exact ⟨a, b, more, rfl⟩
    rw [hchars, List.cons_prefix_cons] at hbegins
    obtain ⟨rfl, after, hrest⟩ := hbegins
    have hjoins : joins a b = true := by
      refine List.any_eq_true.mpr ⟨s, hs, ?_⟩
      rw [hchars]
      simp
    rw [h b (by rw [← hrest]; rfl)] at hjoins
    cases hjoins
  rw [symbolLength, hnone]

/-! ### Literals -/

theorem takeWhile_isWordChar {cs next : List Char} (h : ∀ c ∈ cs, isWordChar c = true)
    (hend : ∀ c ∈ next.head?, isWordChar c = false) : (cs ++ next).takeWhile isWordChar = cs := by
  rw [List.takeWhile_append_of_pos h]
  cases next with
  | nil => simp
  | cons c more => rw [List.takeWhile_cons_of_neg (by simp [hend c rfl]), List.append_nil]

theorem firstPiece_digit (h : c.isDigit = true) (rest : List Char) :
    firstPiece (c :: rest) = (.literal, numberLength (c :: rest)) := by
  have hbounds := bounds_of_isDigit h
  have hother : ∀ d : Char, d.toNat < 48 ∨ 57 < d.toNat → c ≠ d := by
    rintro d hd rfl
    omega
  have hblank : blankLength (c :: rest) = 0 := by
    rw [blankLength_ascii (by omega), if_neg (by simp; omega)]
  rw [firstPiece_eq hblank
    ⟨hother _ (by decide), hother _ (by decide), hother _ (by decide)⟩
    ⟨hother _ (by decide), hother _ (by decide), hother _ (by decide), hother _ (by decide)⟩,
    h, if_pos rfl]

end RouteLinks.Source
