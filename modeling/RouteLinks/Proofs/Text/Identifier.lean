import Mathlib.Data.List.Basic
import RouteLinks.Text.Identifier
/-!
# Identifiers of names

Whatever a name looks like, what is made of it is an identifier that is not a reserved word, and
stays one with underscores behind it: no reserved word has an underscore in it, and none is marked.
-/

namespace RouteLinks

section Characters

variable {c : Char}

/-! ### Classes of characters -/

theorem bounds_of_isAlpha (h : c.isAlpha = true) :
    65 ≤ c.toNat ∧ c.toNat ≤ 90 ∨ 97 ≤ c.toNat ∧ c.toNat ≤ 122 := by
  rcases Bool.or_eq_true_iff.mp h with hupper | hlower
  · have hbounds := of_decide_eq_true hupper
    exact .inl ⟨UInt32.le_iff_toNat_le.mp hbounds.1, UInt32.le_iff_toNat_le.mp hbounds.2⟩
  · have hbounds := Bool.and_eq_true_iff.mp hlower
    exact .inr ⟨UInt32.le_iff_toNat_le.mp (of_decide_eq_true hbounds.1),
      UInt32.le_iff_toNat_le.mp (of_decide_eq_true hbounds.2)⟩

theorem isAlpha_of_bounds (h : 65 ≤ c.toNat ∧ c.toNat ≤ 90 ∨ 97 ≤ c.toNat ∧ c.toNat ≤ 122) :
    c.isAlpha = true := by
  refine Bool.or_eq_true_iff.mpr (h.imp (fun hupper => ?_) fun hlower => ?_)
  · exact decide_eq_true ⟨UInt32.le_iff_toNat_le.mpr hupper.1, UInt32.le_iff_toNat_le.mpr hupper.2⟩
  · exact Bool.and_eq_true_iff.mpr ⟨decide_eq_true (UInt32.le_iff_toNat_le.mpr hlower.1),
      decide_eq_true (UInt32.le_iff_toNat_le.mpr hlower.2)⟩

theorem bounds_of_isDigit (h : c.isDigit = true) : 48 ≤ c.toNat ∧ c.toNat ≤ 57 := by
  simp only [Char.isDigit, decide_eq_true_eq, Bool.and_eq_true, ge_iff_le,
    UInt32.le_iff_toNat_le] at h
  exact h

theorem toLower_of_isDigit (h : c.isDigit = true) : c.toLower = c := by
  have hbounds := bounds_of_isDigit h
  refine dif_neg ?_
  rintro ⟨hupper, -⟩
  exact absurd (Nat.le_trans (UInt32.le_iff_toNat_le.mp hupper) hbounds.2) (by decide)

theorem bounds_of_isPart (h : Identifier.isPart c = true) :
    (65 ≤ c.toNat ∧ c.toNat ≤ 90 ∨ 97 ≤ c.toNat ∧ c.toNat ≤ 122) ∨
      (48 ≤ c.toNat ∧ c.toNat ≤ 57) ∨ c.toNat = 95 := by
  simp only [Identifier.isPart, Char.isAlphanum, Bool.or_eq_true, beq_iff_eq] at h
  rcases h with (halpha | hdigit) | rfl
  · exact .inl (bounds_of_isAlpha halpha)
  · exact .inr (.inl (bounds_of_isDigit hdigit))
  · exact .inr (.inr rfl)

end Characters

end RouteLinks

namespace RouteLinks.Identifier

variable {s : String} {cs : List Char}

def IsWord (cs : List Char) : Prop :=
  ∃ c rest, cs = c :: rest ∧ isStart c = true ∧ rest.all isPart = true

theorem isPart_of_isStart {c : Char} (h : isStart c = true) : isPart c = true := by
  rw [isPart, Char.isAlphanum, Bool.or_right_comm, ← isStart, h, Bool.true_or]

theorem IsWord.all_isPart (h : IsWord cs) : cs.all isPart = true := by
  obtain ⟨c, rest, rfl, hc, hrest⟩ := h
  rw [List.all_cons, isPart_of_isStart hc, hrest]
  rfl

theorem isIdentifier_of_isWord (h : IsWord cs) (hs : s.toList = cs ∨ s.toList = '@' :: cs) :
    isIdentifier s = true := by
  obtain ⟨c, rest, rfl, hc, hrest⟩ := h
  have hunmarked : c ≠ '@' := by
    rintro rfl
    exact absurd hc (by decide)
  rcases hs with hs | hs
  · unfold isIdentifier
    rw [hs]
    split
    · next hmark => exact absurd (List.cons.inj hmark).1 hunmarked
    · simp [hc, hrest]
  · simp [isIdentifier, hs, hc, hrest]

/-- An identifier is a word with an optional mark. -/
theorem isIdentifier_iff :
    isIdentifier s = true ↔ ∃ cs, (s.toList = cs ∨ s.toList = '@' :: cs) ∧ IsWord cs := by
  refine ⟨fun h => ?_, fun ⟨cs, hs, hcs⟩ => isIdentifier_of_isWord hcs hs⟩
  unfold isIdentifier at h
  split at h
  · next rest hmark =>
    cases rest with
    | nil => cases h
    | cons c rest => exact ⟨c :: rest, .inr hmark, c, rest, rfl, Bool.and_eq_true_iff.mp h⟩
  · cases hs : s.toList with
    | nil =>
        rw [hs] at h
        cases h
    | cons c rest =>
        rw [hs] at h
        exact ⟨c :: rest, .inl rfl, c, rest, rfl, Bool.and_eq_true_iff.mp h⟩

/-! ### Identifiers that can be used -/

/-- An identifier that needs no mark, or has it. -/
structure IsUsable (s : String) : Prop where
  isIdentifier : isIdentifier s = true
  not_mem_reserved : s ∉ reserved

theorem not_mem_reserved_of_mem (h : '_' ∈ s.toList ∨ '@' ∈ s.toList) : s ∉ reserved := by
  have hplain : ∀ word ∈ reserved, '_' ∉ word.toList ∧ '@' ∉ word.toList := by decide
  intro hmem
  obtain ⟨hunderscore, hmark⟩ := hplain s hmem
  exact h.elim hunderscore hmark

theorem IsUsable.append_underscore (h : IsUsable s) : IsUsable (s ++ "_") := by
  constructor
  case isIdentifier =>
    obtain ⟨cs, hs, c, rest, rfl, hc, hrest⟩ := isIdentifier_iff.mp h.isIdentifier
    have hword : IsWord (c :: rest ++ ['_']) := ⟨c, rest ++ ['_'], rfl, hc, by simp [hrest]; rfl⟩
    refine isIdentifier_of_isWord hword ?_
    rw [String.toList_append]
    exact hs.imp (fun hs => by rw [hs]; rfl) (fun hs => by rw [hs]; rfl)
  case not_mem_reserved =>
    exact not_mem_reserved_of_mem (.inl (by simp))

/-- What is made of a name is a word, which is marked if it is reserved. -/
theorem exists_ofName_eq (name : String) :
    ∃ cs, IsWord cs ∧
      ofName name = if reserved.contains (String.ofList cs) then "@" ++ String.ofList cs
        else String.ofList cs := by
  have hparts : (name.toList.map fun c => if isPart c then c else '_').all isPart = true := by
    rw [List.all_map, List.all_eq_true]
    intro c _
    show isPart (if isPart c then c else '_') = true
    split
    · assumption
    · rfl
  refine ⟨_, ?_, rfl⟩
  cases hcs : name.toList.map fun c => if isPart c then c else '_' with
  | nil => exact ⟨'_', [], rfl, rfl, rfl⟩
  | cons c rest =>
      rw [hcs, List.all_cons, Bool.and_eq_true_iff] at hparts
      show IsWord (if c.isDigit then '_' :: c :: rest else c :: rest)
      split
      · exact ⟨'_', c :: rest, rfl, rfl, by rw [List.all_cons, hparts.1, hparts.2]; rfl⟩
      · next hdigit =>
        refine ⟨c, rest, rfl, ?_, hparts.2⟩
        have hpart := hparts.1
        rw [isPart, Char.isAlphanum, eq_false_of_ne_true hdigit, Bool.or_false] at hpart
        exact hpart

theorem isUsable_ofName (name : String) : IsUsable (ofName name) := by
  obtain ⟨cs, hword, hname⟩ := exists_ofName_eq name
  rw [hname]
  split
  · exact ⟨isIdentifier_of_isWord hword (.inr (by simp)), not_mem_reserved_of_mem (.inr (by simp))⟩
  · next hreserved =>
    exact ⟨isIdentifier_of_isWord hword (.inl String.toList_ofList), by simpa using hreserved⟩

end RouteLinks.Identifier
