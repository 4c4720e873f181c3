import Mathlib.Data.List.Nodup
import RouteLinks.Proofs.Order
import RouteLinks.Routes.Numbering
/-!
# Numbered names are different

What the rest relies on is that a list of names comes out of `assignAll` without repetition,
whatever the names and counters are. Everything goes back to the search: numbers in between are
taken, and the number that is found is free, because the search may look at one name more than
there are taken ones.

The counters are a shortcut. Each name is what a search from one gives, and that is the least number
which makes a free name.
-/

namespace RouteLinks.Numbering

theorem numbered_inj (name : String) {i j : Nat} (h : numbered name i = numbered name j) :
    i = j := by
  have hdigits : i.repr.toList = j.repr.toList :=
    congrArg String.toList ((String.append_right_inj name).mp h)
  rw [Nat.toList_repr, Nat.toList_repr] at hdigits
  rw [← Nat.ofDigitChars_ten_toDigits (n := i), hdigits, Nat.ofDigitChars_ten_toDigits]

/-- The search goes upwards and passes over taken names only. -/
theorem freeIndex_passes (used : List String) (name : String) (index fuel : Nat) :
    index < freeIndex used name index fuel ∧
      ∀ j, index < j → j < freeIndex used name index fuel → numbered name j ∈ used := by
  induction fuel generalizing index with
  | zero =>
      refine ⟨by simp [freeIndex], ?_⟩
      intro j hlow hhigh
      simp only [freeIndex] at hhigh
      omega
  | succ fuel ih =>
      rw [freeIndex]
      split
      · next htaken =>
        obtain ⟨hlt, hpassed⟩ := ih (index + 1)
        refine ⟨by omega, ?_⟩
        intro j hlow hhigh
        rcases Nat.eq_or_lt_of_le (Nat.succ_le_of_lt hlow) with hfirst | hlater
        · rw [← hfirst]
          simpa using htaken
        · exact hpassed j hlater hhigh
      · exact ⟨by omega, fun j hlow hhigh => by omega⟩

/-- The search ends early only at a free name. -/
theorem freeIndex_free_or_exhausted (used : List String) (name : String) (index fuel : Nat) :
    numbered name (freeIndex used name index fuel) ∉ used ∨
      freeIndex used name index fuel = index + fuel + 1 := by
  induction fuel generalizing index with
  | zero => exact Or.inr rfl
  | succ fuel ih =>
      rw [freeIndex]
      split
      · rcases ih (index + 1) with hfree | hend
        · exact Or.inl hfree
        · exact Or.inr (by omega)
      · next hfree => exact Or.inl (by simpa using hfree)

theorem numbered_nodup (name : String) (indices : List Nat) (h : indices.Nodup) :
    (indices.map (numbered name)).Nodup :=
  h.map fun _ _ heq => numbered_inj name heq

/-- Of one name more than there are taken ones, one is free. -/
theorem numbered_freeIndex_not_mem (used : List String) (name : String) (index : Nat) :
    numbered name (freeIndex used name index used.length) ∉ used := by
  rcases freeIndex_free_or_exhausted used name index used.length with hfree | hend
  · exact hfree
  · intro hmem
    have hnodup := numbered_nodup name (List.range' (index + 1) (used.length + 1)) List.nodup_range'
    have hsubset : (List.range' (index + 1) (used.length + 1)).map (numbered name) ⊆ used := by
      intro candidate hcandidate
      obtain ⟨j, hj, rfl⟩ := List.mem_map.mp hcandidate
      rw [List.mem_range'_1] at hj
      rcases Nat.lt_or_ge j (freeIndex used name index used.length) with hlt | hge
      · exact (freeIndex_passes used name index used.length).2 j (by omega) hlt
      · rwa [show j = freeIndex used name index used.length by omega]
    have hlength := hnodup.length_le_of_subset hsubset
    simp only [List.length_map, List.length_range'] at hlength
    omega

theorem assign_not_mem (used : List String) (name : String) (index : Nat) :
    (assign used name index).1 ∉ used := by
  unfold assign
  split
  · exact numbered_freeIndex_not_mem used name index
  · next hfree => simpa using hfree

/-- The name that is given where some names are taken: the name itself if it is free, and otherwise
the name with the least number that makes it free. -/
inductive Given (taken : List String) (name : String) : String → Nat → Prop
  | asItIs (hfree : name ∉ taken) : Given taken name name 0
  | withNumber (index : Nat) (htaken : name ∈ taken) (hpos : 0 < index)
      (hfree : numbered name index ∉ taken)
      (hleast : ∀ k, 0 < k → k < index → numbered name k ∈ taken) :
      Given taken name (numbered name index) index

/-- All numbers of a name up to `count` are used up. -/
def Spent (taken : List String) (name : String) (count : Nat) : Prop :=
  ∀ k, 0 < k → k ≤ count → numbered name k ∈ taken

theorem spent_zero (taken : List String) (name : String) : Spent taken name 0 := by
  intro k hpos hle
  omega

theorem Spent.mono {taken more : List String} {name : String} {count : Nat}
    (h : Spent taken name count) (hsubset : taken ⊆ more) : Spent more name count :=
  fun k hpos hle => hsubset (h k hpos hle)

/-- A search that begins behind numbers that are used up finds what a search from one finds. -/
theorem given_assign_of_spent {used : List String} {name : String} {index : Nat}
    (h : Spent used name index) :
    Given used name (assign used name index).1 (assign used name index).2 := by
  unfold assign
  split
  · next htaken =>
    obtain ⟨hlt, hpassed⟩ := freeIndex_passes used name index used.length
    refine .withNumber _ (by simpa using htaken) (by omega)
      (numbered_freeIndex_not_mem used name index) ?_
    intro k hpos hk
    rcases Nat.lt_or_ge index k with hlater | hearlier
    · exact hpassed k hlater hk
    · exact h k hpos hearlier
  · next hfree => exact .asItIs (by simpa using hfree)

theorem given_assign (used : List String) (name : String) :
    Given used name (assign used name 0).1 (assign used name 0).2 :=
  given_assign_of_spent (spent_zero used name)

namespace Given

variable {taken others : List String} {name given : String} {index : Nat}

theorem congr (h : Given taken name given index) (hsame : ∀ x, x ∈ taken ↔ x ∈ others) :
    Given others name given index := by
  cases h with
  | asItIs hfree => exact .asItIs (mt (hsame _).mpr hfree)
  | withNumber index htaken hpos hfree hleast =>
      refine .withNumber index ((hsame _).mp htaken) hpos (mt (hsame _).mpr hfree) ?_
      intro k hk hlt
      exact (hsame _).mp (hleast k hk hlt)

theorem index_eq_zero_iff (h : Given taken name given index) : index = 0 ↔ given = name := by
  cases h with
  | asItIs => simp
  | withNumber index htaken hpos hfree _ =>
      have hother : numbered name index ≠ name := by
        intro hsame
        rw [hsame] at hfree
        exact hfree htaken
      simp [hother, Nat.ne_of_gt hpos]

theorem eq_name_iff (h : Given taken name given index) : given = name ↔ name ∉ taken := by
  cases h with
  | asItIs hfree => simp [hfree]
  | withNumber index htaken hpos hfree _ =>
      simp only [htaken, not_true, iff_false]
      intro hsame
      rw [hsame] at hfree
      exact hfree htaken

/-- A number that is free and has only taken ones below it is the least of its kind. -/
theorem unique {other : String} {position : Nat} (h : Given taken name given index)
    (h' : Given taken name other position) : given = other ∧ index = position := by
  cases h with
  | asItIs hfree =>
      cases h' with
      | asItIs => exact ⟨rfl, rfl⟩
      | withNumber _ htaken => exact absurd htaken hfree
  | withNumber index htaken hpos hfree hleast =>
      cases h' with
      | asItIs hfree' => exact absurd htaken hfree'
      | withNumber position _ hpos' hfree' hleast' =>
          rcases Nat.lt_trichotomy index position with hlt | rfl | hgt
          · exact absurd (hleast' index hpos hlt) hfree
          · exact ⟨rfl, rfl⟩
          · exact absurd (hleast position hpos' hgt) hfree'

/-- With the name that is given, all numbers up to its own are used up. -/
theorem spent (h : Given taken name given index) : Spent (given :: taken) name index := by
  intro k hpos hle
  cases h with
  | asItIs => omega
  | withNumber index _ _ _ hleast =>
      rcases Nat.eq_or_lt_of_le hle with rfl | hlt
      · exact List.mem_cons_self
      · exact List.mem_cons_of_mem _ (hleast k hpos hlt)

theorem mem_cons (h : Given taken name given index) : name ∈ given :: taken := by
  cases h with
  | asItIs => exact List.mem_cons_self
  | withNumber _ htaken => exact List.mem_cons_of_mem _ htaken

theorem lt_of_spent {count : Nat} (h : Given taken name given index) (htaken : name ∈ taken)
    (hspent : Spent taken name count) : count < index := by
  cases h with
  | asItIs hfree => exact absurd htaken hfree
  | withNumber index _ hpos hfree _ =>
      by_contra hle
      exact hfree (hspent index hpos (Nat.le_of_not_lt hle))

end Given

theorem length_assignAll (used : List String) (counters : List (String × Nat))
    (names : List String) : (assignAll used counters names).length = names.length := by
  induction names generalizing used counters with
  | nil => rfl
  | cons name rest ih => simp only [assignAll, List.length_cons, ih]

theorem assignAll_fresh (used : List String) (counters : List (String × Nat))
    (names : List String) :
    ((assignAll used counters names).map Prod.fst).Nodup ∧
      ∀ given ∈ assignAll used counters names, given.1 ∉ used := by
  induction names generalizing used counters with
  | nil => simp [assignAll]
  | cons name rest ih =>
      simp only [assignAll, List.map_cons, List.nodup_cons, List.mem_map, List.mem_cons,
        forall_eq_or_imp]
      refine ⟨⟨?_, (ih _ _).1⟩, assign_not_mem _ _ _, ?_⟩
      · rintro ⟨given, hgiven, heq⟩
        exact (ih _ _).2 given hgiven (heq ▸ List.mem_cons_self)
      · intro given hgiven htaken
        exact (ih _ _).2 given hgiven (List.mem_cons_of_mem _ htaken)

/-! ### Counters -/

def assignEach (used : List String) : List String → List (String × Nat)
  | [] => []
  | name :: rest => assign used name 0 :: assignEach ((assign used name 0).1 :: used) rest

theorem length_assignEach (used names : List String) :
    (assignEach used names).length = names.length := by
  induction names generalizing used with
  | nil => rfl
  | cons name rest ih => rw [assignEach, List.length_cons, ih, List.length_cons]

/-- Counters only save searching where all numbers that they pass over are used up. Names are taken
for good, so this stays true of every counter, whatever the names in between are. -/
theorem assignAll_eq_assignEach {used : List String} {counters : List (String × Nat)}
    (hspent : ∀ name, Spent used name ((counters.lookup name).getD 0)) (names : List String) :
    assignAll used counters names = assignEach used names := by
  induction names generalizing used counters with
  | nil => rfl
  | cons name rest ih =>
      have hgiven := given_assign_of_spent (hspent name)
      have hfirst : assign used name ((counters.lookup name).getD 0) = assign used name 0 :=
        Prod.ext_iff.mpr (hgiven.unique (given_assign used name))
      rw [assignAll, assignEach, hfirst]
      rw [hfirst] at hgiven
      refine congrArg _ (ih fun other => ?_)
      have hbefore := (hspent other).mono (List.subset_cons_self (assign used name 0).1 used)
      split
      · exact hbefore
      · rw [lookup_upsert]
        split
        · next hother => exact hother ▸ hgiven.spent
        · exact hbefore

theorem assignAll_nil (used names : List String) :
    assignAll used [] names = assignEach used names :=
  assignAll_eq_assignEach (fun name => spent_zero used name) names

/-- Every name is given where those before it are taken. -/
theorem given_assignEach {used names : List String} {before after : List (String × String × Nat)}
    {name given : String} {index : Nat}
    (h : names.zip (assignEach used names) = before ++ (name, given, index) :: after) :
    Given (before.map (·.2.1) ++ used) name given index := by
  induction names generalizing used before with
  | nil => simp at h
  | cons first rest ih =>
      rw [assignEach, List.zip_cons_cons] at h
      cases before with
      | nil =>
          obtain ⟨heq, _⟩ := List.cons.inj h
          obtain ⟨rfl, hassigned⟩ := Prod.mk.inj heq
          have hgiven := given_assign used first
          rwa [hassigned] at hgiven
      | cons entry before =>
          obtain ⟨rfl, hrest⟩ := List.cons.inj h
          refine (ih hrest).congr ?_
          intro x
          simp only [List.map_cons, List.cons_append, List.mem_append, List.mem_cons]
          tauto

theorem pairwise_index_assignEach (used names : List String) :
    (names.zip (assignEach used names)).Pairwise fun p q => p.1 = q.1 → p.2.2 < q.2.2 := by
  induction names generalizing used with
  | nil => exact .nil
  | cons name rest ih =>
      rw [assignEach, List.zip_cons_cons, List.pairwise_cons]
      refine ⟨?_, ih _⟩
      rintro ⟨other, given, index⟩ hlater rfl
      obtain ⟨before, after, hsplit⟩ := List.append_of_mem hlater
      have hfirst := given_assign used name
      have hgiven := given_assignEach hsplit
      have hsubset := List.subset_append_right (before.map (·.2.1)) ((assign used name 0).1 :: used)
      exact hgiven.lt_of_spent (hsubset hfirst.mem_cons) (hfirst.spent.mono hsubset)

end RouteLinks.Numbering
