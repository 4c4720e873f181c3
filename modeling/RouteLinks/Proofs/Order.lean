import Mathlib.Data.List.Forall2
import Mathlib.Data.List.Induction
import Mathlib.Data.String.Basic
import RouteLinks.Order
/-!
# Lists in step

Two lists are in step if they are related member by member. What is made of them in order is in step
again, or is the same where related members give the same.
-/

namespace RouteLinks

variable {α β : Type} {related : α → α → Prop} {xs ys : List α}

theorem map_eq_of_forall₂ {γ : Type} {related : α → γ → Prop} {xs : List α} {ys : List γ}
    {f : α → β} {g : γ → β} (h : List.Forall₂ related xs ys)
    (hf : ∀ x y, related x y → g y = f x) : ys.map g = xs.map f := by
  induction h with
  | nil => rfl
  | cons hfirst _ ih => rw [List.map_cons, List.map_cons, hf _ _ hfirst, ih]

theorem map_eq_iff_of_forall₂ {f g : α → β} {p : α → Prop} (h : List.Forall₂ related xs ys)
    (hf : ∀ x y, related x y → (g y = f x ↔ p x)) : ys.map g = xs.map f ↔ ∀ x ∈ xs, p x := by
  induction h with
  | nil => simp
  | cons hfirst _ ih =>
      rw [List.map_cons, List.map_cons, List.cons_eq_cons, hf _ _ hfirst, ih, List.forall_mem_cons]

theorem filterMap_eq_of_forall₂ {f g : α → Option β} (h : List.Forall₂ related xs ys)
    (hf : ∀ x y, related x y → g y = f x) : ys.filterMap g = xs.filterMap f := by
  induction h with
  | nil => rfl
  | cons hfirst _ ih => rw [List.filterMap_cons, List.filterMap_cons, hf _ _ hfirst, ih]

theorem flatMap_eq_of_forall₂ {γ : Type} {related : α → γ → Prop} {xs : List α} {ys : List γ}
    {f : α → List β} {g : γ → List β} (h : List.Forall₂ related xs ys)
    (hf : ∀ x y, related x y → g y = f x) : ys.flatMap g = xs.flatMap f := by
  induction h with
  | nil => rfl
  | cons hfirst _ ih => rw [List.flatMap_cons, List.flatMap_cons, hf _ _ hfirst, ih]

theorem any_eq_of_forall₂ {f g : α → Bool} (h : List.Forall₂ related xs ys)
    (hf : ∀ x y, related x y → g y = f x) : ys.any g = xs.any f := by
  induction h with
  | nil => rfl
  | cons hfirst _ ih => rw [List.any_cons, List.any_cons, hf _ _ hfirst, ih]

section Selection

variable {γ : Type} {related : α → γ → Prop} {xs : List α} {ys : List γ} {f : α → Bool}
  {g : γ → Bool}

theorem rel_find? (h : List.Forall₂ related xs ys) (hf : ∀ x y, related x y → g y = f x) :
    Option.Rel related (xs.find? f) (ys.find? g) := by
  induction h with
  | nil => exact .none
  | cons hfirst _ ih =>
      rw [List.find?_cons, List.find?_cons, hf _ _ hfirst]
      split
      · exact .some hfirst
      · exact ih

theorem rel_findSome? {δ ε : Type} {kept : δ → ε → Prop} {f : α → Option δ} {g : γ → Option ε}
    (h : List.Forall₂ related xs ys) (hf : ∀ x y, related x y → Option.Rel kept (f x) (g y)) :
    Option.Rel kept (xs.findSome? f) (ys.findSome? g) := by
  induction h with
  | nil => exact .none
  | @cons x y _ _ hfirst _ ih =>
      have hfound := hf _ _ hfirst
      rw [List.findSome?_cons, List.findSome?_cons]
      generalize f x = found, g y = found' at hfound ⊢
      cases hfound with
      | none => exact ih
      | some hkept => exact .some hkept

theorem rel_head? (h : List.Forall₂ related xs ys) : Option.Rel related xs.head? ys.head? := by
  cases h with
  | nil => exact .none
  | cons hfirst _ => exact .some hfirst

theorem rel_getLast? (h : List.Forall₂ related xs ys) :
    Option.Rel related xs.getLast? ys.getLast? := by
  rw [← List.head?_reverse, ← List.head?_reverse]
  exact rel_head? (List.rel_reverse h)

theorem rel_takeWhile (h : List.Forall₂ related xs ys) (hf : ∀ x y, related x y → g y = f x) :
    List.Forall₂ related (xs.takeWhile f) (ys.takeWhile g) := by
  induction h with
  | nil => exact .nil
  | cons hfirst _ ih =>
      rw [List.takeWhile_cons, List.takeWhile_cons, hf _ _ hfirst]
      split
      · exact .cons hfirst ih
      · exact .nil

theorem forall₂_append_iff {others : List α} {others' : List γ} (h : xs.length = ys.length) :
    List.Forall₂ related (xs ++ others) (ys ++ others') ↔
      List.Forall₂ related xs ys ∧ List.Forall₂ related others others' := by
  induction xs generalizing ys with
  | nil =>
      obtain rfl := List.eq_nil_of_length_eq_zero h.symm
      simp
  | cons x rest ih =>
      obtain ⟨y, rest', rfl⟩ := List.exists_cons_of_length_eq_add_one h.symm
      rw [List.cons_append, List.cons_append, List.forall₂_cons, List.forall₂_cons,
        ih (Nat.succ.inj h), and_assoc]

/-- What is selected from two lists in step is in step if and only if the first has a property. -/
theorem forall₂_filterMap_iff {δ : Type} {kept : β → δ → Prop} {f : α → Option β}
    {g : γ → Option δ} {p : α → Prop} (h : List.Forall₂ related xs ys)
    (hf : ∀ x ∈ xs, ∀ y, related x y → ∃ u v, f x = some u ∧ g y = some v ∧ (kept u v ↔ p x)) :
    List.Forall₂ kept (xs.filterMap f) (ys.filterMap g) ↔ ∀ x ∈ xs, p x := by
  induction h with
  | nil => simp
  | cons hfirst _ ih =>
      obtain ⟨hx, hrest⟩ := List.forall_mem_cons.mp hf
      obtain ⟨u, v, hu, hv, hkept⟩ := hx _ hfirst
      rw [List.filterMap_cons_some hu, List.filterMap_cons_some hv, List.forall₂_cons, hkept,
        ih hrest, List.forall_mem_cons]

end Selection

theorem map_eq_of_rel {f g : α → β} {x y : Option α} (h : Option.Rel related x y)
    (hf : ∀ x y, related x y → g y = f x) : y.map g = x.map f := by
  cases h with
  | none => rfl
  | some hrelated => rw [Option.map_some, Option.map_some, hf _ _ hrelated]

theorem mapM_eq_some_iff {α β : Type} {f : α → Option β} {xs : List α} {ys : List β} :
    xs.mapM f = some ys ↔ xs.map f = ys.map some := by
  induction xs generalizing ys with
  | nil => cases ys <;> simp
  | cons x rest ih =>
      rw [List.mapM_cons, List.map_cons]
      cases hx : f x with
      | none => cases ys <;> simp
      | some y =>
          cases ys with
          | nil => simp [Option.bind_eq_some_iff]
          | cons first others => simp [← ih, Option.bind_eq_some_iff, and_comm]

theorem exists_of_mem_mapM {ε α β : Type} {f : α → Except ε β} {xs : List α} {ys : List β}
    (h : xs.mapM f = .ok ys) {y : β} (hy : y ∈ ys) : ∃ x ∈ xs, f x = .ok y := by
  induction xs generalizing ys with
  | nil =>
      cases h
      cases hy
  | cons x rest ih =>
      rw [List.mapM_cons] at h
      cases hx : f x with
      | error e => rw [hx] at h; cases h
      | ok first =>
          cases hrest : rest.mapM f with
          | error e => rw [hx, hrest] at h; cases h
          | ok others =>
              rw [hx, hrest] at h
              cases h
              rcases List.mem_cons.mp hy with rfl | hy
              · exact ⟨x, List.mem_cons_self, hx⟩
              · obtain ⟨z, hz, hfz⟩ := ih hrest hy
                exact ⟨z, List.mem_cons_of_mem x hz, hfz⟩

theorem exists_left_of_forall₂ (h : List.Forall₂ related xs ys) {y : α} (hy : y ∈ ys) :
    ∃ x ∈ xs, related x y := by
  induction h with
  | nil => cases hy
  | cons hfirst _ ih =>
      rcases List.mem_cons.mp hy with rfl | hrest
      · exact ⟨_, List.mem_cons_self, hfirst⟩
      · obtain ⟨x, hx, hrelated⟩ := ih hrest
        exact ⟨x, List.mem_cons_of_mem _ hx, hrelated⟩

theorem find?_eq_of_nodup {key : α → String} (hnodup : (xs.map key).Nodup) {x : α} (hx : x ∈ xs) :
    xs.find? (key · == key x) = some x := by
  induction xs with
  | nil => cases hx
  | cons first rest ih =>
      rw [List.map_cons, List.nodup_cons] at hnodup
      rcases List.mem_cons.mp hx with rfl | hrest
      · simp
      · have hother : key first ≠ key x := fun h => hnodup.1 (h ▸ List.mem_map_of_mem hrest)
        rw [List.find?_cons_of_neg (by simpa using hother)]
        exact ih hnodup.2 hrest

/-! ### Sorting -/

theorem forall₂_insertBy {before : α → α → Bool} {x y : α} (hfirst : related x y)
    (hbefore : ∀ x x' y y', related x x' → related y y' → before x' y' = before x y)
    (h : List.Forall₂ related xs ys) :
    List.Forall₂ related (insertBy before x xs) (insertBy before y ys) := by
  induction h with
  | nil => exact .cons hfirst .nil
  | cons hnext hrest ih =>
      rw [insertBy, insertBy, hbefore _ _ _ _ hfirst hnext]
      split
      · exact .cons hfirst (.cons hnext hrest)
      · exact .cons hnext ih

theorem forall₂_sortBy {before : α → α → Bool}
    (hbefore : ∀ x x' y y', related x x' → related y y' → before x' y' = before x y)
    (h : List.Forall₂ related xs ys) :
    List.Forall₂ related (sortBy before xs) (sortBy before ys) := by
  refine List.rel_foldl ?_ .nil h
  intro sorted sorted' hsorted x y hrelated
  exact forall₂_insertBy hrelated hbefore hsorted

theorem sortBy_append_singleton (before : α → α → Bool) (xs : List α) (x : α) :
    sortBy before (xs ++ [x]) = insertBy before x (sortBy before xs) := by
  rw [sortBy, List.foldl_append]
  rfl

theorem insertBy_perm (before : α → α → Bool) (x : α) (ys : List α) :
    (insertBy before x ys).Perm (x :: ys) := by
  induction ys with
  | nil => exact .refl _
  | cons y rest ih =>
      rw [insertBy]
      split
      · exact .refl _
      · exact (ih.cons y).trans (.swap x y rest)

theorem sortBy_perm (before : α → α → Bool) (xs : List α) : (sortBy before xs).Perm xs := by
  induction xs using List.reverseRecOn with
  | nil => exact .refl _
  | append_singleton xs x ih =>
      rw [sortBy_append_singleton]
      exact (insertBy_perm before x _).trans
        ((ih.cons x).trans (List.perm_append_singleton x xs).symm)

theorem insertBy_map {before : β → β → Bool} {f : α → β} (x : α) (ys : List α) :
    insertBy before (f x) (ys.map f) = (insertBy (fun a b => before (f a) (f b)) x ys).map f := by
  induction ys with
  | nil => rfl
  | cons y rest ih =>
      rw [List.map_cons, insertBy, insertBy, ih]
      split <;> rfl

theorem sortBy_map {before : β → β → Bool} {f : α → β} (xs : List α) :
    sortBy before (xs.map f) = (sortBy (fun a b => before (f a) (f b)) xs).map f := by
  induction xs using List.reverseRecOn with
  | nil => rfl
  | append_singleton xs x ih =>
      rw [List.map_append, List.map_singleton, sortBy_append_singleton, sortBy_append_singleton, ih,
        insertBy_map]

theorem flatMap_insertBy_of_eq_nil {before : α → α → Bool} {f : α → List β} {x : α} (hx : f x = [])
    (ys : List α) : (insertBy before x ys).flatMap f = ys.flatMap f := by
  induction ys with
  | nil => simp [insertBy, hx]
  | cons y rest ih =>
      rw [insertBy]
      split
      · simp [hx]
      · rw [List.flatMap_cons, List.flatMap_cons, ih]

/-- An order in which members that neither precede the other are of one rank. -/
structure IsRanking (before : α → α → Bool) : Prop where
  asymm : ∀ a b, before a b = true → before b a = false
  trans : ∀ a b c, before a b = false → before b c = false → before a c = false

theorem pairwise_insertBy_of_isRanking {before : α → α → Bool} (hbefore : IsRanking before) {x : α}
    {ys : List α} (h : ys.Pairwise fun a b => before b a = false) :
    (insertBy before x ys).Pairwise fun a b => before b a = false := by
  induction ys with
  | nil => exact List.pairwise_singleton _ _
  | cons y rest ih =>
      obtain ⟨hfirst, hrest⟩ := List.pairwise_cons.mp h
      rw [insertBy]
      split
      · next hlt =>
        have hnot := hbefore.asymm x y hlt
        refine List.pairwise_cons.mpr ⟨List.forall_mem_cons.mpr ⟨hnot, fun z hz => ?_⟩, h⟩
        exact hbefore.trans z y x (hfirst z hz) hnot
      · next hlt =>
        refine List.pairwise_cons.mpr ⟨fun z hz => ?_, ih hrest⟩
        rcases List.mem_cons.mp ((insertBy_perm _ x rest).mem_iff.mp hz) with rfl | hz
        · exact Bool.eq_false_iff.mpr hlt
        · exact hfirst z hz

theorem pairwise_sortBy_of_isRanking {before : α → α → Bool} (hbefore : IsRanking before)
    (xs : List α) : (sortBy before xs).Pairwise fun a b => before b a = false := by
  induction xs using List.reverseRecOn with
  | nil => exact .nil
  | append_singleton xs x ih =>
      rw [sortBy_append_singleton]
      exact pairwise_insertBy_of_isRanking hbefore ih

theorem filter_insertBy_of_neg {before : α → α → Bool} {p : α → Bool} {x : α}
    (hx : ¬p x = true) (ys : List α) : (insertBy before x ys).filter p = ys.filter p := by
  induction ys with
  | nil => exact List.filter_cons_of_neg hx
  | cons y rest ih =>
      rw [insertBy]
      split
      · exact List.filter_cons_of_neg hx
      · rw [List.filter_cons, List.filter_cons, ih]

theorem filter_insertBy {before : α → α → Bool} (hbefore : IsRanking before) {p : α → Bool}
    (hp : ∀ a b, p a = true → p b = true → before a b = false) {x : α} {ys : List α}
    (h : ys.Pairwise fun a b => before b a = false) :
    (insertBy before x ys).filter p = ys.filter p ++ [x].filter p := by
  by_cases hx : p x = true
  · induction ys with
    | nil => rfl
    | cons y rest ih =>
        obtain ⟨hfirst, hrest⟩ := List.pairwise_cons.mp h
        rw [insertBy]
        split
        · next hlt =>
          -- Behind a member that `x` precedes there is none of the rank of `x`.
          have hnone : (y :: rest).filter p = [] := by
            rw [List.filter_eq_nil_iff]
            intro z hz hz'
            have htie := hp x z hx hz'
            rcases List.mem_cons.mp hz with rfl | hz
            · rw [hlt] at htie
              cases htie
            · have hle := hbefore.trans x z y htie (hfirst z hz)
              rw [hlt] at hle
              cases hle
          rw [List.filter_cons_of_pos hx, hnone, List.filter_cons_of_pos hx]
          rfl
        · rw [List.filter_cons, List.filter_cons, ih hrest]
          split <;> rfl
  · rw [List.filter_cons_of_neg hx, List.filter_nil, List.append_nil]
    exact filter_insertBy_of_neg hx ys

theorem filter_sortBy {before : α → α → Bool} (hbefore : IsRanking before) {p : α → Bool}
    (hp : ∀ a b, p a = true → p b = true → before a b = false) (xs : List α) :
    (sortBy before xs).filter p = xs.filter p := by
  induction xs using List.reverseRecOn with
  | nil => rfl
  | append_singleton xs x ih =>
      rw [sortBy_append_singleton,
        filter_insertBy hbefore hp (pairwise_sortBy_of_isRanking hbefore xs), ih,
        List.filter_append]

theorem isRanking_precedes (key : α → String) :
    IsRanking fun a b => precedes (key a) (key b) := by
  constructor
  · intro a b h
    have hlt : key a < key b := of_decide_eq_true h
    exact decide_eq_false (lt_asymm hlt)
  · intro a b c hab hbc
    have hba : key b ≤ key a := not_lt.mp (of_decide_eq_false hab)
    have hcb : key c ≤ key b := not_lt.mp (of_decide_eq_false hbc)
    exact decide_eq_false (not_lt.mpr (hcb.trans hba))

theorem pairwise_sortBy {key : α → String} {xs : List α} (h : (xs.map key).Nodup) :
    (sortBy (fun a b => precedes (key a) (key b)) xs).Pairwise fun a b => key a < key b := by
  have hnodup := (((sortBy_perm (fun a b => precedes (key a) (key b)) xs).map key).nodup_iff).mpr h
  have hsorted := pairwise_sortBy_of_isRanking (isRanking_precedes key) xs
  refine (hsorted.and (List.pairwise_map.mp hnodup)).imp ?_
  rintro a b ⟨hle, hother⟩
  exact lt_of_le_of_ne (not_lt.mp (of_decide_eq_false hle)) hother

/-- Sorting by different keys leaves nothing of the order in which the members were given. -/
theorem sortBy_eq_of_perm {key : α → String} {xs ys : List α} (h : xs.Perm ys)
    (hnodup : (xs.map key).Nodup) :
    sortBy (fun a b => precedes (key a) (key b)) xs =
      sortBy (fun a b => precedes (key a) (key b)) ys := by
  have hnodup' : (ys.map key).Nodup := (h.map key).nodup_iff.mp hnodup
  refine List.Perm.eq_of_pairwise (fun a b _ _ hab hba => ?_) (pairwise_sortBy hnodup)
    (pairwise_sortBy hnodup') ((sortBy_perm _ xs).trans (h.trans (sortBy_perm _ ys).symm))
  exact absurd hab (lt_asymm hba)

/-! ### Entries under keys -/

theorem lookup_cons_eq {α : Type} (key other : String) (x : α) (rest : List (String × α)) :
    ((key, x) :: rest).lookup other = if other = key then some x else rest.lookup other := by
  by_cases h : other = key
  · simp [h]
  · rw [List.lookup_cons, beq_false_of_ne h, if_neg h]

theorem lookup_isSome_iff {β : Type} {entries : List (String × β)} {name : String} :
    (entries.lookup name).isSome = true ↔ name ∈ entries.map Prod.fst := by
  induction entries with
  | nil => simp
  | cons first rest ih =>
      rw [List.lookup_cons, List.map_cons, List.mem_cons]
      cases hname : name == first.1 with
      | true => simp [beq_iff_eq.mp hname]
      | false => simp [ih, beq_eq_false_iff_ne.mp hname]

theorem lookup_eq_some_iff_of_nodup {α : Type} {entries : List (String × α)}
    (hnodup : (entries.map Prod.fst).Nodup) {key : String} {x : α} :
    entries.lookup key = some x ↔ (key, x) ∈ entries := by
  induction entries with
  | nil => simp
  | cons entry rest ih =>
      obtain ⟨k, y⟩ := entry
      rw [List.map_cons, List.nodup_cons] at hnodup
      rw [lookup_cons_eq, List.mem_cons]
      by_cases hkey : key = k
      · subst hkey
        have hlater : (key, x) ∉ rest := fun hmem =>
          hnodup.1 (List.mem_map.mpr ⟨_, hmem, rfl⟩)
        simp [hlater, eq_comm]
      · simp [hkey, ih hnodup.2]

theorem eq_of_mem_of_nodup {α : Type} {entries : List (String × α)}
    (hnodup : (entries.map Prod.fst).Nodup) {key : String} {x y : α} (hx : (key, x) ∈ entries)
    (hy : (key, y) ∈ entries) : x = y := by
  have hlookup := (lookup_eq_some_iff_of_nodup hnodup).mpr hx
  rw [(lookup_eq_some_iff_of_nodup hnodup).mpr hy] at hlookup
  exact (Option.some.inj hlookup).symm

theorem lookup_map_of_mem {α β : Type} (name : α → String) {entries : List (α × β)}
    (hnodup : (entries.map fun e => name e.1).Nodup) {entry : α × β} (h : entry ∈ entries) :
    (entries.map fun e => (name e.1, e.2)).lookup (name entry.1) = some entry.2 := by
  rw [lookup_eq_some_iff_of_nodup (by rwa [List.map_map])]
  exact List.mem_map_of_mem (f := fun e => (name e.1, e.2)) h

theorem lookup_upsert {α : Type} (key other : String) (change : Option α → α)
    (entries : List (String × α)) :
    (upsert key change entries).lookup other =
      if other = key then some (change (entries.lookup key)) else entries.lookup other := by
  induction entries with
  | nil => rw [upsert, lookup_cons_eq, List.lookup_nil, List.lookup_nil]
  | cons entry rest ih =>
      obtain ⟨k, x⟩ := entry
      rw [upsert]
      by_cases hfirst : k = key
      · subst hfirst
        by_cases h : other = k <;> simp [lookup_cons_eq, h]
      · simp only [beq_iff_eq, hfirst, if_false, lookup_cons_eq, ih, Ne.symm hfirst]
        by_cases h : other = key
        · simp [h, Ne.symm hfirst]
        · simp [h]

theorem upsert_of_lookup_eq_none {change : Option α → α} {key : String}
    {entries : List (String × α)} (h : entries.lookup key = none) :
    upsert key change entries = entries ++ [(key, change none)] := by
  induction entries with
  | nil => rfl
  | cons entry rest ih =>
      obtain ⟨k, x⟩ := entry
      rw [List.lookup_cons] at h
      by_cases hfirst : k = key
      · simp [hfirst] at h
      · rw [beq_false_of_ne (Ne.symm hfirst)] at h
        rw [upsert, beq_false_of_ne hfirst, if_neg Bool.false_ne_true, ih h, List.cons_append]

theorem forall₂_upsert {change : Option α → α} {related : String × α → String × α → Prop}
    (hrefl : ∀ entry, related entry entry) {key : String} {x : α}
    (hchange : related (key, x) (key, change (some x))) {entries : List (String × α)}
    (h : entries.lookup key = some x) :
    List.Forall₂ related entries (upsert key change entries) := by
  induction entries with
  | nil => cases h
  | cons entry rest ih =>
      obtain ⟨k, y⟩ := entry
      have hsame : ∀ others : List (String × α), List.Forall₂ related others others :=
        fun others => List.forall₂_same.mpr fun entry _ => hrefl entry
      rw [List.lookup_cons] at h
      by_cases hfirst : k = key
      · subst hfirst
        rw [beq_self_eq_true] at h
        cases h
        rw [upsert, beq_self_eq_true, if_pos rfl]
        exact .cons hchange (hsame rest)
      · rw [beq_false_of_ne (Ne.symm hfirst)] at h
        rw [upsert, beq_false_of_ne hfirst, if_neg Bool.false_ne_true]
        exact .cons (hrefl _) (ih h)

/-! ### Groups -/

/-- Two groups of one key whose members are in step. -/
def GroupsInStep {κ : Type} (related : α → α → Prop) (g h : κ × List α) : Prop :=
  h.1 = g.1 ∧ List.Forall₂ related g.2 h.2

theorem forall₂_addToGroup {κ : Type} [BEq κ] {key : κ} {x y : α} (hrelated : related x y)
    {groups others : List (κ × List α)} (h : List.Forall₂ (GroupsInStep related) groups others) :
    List.Forall₂ (GroupsInStep related) (addToGroup key x groups) (addToGroup key y others) := by
  induction h with
  | nil => exact .cons ⟨rfl, .cons hrelated .nil⟩ .nil
  | @cons g g' rest rest' hfirst hrest ih =>
      obtain ⟨k, members⟩ := g
      obtain ⟨_, members'⟩ := g'
      obtain ⟨rfl, hmembers⟩ := hfirst
      rw [addToGroup, addToGroup]
      split
      · exact .cons ⟨rfl, List.rel_append hmembers (.cons hrelated .nil)⟩ hrest
      · exact .cons ⟨rfl, hmembers⟩ ih

theorem forall₂_groupBy {κ : Type} [BEq κ] (key : α → κ) (h : List.Forall₂ related xs ys)
    (hkey : ∀ x y, related x y → key y = key x) :
    List.Forall₂ (GroupsInStep related) (groupBy key xs) (groupBy key ys) := by
  refine List.rel_foldl ?_ .nil h
  intro groups others hgroups x y hrelated
  show List.Forall₂ (GroupsInStep related) (addToGroup (key x) x groups)
    (addToGroup (key y) y others)
  rw [hkey x y hrelated]
  exact forall₂_addToGroup hrelated hgroups

end RouteLinks
