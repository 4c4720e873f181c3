import Mathlib.Data.List.Induction
import Mathlib.Data.List.Nodup
import RouteLinks.Order
/-!
# Groups

Grouping takes the keys in the order in which they are first met and puts under each key its
members in their order. No member gets lost, so that whatever is made of groups one after the other
is made of the list itself, up to order.
-/

namespace RouteLinks

variable {α κ : Type} [BEq κ]

theorem firstMet_append_singleton (keys : List κ) (k : κ) :
    firstMet (keys ++ [k]) =
      if (firstMet keys).contains k then firstMet keys else firstMet keys ++ [k] := by
  rw [firstMet, mergeUnique, List.foldl_append]
  rfl

theorem addToGroup_perm (k : κ) (x : α) (groups : List (κ × List α)) :
    ((addToGroup k x groups).flatMap Prod.snd).Perm (groups.flatMap Prod.snd ++ [x]) := by
  induction groups with
  | nil => simp [addToGroup]
  | cons g rest ih =>
      rw [addToGroup]
      split
      · simp only [List.flatMap_cons, List.append_assoc]
        exact List.Perm.append_left _ List.perm_append_comm
      · simp only [List.flatMap_cons, List.append_assoc]
        exact List.Perm.append_left _ ih

theorem groupBy_append_singleton (key : α → κ) (xs : List α) (x : α) :
    groupBy key (xs ++ [x]) = addToGroup (key x) x (groupBy key xs) := by
  rw [groupBy, List.foldl_append]
  rfl

theorem flatMap_groupBy_perm (key : α → κ) (xs : List α) :
    ((groupBy key xs).flatMap Prod.snd).Perm xs := by
  induction xs using List.reverseRecOn with
  | nil => exact List.Perm.nil
  | append_singleton xs x ih =>
      rw [groupBy_append_singleton]
      exact (addToGroup_perm _ _ _).trans (ih.append_right [x])

variable [LawfulBEq κ]

theorem exists_added_mergeUnique (first second : List κ) :
    ∃ added, mergeUnique first second = first ++ added ∧ added.Nodup ∧ first.Disjoint added ∧
      ∀ k, k ∈ added ↔ k ∈ second ∧ k ∉ first := by
  induction second using List.reverseRecOn with
  | nil => exact ⟨[], (List.append_nil _).symm, List.nodup_nil, by simp, by simp⟩
  | append_singleton second last ih =>
      obtain ⟨added, hmerged, hnodup, hdisjoint, hadded⟩ := ih
      have hstep : mergeUnique first (second ++ [last]) =
          if (first ++ added).contains last then first ++ added
          else first ++ added ++ [last] := by
        rw [← hmerged, mergeUnique, List.foldl_append]
        rfl
      rw [hstep]
      by_cases hmet : last ∈ first ++ added
      · refine ⟨added, by simp [hmet], hnodup, hdisjoint, fun k => ?_⟩
        rw [hadded, List.mem_append, List.mem_singleton]
        constructor
        · exact fun h => ⟨.inl h.1, h.2⟩
        · rintro ⟨hk | rfl, hnew⟩
          · exact ⟨hk, hnew⟩
          · exact (hadded k).mp ((List.mem_append.mp hmet).resolve_left hnew)
      · obtain ⟨hfirst, hnew⟩ := not_or.mp (List.mem_append.not.mp hmet)
        refine ⟨added ++ [last], by simp [hmet], ?_, ?_, fun k => ?_⟩
        · exact List.nodup_append.mpr ⟨hnodup, List.nodup_singleton last, by
            rintro k hk _ hlast rfl
            exact hnew (List.mem_singleton.mp hlast ▸ hk)⟩
        · rw [List.disjoint_append_right, List.disjoint_singleton]
          exact ⟨hdisjoint, hfirst⟩
        · rw [List.mem_append, hadded, List.mem_append, List.mem_singleton]
          constructor
          · rintro (h | rfl)
            · exact ⟨.inl h.1, h.2⟩
            · exact ⟨.inr rfl, hfirst⟩
          · rintro ⟨hk | rfl, hnot⟩
            · exact .inl ⟨hk, hnot⟩
            · exact .inr rfl

theorem mem_mergeUnique {first second : List κ} {k : κ} :
    k ∈ mergeUnique first second ↔ k ∈ first ∨ k ∈ second := by
  obtain ⟨added, hmerged, _, _, hadded⟩ := exists_added_mergeUnique first second
  rw [hmerged, List.mem_append, hadded]
  tauto

theorem mergeUnique_map {ι : Type} [BEq ι] [LawfulBEq ι] {f : ι → κ} (hf : Function.Injective f)
    (first second : List ι) :
    mergeUnique (first.map f) (second.map f) = (mergeUnique first second).map f := by
  induction second generalizing first with
  | nil => rfl
  | cons x rest ih =>
      have hmet : (first.map f).contains (f x) = first.contains x := by
        rw [Bool.eq_iff_iff, List.contains_iff_mem, List.contains_iff_mem,
          List.mem_map_of_injective hf]
      have hadd : (if (first.map f).contains (f x) then first.map f else first.map f ++ [f x]) =
          (if first.contains x then first else first ++ [x]).map f := by
        rw [hmet]
        split
        · rfl
        · rw [List.map_append, List.map_singleton]
      rw [mergeUnique, mergeUnique, List.map_cons, List.foldl_cons, List.foldl_cons, hadd]
      exact ih _

@[simp] theorem mem_firstMet {keys : List κ} {k : κ} : k ∈ firstMet keys ↔ k ∈ keys := by
  rw [firstMet, mem_mergeUnique]
  simp

theorem nodup_firstMet (keys : List κ) : (firstMet keys).Nodup := by
  obtain ⟨added, hmerged, hnodup, _⟩ := exists_added_mergeUnique [] keys
  rw [firstMet, hmerged]
  exact hnodup

def groupsOf (key : α → κ) (keys : List κ) (xs : List α) : List (κ × List α) :=
  keys.map fun k => (k, xs.filter (key · == k))

variable {key : α → κ} {xs : List α}

theorem groupsOf_append_of_not_mem {keys : List κ} {x : α} (hx : key x ∉ keys) :
    groupsOf key keys (xs ++ [x]) = groupsOf key keys xs := by
  apply List.map_congr_left
  intro k hk
  have hother : key x ≠ k := fun h => hx (h ▸ hk)
  simp [hother]

theorem addToGroup_groupsOf {keys : List κ} (hnodup : keys.Nodup) (x : α) :
    addToGroup (key x) x (groupsOf key keys xs) =
      if key x ∈ keys then groupsOf key keys (xs ++ [x])
      else groupsOf key keys xs ++ [(key x, [x])] := by
  induction keys with
  | nil => simp [groupsOf, addToGroup]
  | cons k rest ih =>
      obtain ⟨hk, hrest⟩ := List.nodup_cons.mp hnodup
      have hcons : ∀ ys : List α, groupsOf key (k :: rest) ys =
          (k, ys.filter (key · == k)) :: groupsOf key rest ys := fun _ => rfl
      rw [hcons, hcons, addToGroup]
      by_cases hfirst : k = key x
      · have hlater : groupsOf key rest (xs ++ [x]) = groupsOf key rest xs :=
          groupsOf_append_of_not_mem (hfirst ▸ hk)
        simp [hfirst, hlater]
      · have hother : (key x == k) = false := by simpa using Ne.symm hfirst
        simp only [beq_iff_eq, hfirst, if_false, ih hrest, List.mem_cons, Ne.symm hfirst, false_or]
        split <;> simp [hother]

/-- Grouping gives the keys in the order in which they are first met, each with its members. -/
theorem groupBy_eq (key : α → κ) (xs : List α) :
    groupBy key xs = groupsOf key (firstMet (xs.map key)) xs := by
  induction xs using List.reverseRecOn with
  | nil => rfl
  | append_singleton xs x ih =>
      rw [groupBy_append_singleton, ih, addToGroup_groupsOf (nodup_firstMet _), List.map_append,
        List.map_singleton, firstMet_append_singleton, List.contains_eq_mem]
      by_cases hmet : key x ∈ firstMet (xs.map key)
      · simp only [hmet, if_true, decide_true]
      · have hnone : xs.filter (key · == key x) = [] := by
          rw [List.filter_eq_nil_iff]
          intro y hy hsame
          exact hmet (mem_firstMet.mpr (beq_iff_eq.mp hsame ▸ List.mem_map_of_mem hy))
        have hkeys : ∀ front : List κ, groupsOf key (front ++ [key x]) (xs ++ [x]) =
            groupsOf key front (xs ++ [x]) ++ [(key x, [x])] := by
          intro front
          simp [groupsOf, hnone]
        simp only [hmet, if_false, decide_false, Bool.false_eq_true]
        rw [hkeys, groupsOf_append_of_not_mem hmet]

theorem mem_group_iff {g : κ × List α} (hg : g ∈ groupBy key xs) {x : α} :
    x ∈ g.2 ↔ x ∈ xs ∧ key x = g.1 := by
  rw [groupBy_eq] at hg
  obtain ⟨k, _, rfl⟩ := List.mem_map.mp hg
  simp

theorem map_fst_groupBy (key : α → κ) (xs : List α) :
    (groupBy key xs).map Prod.fst = firstMet (xs.map key) := by
  rw [groupBy_eq, groupsOf, List.map_map]
  exact List.map_id _

end RouteLinks
