import Mathlib.Data.List.Basic
import RouteLinks.Symbols.Ancestry
/-!
# The way from a class to its last base

`climb` counts down so that it ends; `Climbs` is the same walk without the count. That the count
never runs out is a matter of names: a chain has none of them twice, and all but the first belong
to classes of the model. What the rest relies on is `ancestry_of_mem_chain`: above any class of an
acyclic chain lies exactly the ancestry of that class, so that a base sees the same classes above
itself as those that descend from it do.
-/

namespace RouteLinks.Model

variable {m : Model}

/-- The walk from `current`, with the classes `above` behind it, ends in an ancestry. -/
inductive Climbs (m : Model) : Class → List Class → Ancestry → Prop
  | root {current : Class} {above : List Class} (hbase : current.base? = none) :
      Climbs m current above ⟨(current :: above).reverse, none, false⟩
  | leaves {current : Class} {above : List Class} {written : String}
      (hbase : current.base? = some written) (hunknown : m.baseOf? current = none) :
      Climbs m current above ⟨(current :: above).reverse,
        some (String.ofList (Text.lastField '.' (withoutArguments written).toList)), false⟩
  | returns {current base : Class} {above : List Class} (hbase : m.baseOf? current = some base)
      (hmet : base.qualifiedName ∈ (current :: above).map Class.qualifiedName) :
      Climbs m current above ⟨(current :: above).reverse, none, true⟩
  | up {current base : Class} {above : List Class} {a : Ancestry}
      (hbase : m.baseOf? current = some base)
      (hnew : base.qualifiedName ∉ (current :: above).map Class.qualifiedName)
      (hrest : Climbs m base (current :: above) a) : Climbs m current above a

theorem mem_classes_of_baseOf? {c base : Class} (h : m.baseOf? c = some base) :
    base ∈ m.classes := by
  obtain ⟨written, _, hfound⟩ := Option.bind_eq_some_iff.mp h
  obtain ⟨name, _, hname⟩ := List.exists_of_findSome?_eq_some hfound
  exact List.mem_of_find?_eq_some (Option.filter_eq_some_iff.mp hname).1

theorem base?_isSome_of_baseOf? {c base : Class} (h : m.baseOf? c = some base) :
    ∃ written, c.base? = some written := by
  obtain ⟨written, hwritten, _⟩ := Option.bind_eq_some_iff.mp h
  exact ⟨written, hwritten⟩

/-- The count does not run out before the walk ends. -/
theorem climbs_climb (first : Class) (current : Class) (above : List Class) (fuel : Nat)
    (hnodup : ((current :: above).map Class.qualifiedName).Nodup)
    (hknown : (current :: above).map Class.qualifiedName ⊆
      (first :: m.classes).map Class.qualifiedName)
    (hfuel : m.classes.length + 1 ≤ above.length + fuel) :
    Climbs m current above (m.climb current above fuel) := by
  induction fuel generalizing current above with
  | zero =>
      have hlength := hnodup.length_le_of_subset hknown
      simp only [List.length_map, List.length_cons] at hlength
      omega
  | succ fuel ih =>
      rw [climb]
      cases hwritten : current.base? with
      | none => exact .root hwritten
      | some written =>
          cases hbase : m.baseOf? current with
          | none => exact .leaves hwritten hbase
          | some base =>
              have hany : (current :: above).any (·.qualifiedName == base.qualifiedName) = true ↔
                  base.qualifiedName ∈ (current :: above).map Class.qualifiedName := by
                simp only [List.any_eq_true, beq_iff_eq, List.mem_map]
              by_cases hmet : base.qualifiedName ∈ (current :: above).map Class.qualifiedName
              · simp only [hany.mpr hmet, if_true]
                exact .returns hbase hmet
              · simp only [mt hany.mp hmet, Bool.false_eq_true, if_false]
                refine .up hbase hmet (ih base (current :: above) ?_ ?_ ?_)
                · exact List.nodup_cons.mpr ⟨hmet, hnodup⟩
                · refine List.cons_subset.mpr ⟨?_, hknown⟩
                  exact List.mem_map_of_mem (List.mem_cons_of_mem _ (mem_classes_of_baseOf? hbase))
                · simp only [List.length_cons]
                  omega

theorem climbs_ancestry (m : Model) (c : Class) : Climbs m c [] (m.ancestry c) :=
  climbs_climb c c [] _ (by simp) (by simp) (by simp)

theorem Climbs.unique {current : Class} {above : List Class} {a b : Ancestry}
    (ha : Climbs m current above a) (hb : Climbs m current above b) : a = b := by
  induction ha with
  | root hbase =>
      cases hb with
      | root => rfl
      | leaves hother => simp [hbase] at hother
      | returns hother | up hother =>
          obtain ⟨written, hwritten⟩ := base?_isSome_of_baseOf? hother
          simp [hbase] at hwritten
  | leaves hbase hunknown =>
      cases hb with
      | root hother => simp [hbase] at hother
      | leaves hother =>
          rw [hbase] at hother
          cases hother
          rfl
      | returns hother | up hother => simp [hunknown] at hother
  | returns hbase hmet =>
      cases hb with
      | root hother =>
          obtain ⟨written, hwritten⟩ := base?_isSome_of_baseOf? hbase
          simp [hother] at hwritten
      | leaves _ hother => simp [hbase] at hother
      | returns => rfl
      | up hother hnew =>
          rw [hbase] at hother
          cases hother
          exact absurd hmet hnew
  | up hbase hnew _ ih =>
      cases hb with
      | root hother =>
          obtain ⟨written, hwritten⟩ := base?_isSome_of_baseOf? hbase
          simp [hother] at hwritten
      | leaves _ hother => simp [hbase] at hother
      | returns hother hmet =>
          rw [hbase] at hother
          cases hother
          exact absurd hmet hnew
      | up hother _ hrest =>
          rw [hbase] at hother
          cases hother
          exact ih hrest

/-! ### Chains without a cycle -/

/-- A walk without a cycle comes to the same end with fewer classes behind it. -/
theorem Climbs.forget {current : Class} {above : List Class} {a : Ancestry}
    (h : Climbs m current above a) (hacyclic : a.isCyclic = false) :
    ∃ path, a.chain = above.reverse ++ current :: path ∧
      ∀ fewer ⊆ above,
        Climbs m current fewer ⟨fewer.reverse ++ current :: path, a.external, false⟩ := by
  induction h with
  | root hbase =>
      refine ⟨[], by simp, ?_⟩
      intro fewer _
      rw [← List.reverse_cons]
      exact .root hbase
  | leaves hbase hunknown =>
      refine ⟨[], by simp, ?_⟩
      intro fewer _
      rw [← List.reverse_cons]
      exact .leaves hbase hunknown
  | returns => cases hacyclic
  | @up current base above a hbase hnew _ ih =>
      obtain ⟨path, hchain, hfewer⟩ := ih hacyclic
      refine ⟨base :: path, by simp [hchain], ?_⟩
      intro fewer hsubset
      have hcons : current :: fewer ⊆ current :: above := List.cons_subset_cons _ hsubset
      have hrest := hfewer (current :: fewer) hcons
      rw [List.reverse_cons, List.append_assoc, List.singleton_append] at hrest
      exact .up hbase (fun hmem => hnew (List.map_subset _ hcons hmem)) hrest

theorem Climbs.suffix {current : Class} {above : List Class} {a : Ancestry}
    (h : Climbs m current above a) (hacyclic : a.isCyclic = false) {before further : List Class}
    {b : Class} (hsplit : a.chain = above.reverse ++ (before ++ b :: further)) :
    Climbs m b [] ⟨b :: further, a.external, false⟩ := by
  induction before generalizing current above with
  | nil =>
      obtain ⟨path, hchain, hfewer⟩ := h.forget hacyclic
      rw [hchain, List.nil_append, List.append_cancel_left_eq, List.cons.injEq] at hsplit
      obtain ⟨rfl, rfl⟩ := hsplit
      exact hfewer [] (List.nil_subset _)
  | cons first before ih =>
      cases h with
      | root | leaves => simp at hsplit
      | returns => cases hacyclic
      | @up _ base _ _ hbase hnew hrest =>
          obtain ⟨path, hchain, _⟩ := hrest.forget hacyclic
          have hfirst : current = first := by
            rw [hchain] at hsplit
            simp only [List.reverse_cons, List.append_assoc, List.cons_append,
              List.append_cancel_left_eq, List.cons.injEq] at hsplit
            exact hsplit.1
          subst hfirst
          exact ih hrest (by simpa using hsplit)

/-- Above a class of a chain without a cycle lies that class's own ancestry. -/
theorem ancestry_of_mem_chain {c b : Class} {before further : List Class}
    (hacyclic : (m.ancestry c).isCyclic = false)
    (hsplit : (m.ancestry c).chain = before ++ b :: further) :
    m.ancestry b = ⟨b :: further, (m.ancestry c).external, false⟩ :=
  (climbs_ancestry m b).unique ((climbs_ancestry m c).suffix hacyclic (by simpa using hsplit))

theorem Climbs.chain_eq {current : Class} {above : List Class} {a : Ancestry}
    (h : Climbs m current above a) :
    ∃ path, a.chain = above.reverse ++ current :: path ∧ ∀ b ∈ path, b ∈ m.classes := by
  induction h with
  | root | leaves | returns => exact ⟨[], by simp⟩
  | @up _ base _ _ hbase _ _ ih =>
      obtain ⟨path, hchain, hmem⟩ := ih
      refine ⟨base :: path, by simp [hchain], ?_⟩
      exact List.forall_mem_cons.mpr ⟨mem_classes_of_baseOf? hbase, hmem⟩

/-- The chain of a class is the class, then bases that the program declares. -/
theorem chain_ancestry (m : Model) (c : Class) :
    ∃ bases, (m.ancestry c).chain = c :: bases ∧ ∀ b ∈ bases, b ∈ m.classes := by
  simpa using (climbs_ancestry m c).chain_eq

end RouteLinks.Model
