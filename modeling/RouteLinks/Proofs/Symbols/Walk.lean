import Mathlib.Data.List.Chain
import RouteLinks.Proofs.Symbols.Descent
/-!
# The walk from base to base

`ancestorAt` takes one step after the other, each from a class to its base, and ends only where
there is no base; in a cycle it goes round for ever. The ancestry of a class is this walk up to the
point where it ends or where a class would come a second time. Which of the two it is can be seen at
the last class of the chain: it has a base in the program exactly if the walk goes round, and
otherwise what is written for its base is the name by which the program is left.
-/

namespace RouteLinks.Model

variable {m : Model} {c : Class}

/-- The class that is reached from a class in a number of steps, each to the base. -/
def ancestorAt (m : Model) (c : Class) : Nat → Option Class
  | 0 => some c
  | n + 1 => (m.ancestorAt c n).bind m.baseOf?

/-- Going from base to base comes to a class a second time. -/
def Revisits (m : Model) (c : Class) : Prop :=
  ∃ i j x, i < j ∧ m.ancestorAt c i = some x ∧ m.ancestorAt c j = some x

/-- Each class of a list is the base of the one before it. -/
def IsClimb (m : Model) (classes : List Class) : Prop :=
  classes.IsChain fun x y => m.baseOf? x = some y

/-! ### Steps along a chain -/

theorem ancestorAt_succ (m : Model) (c : Class) (n : Nat) :
    m.ancestorAt c (n + 1) = (m.baseOf? c).bind fun base => m.ancestorAt base n := by
  induction n with
  | zero => simp [ancestorAt]
  | succ n ih =>
      rw [ancestorAt, ih, Option.bind_assoc]
      rfl

theorem IsClimb.ancestorAt_eq {bases : List Class} (h : m.IsClimb (c :: bases)) {n : Nat}
    (hn : n ≤ bases.length) : m.ancestorAt c n = (c :: bases)[n]? := by
  induction bases generalizing c n with
  | nil =>
      obtain rfl : n = 0 := Nat.le_zero.mp hn
      rfl
  | cons base rest ih =>
      obtain ⟨hbase, hrest⟩ := List.isChain_cons_cons.mp h
      cases n with
      | zero => rfl
      | succ n =>
          rw [ancestorAt_succ, hbase, Option.bind_some, List.getElem?_cons_succ]
          exact ih hrest (Nat.le_of_succ_le_succ hn)

theorem IsClimb.ancestorAt_eq_of_last {bases : List Class} (h : m.IsClimb (c :: bases))
    {last : Class} (hlast : (c :: bases).getLast? = some last) (hnone : m.baseOf? last = none)
    (n : Nat) : m.ancestorAt c n = (c :: bases)[n]? := by
  induction bases generalizing c n with
  | nil =>
      obtain rfl : c = last := Option.some.inj hlast
      cases n with
      | zero => rfl
      | succ n =>
          rw [ancestorAt_succ, hnone]
          rfl
  | cons base rest ih =>
      obtain ⟨hbase, hrest⟩ := List.isChain_cons_cons.mp h
      cases n with
      | zero => rfl
      | succ n =>
          rw [ancestorAt_succ, hbase, Option.bind_some, List.getElem?_cons_succ]
          exact ih hrest (by rwa [List.getLast?_cons_cons] at hlast) n

/-! ### What a walk leaves behind -/

theorem Climbs.isClimb {current : Class} {above : List Class} {a : Ancestry}
    (h : Climbs m current above a) (habove : m.IsClimb (current :: above).reverse) :
    m.IsClimb a.chain := by
  induction h with
  | root | leaves | returns => exact habove
  | @up current base above _ hbase _ _ ih =>
      apply ih
      rw [IsClimb, List.reverse_cons, List.isChain_append]
      refine ⟨habove, List.isChain_singleton _, ?_⟩
      simpa using hbase

theorem Climbs.nodup {current : Class} {above : List Class} {a : Ancestry}
    (h : Climbs m current above a) (habove : ((current :: above).map Class.qualifiedName).Nodup) :
    (a.chain.map Class.qualifiedName).Nodup := by
  have hreverse : ∀ {classes : List Class}, (classes.map Class.qualifiedName).Nodup →
      (classes.reverse.map Class.qualifiedName).Nodup := by
    intro classes hclasses
    rw [List.map_reverse]
    exact List.nodup_reverse.mpr hclasses
  induction h with
  | root | leaves | returns => exact hreverse habove
  | up _ hnew _ ih => exact ih (List.nodup_cons.mpr ⟨hnew, habove⟩)

/-- What the last class of a chain tells about the end of the walk. -/
structure EndsAt (m : Model) (a : Ancestry) (last : Class) : Prop where
  isLast : a.chain.getLast? = some last
  isCyclic : a.isCyclic = (m.baseOf? last).isSome
  external : a.external = if (m.baseOf? last).isSome then none else last.base?.map shortName
  met : ∀ base, m.baseOf? last = some base →
    base.qualifiedName ∈ a.chain.map Class.qualifiedName

theorem Climbs.exists_endsAt {current : Class} {above : List Class} {a : Ancestry}
    (h : Climbs m current above a) : ∃ last, m.EndsAt a last := by
  have hlast : ∀ (current : Class) (above : List Class),
      (current :: above).reverse.getLast? = some current := by simp
  induction h with
  | @root current above hbase =>
      have hnone : m.baseOf? current = none := by rw [baseOf?, hbase]; rfl
      exact ⟨current, hlast _ _, by simp [hnone], by simp [hnone, hbase], by simp [hnone]⟩
  | @leaves current above written hbase hunknown =>
      refine ⟨current, hlast _ _, by simp [hunknown], ?_, by simp [hunknown]⟩
      simp [hunknown, hbase, shortName]
  | @returns current base above hbase hmet =>
      refine ⟨current, hlast _ _, by simp [hbase], by simp [hbase], ?_⟩
      intro other hother
      rw [hbase] at hother
      cases hother
      rwa [List.map_reverse, List.mem_reverse]
  | up _ _ _ ih => exact ih

/-! ### The ancestry of a class -/

theorem isClimb_ancestry (m : Model) (c : Class) : m.IsClimb (m.ancestry c).chain :=
  (climbs_ancestry m c).isClimb (List.isChain_singleton c)

theorem nodup_ancestry (m : Model) (c : Class) :
    ((m.ancestry c).chain.map Class.qualifiedName).Nodup :=
  (climbs_ancestry m c).nodup (List.nodup_singleton _)

/-- A walk that is not cyclic comes to no class again, since the steps end with the chain. -/
theorem not_revisits (hacyclic : (m.ancestry c).isCyclic = false) : ¬ m.Revisits c := by
  rintro ⟨i, j, x, hij, hi, hj⟩
  obtain ⟨bases, hchain, -⟩ := m.chain_ancestry c
  obtain ⟨last, hends⟩ := (climbs_ancestry m c).exists_endsAt
  have hnone : m.baseOf? last = none :=
    Option.isNone_iff_eq_none.mp
      (Option.isSome_eq_false_iff.mp (hends.isCyclic.symm.trans hacyclic))
  have hsteps : ∀ n, m.ancestorAt c n = (c :: bases)[n]? := by
    refine IsClimb.ancestorAt_eq_of_last ?_ ?_ hnone
    · exact hchain ▸ m.isClimb_ancestry c
    · exact hchain ▸ hends.isLast
  have hnodup : (c :: bases).Nodup := hchain ▸ (m.nodup_ancestry c).of_map
  rw [hsteps] at hi hj
  have hbound : i < (c :: bases).length := (List.getElem?_eq_some_iff.mp hi).1
  exact hij.ne ((List.getElem?_inj hbound hnodup).mp (hi.trans hj.symm))

variable (hnodup : (m.classes.map Class.qualifiedName).Nodup) (hc : c ∈ m.classes)

include hnodup hc in
theorem revisits_of_isCyclic (hcyclic : (m.ancestry c).isCyclic = true) : m.Revisits c := by
  obtain ⟨bases, hchain, -⟩ := m.chain_ancestry c
  obtain ⟨last, hends⟩ := (climbs_ancestry m c).exists_endsAt
  obtain ⟨base, hbase⟩ := Option.isSome_iff_exists.mp (hends.isCyclic ▸ hcyclic)
  have hlast := List.mem_of_getLast? hends.isLast
  have hback : base ∈ c :: bases := hchain ▸ mem_chain_of_baseOf? hnodup hc hlast hbase
  have hclimb : m.IsClimb (c :: bases) := hchain ▸ m.isClimb_ancestry c
  obtain ⟨i, hi, hfirst⟩ := List.mem_iff_getElem.mp hback
  have hbound : i ≤ bases.length := Nat.le_of_lt_succ hi
  refine ⟨i, bases.length + 1, base, by omega, ?_, ?_⟩
  · rw [hclimb.ancestorAt_eq hbound, List.getElem?_eq_getElem hi, hfirst]
  · have hend : m.ancestorAt c bases.length = some last := by
      rw [hclimb.ancestorAt_eq le_rfl, ← hends.isLast, hchain, List.getLast?_eq_getElem?]
      rfl
    rw [ancestorAt, hend, Option.bind_some, hbase]

include hnodup hc in
theorem isCyclic_iff_revisits : (m.ancestry c).isCyclic = true ↔ m.Revisits c := by
  refine ⟨revisits_of_isCyclic hnodup hc, fun hrevisits => ?_⟩
  by_contra hacyclic
  exact not_revisits (Bool.eq_false_iff.mpr hacyclic) hrevisits

include hc in
/-- The count that a walk is given is that of the steps it can take at most. -/
theorem length_chain_le : (m.ancestry c).chain.length ≤ m.classes.length := by
  obtain ⟨bases, hchain, hbases⟩ := m.chain_ancestry c
  have hclasses : (m.ancestry c).chain ⊆ m.classes :=
    hchain ▸ List.cons_subset.mpr ⟨hc, hbases⟩
  have hlength := (m.nodup_ancestry c).length_le_of_subset (List.map_subset _ hclasses)
  rwa [List.length_map, List.length_map] at hlength

/-- The walk is over when the classes of the model are counted: with a higher count it comes to the
same. -/
theorem climb_eq_ancestry (m : Model) (c : Class) {count : Nat}
    (hcount : m.classes.length < count) :
    m.climb c [] count = m.ancestry c := by
  have hclimbs : Climbs m c [] (m.climb c [] count) :=
    climbs_climb c c [] count (by simp) (by simp) (by rwa [List.length_nil, Nat.zero_add])
  exact hclimbs.unique (climbs_ancestry m c)

theorem EndsAt.external_eq_some_iff {a : Ancestry} {last : Class} (h : m.EndsAt a last)
    {name : String} : a.external = some name ↔
      ∃ written, last.base? = some written ∧ m.baseOf? last = none ∧ name = shortName written := by
  rw [h.external]
  cases hbase : m.baseOf? last with
  | none => simp [eq_comm]
  | some base => simp

/-- How a walk goes from a class: it begins there, each class is followed by its base, no name comes
twice, and it is over when all classes are counted. It stops only where there is no base, or before
a class that it has met; so it is cyclic exactly if going on for ever comes to a class twice, and it
leaves the program by a name exactly if its last class has a base there. Above a class of a chain
that is not cyclic lies what that class has above itself. -/
structure WalksUp (m : Model) (c : Class) (a : Ancestry) : Prop where
  starts : a.chain.head? = some c
  follows : a.chain.IsChain fun x y => m.baseOf? x = some y
  distinct : (a.chain.map Class.qualifiedName).Nodup
  bounded : a.chain.length ≤ m.classes.length
  settled : ∀ count, m.classes.length < count → m.climb c [] count = a
  stops : ∀ last, a.chain.getLast? = some last → ∀ base, m.baseOf? last = some base → base ∈ a.chain
  isCyclic : a.isCyclic = true ↔ m.Revisits c
  external : ∀ name, a.external = some name ↔ ∃ last written, a.chain.getLast? = some last ∧
    last.base? = some written ∧ m.baseOf? last = none ∧ name = shortName written
  tails : a.isCyclic = false → ∀ before b further, a.chain = before ++ b :: further →
    m.ancestry b = ⟨b :: further, a.external, false⟩

/-- Bases may be written as they like: the walk from every class ends, with just these results. -/
theorem walksUp_ancestry {files : List SourceFile} (hc : c ∈ (ofFiles files).classes) :
    (ofFiles files).WalksUp c ((ofFiles files).ancestry c) := by
  have hnames := nodup_ofFiles files
  obtain ⟨bases, hchain, -⟩ := (ofFiles files).chain_ancestry c
  obtain ⟨last, hends⟩ := (climbs_ancestry (ofFiles files) c).exists_endsAt
  constructor
  case starts => rw [hchain, List.head?_cons]
  case follows => exact isClimb_ancestry _ c
  case distinct => exact nodup_ancestry _ c
  case bounded => exact length_chain_le hc
  case settled => exact fun _ hcount => climb_eq_ancestry _ c hcount
  case stops =>
    intro other hother base hbase
    exact mem_chain_of_baseOf? hnames hc (List.mem_of_getLast? hother) hbase
  case isCyclic => exact isCyclic_iff_revisits hnames hc
  case external =>
    intro name
    rw [hends.external_eq_some_iff]
    constructor
    · rintro ⟨written, hwritten⟩
      exact ⟨last, written, hends.isLast, hwritten⟩
    · rintro ⟨other, written, hother, hwritten⟩
      obtain rfl : last = other := Option.some.inj (hends.isLast.symm.trans hother)
      exact ⟨written, hwritten⟩
  case tails => exact fun hacyclic _ _ _ hsplit => ancestry_of_mem_chain hacyclic hsplit

/-- A class below a cycle that does not come back to it: the walk stops in the cycle. -/
theorem walksUp_into_cycle :
    ∃ c ∈ (ofFiles [cyclicFile]).classes,
      ((ofFiles [cyclicFile]).ancestry c).chain.map Class.qualifiedName =
          ["Home", "Shop", "ApiController"] ∧
        ((ofFiles [cyclicFile]).ancestry c).isCyclic = true ∧
          (ofFiles [cyclicFile]).WalksUp c ((ofFiles [cyclicFile]).ancestry c) := by
  have hfound : ∃ c ∈ (ofFiles [cyclicFile]).classes,
      ((ofFiles [cyclicFile]).ancestry c).chain.map Class.qualifiedName =
          ["Home", "Shop", "ApiController"] ∧
        ((ofFiles [cyclicFile]).ancestry c).isCyclic = true := by decide
  obtain ⟨c, hc, hchain, hcyclic⟩ := hfound
  exact ⟨c, hc, hchain, hcyclic, walksUp_ancestry hc⟩

end RouteLinks.Model
