import RouteLinks.Proofs.Symbols.Ancestry
import RouteLinks.Proofs.Symbols.Merging
import RouteLinks.Symbols.Discovery
/-!
# Descent from controllers

A class that descends from a controller sees above itself all that the controller sees above itself:
a chain leaves out no base of its classes, also where it runs into a cycle. So what makes a class a
controller by its name or by what lies above it does the same for those that descend from it. The
attribute does not come down, and a class to which a cycle leads back does not count for itself.
-/

namespace RouteLinks.Model

variable {m : Model} {files : List SourceFile} {b c : Class}

/-! ### What lies above a class of a chain -/

def shortName (written : String) : String :=
  String.ofList (Text.lastField '.' (withoutArguments written).toList)

/-- What an ancestry knows of the base of one of its classes: it has the base, by its name at least,
or it ends with what the class has for it. -/
structure Covers (m : Model) (a : Ancestry) (x : Class) : Prop where
  known : ∀ y, m.baseOf? x = some y → y.qualifiedName ∈ a.chain.map Class.qualifiedName
  unknown : ∀ written, x.base? = some written → m.baseOf? x = none →
    a.external = some (shortName written)

/-- A walk covers all classes that it comes to. -/
theorem Climbs.covers {current : Class} {above : List Class} {a : Ancestry}
    (h : Climbs m current above a) : ∀ x ∈ a.chain, x ∈ above ∨ m.Covers a x := by
  have hlast : ∀ {current x : Class} {above : List Class}, x ∈ (current :: above).reverse →
      x = current ∨ x ∈ above := fun hx => List.mem_cons.mp (List.mem_reverse.mp hx)
  induction h with
  | root hbase =>
      intro x hx
      obtain rfl | hx := hlast hx
      · refine .inr ⟨fun y hy => ?_, fun written hwritten _ => ?_⟩
        · obtain ⟨written, hwritten⟩ := base?_isSome_of_baseOf? hy
          simp [hbase] at hwritten
        · simp [hbase] at hwritten
      · exact .inl hx
  | leaves hbase hunknown =>
      intro x hx
      obtain rfl | hx := hlast hx
      · refine .inr ⟨fun y hy => ?_, fun written hwritten _ => ?_⟩
        · simp [hunknown] at hy
        · rw [hbase] at hwritten
          cases hwritten
          rfl
      · exact .inl hx
  | returns hbase hmet =>
      intro x hx
      obtain rfl | hx := hlast hx
      · refine .inr ⟨fun y hy => ?_, fun written _ hunknown => ?_⟩
        · rw [hbase] at hy
          cases hy
          rwa [List.map_reverse, List.mem_reverse]
        · simp [hbase] at hunknown
      · exact .inl hx
  | @up current base above a hbase _ hrest ih =>
      intro x hx
      rcases ih x hx with hbelow | hcovers
      · obtain rfl | hbelow := List.mem_cons.mp hbelow
        · refine .inr ⟨fun y hy => ?_, fun written _ hunknown => ?_⟩
          · obtain ⟨path, hchain, _⟩ := hrest.chain_eq
            rw [hbase] at hy
            cases hy
            rw [hchain]
            exact List.mem_map_of_mem (List.mem_append_right _ List.mem_cons_self)
          · simp [hbase] at hunknown
        · exact .inl hbelow
      · exact .inr hcovers

theorem Climbs.external_eq_some {current : Class} {above : List Class} {a : Ancestry}
    (h : Climbs m current above a) {name : String} (hname : a.external = some name) :
    ∃ x ∈ a.chain, ∃ written, x.base? = some written ∧ m.baseOf? x = none ∧
      name = shortName written := by
  induction h with
  | root => cases hname
  | returns => cases hname
  | leaves hbase hunknown =>
      exact ⟨_, List.mem_reverse.mpr List.mem_cons_self, _, hbase, hunknown,
        (Option.some.inj hname).symm⟩
  | up _ _ _ ih => exact ih hname

/-- A walk that begins among classes which have their bases with them does not leave them. -/
theorem Climbs.chain_subset {current : Class} {above : List Class} {a : Ancestry}
    (h : Climbs m current above a) {known : List Class} (habove : above ⊆ known)
    (hcurrent : current ∈ known) (hbases : ∀ x ∈ known, ∀ y, m.baseOf? x = some y → y ∈ known) :
    a.chain ⊆ known := by
  have hreverse : ∀ {x : Class} {xs : List Class}, x ∈ known → xs ⊆ known →
      (x :: xs).reverse ⊆ known := fun hx hxs =>
    List.reverse_subset.mpr (List.cons_subset.mpr ⟨hx, hxs⟩)
  induction h with
  | root | leaves | returns => exact hreverse hcurrent habove
  | up hbase _ _ ih =>
      exact ih (List.cons_subset.mpr ⟨hcurrent, habove⟩) (hbases _ hcurrent _ hbase)

theorem covers_of_mem_chain {x : Class} (hx : x ∈ (m.ancestry c).chain) :
    m.Covers (m.ancestry c) x :=
  ((climbs_ancestry m c).covers x hx).resolve_left List.not_mem_nil

variable (hnodup : (m.classes.map Class.qualifiedName).Nodup) (hc : c ∈ m.classes)

include hnodup hc in
theorem mem_chain_of_baseOf? {x y : Class} (hx : x ∈ (m.ancestry c).chain)
    (hy : m.baseOf? x = some y) : y ∈ (m.ancestry c).chain := by
  obtain ⟨bases, hchain, hbases⟩ := m.chain_ancestry c
  have hname : y.qualifiedName ∈ (m.ancestry c).chain.map Class.qualifiedName :=
    (covers_of_mem_chain hx).known y hy
  obtain ⟨z, hz, hsame⟩ := List.mem_map.mp hname
  have hzclasses : z ∈ m.classes := by
    rw [hchain] at hz
    rcases List.mem_cons.mp hz with rfl | hz
    · exact hc
    · exact hbases z hz
  rwa [← List.inj_on_of_nodup_map hnodup hzclasses (mem_classes_of_baseOf? hy) hsame]

include hnodup hc in
theorem chain_subset_chain (hb : b ∈ (m.ancestry c).chain) :
    (m.ancestry b).chain ⊆ (m.ancestry c).chain :=
  (climbs_ancestry m b).chain_subset (List.nil_subset _) hb fun _ hx _ hy =>
    mem_chain_of_baseOf? hnodup hc hx hy

include hnodup hc in
/-- The base outside of the program that a class of a chain comes to is that of the chain. -/
theorem external_eq_of_mem_chain (hb : b ∈ (m.ancestry c).chain) {name : String}
    (hname : (m.ancestry b).external = some name) : (m.ancestry c).external = some name := by
  obtain ⟨x, hx, written, hwritten, hunknown, rfl⟩ :=
    (climbs_ancestry m b).external_eq_some hname
  have hmem := chain_subset_chain hnodup hc hb hx
  exact (covers_of_mem_chain hmem).unknown written hwritten hunknown

/-! ### Candidates -/

/-- A class that has a controller's name above itself, or comes to one outside of the program. -/
def DescendsFromController (m : Model) (c : Class) : Prop :=
  (∃ a ∈ (m.ancestry c).chain.drop 1, looksLikeController a.name = true) ∨
    ∃ name, (m.ancestry c).external = some name ∧ looksLikeController name = true

theorem isCandidate_iff (m : Model) (c : Class) :
    m.isCandidate c = true ↔ c.isNested = false ∧
      (endsWith c.name controllerSuffix = true ∨ c.hasAttribute "Controller" = true ∨
        m.DescendsFromController c) := by
  rw [isCandidate, DescendsFromController]
  cases c.isNested with
  | true => simp
  | false =>
      cases endsWith c.name controllerSuffix <;> cases c.hasAttribute "Controller" <;>
        cases hexternal : (m.ancestry c).external <;> simp [hexternal]

/-- What a class above another one shows it of being a controller: its name, what lies above it
without the other class, or the base at which the program ends. -/
inductive ShowsTo (m : Model) (c b : Class) : Prop
  | name (h : endsWith b.name controllerSuffix = true)
  | above {a : Class} (ha : a ∈ (m.ancestry b).chain.drop 1) (hother : a ≠ c)
      (h : looksLikeController a.name = true)
  | outside {name : String} (hname : (m.ancestry b).external = some name)
      (h : looksLikeController name = true)

theorem mem_drop_of_mem_chain (hb : b ∈ (m.ancestry c).chain) (hother : b ≠ c) :
    b ∈ (m.ancestry c).chain.drop 1 := by
  obtain ⟨bases, hchain, _⟩ := m.chain_ancestry c
  rw [hchain] at hb ⊢
  exact (List.mem_cons.mp hb).resolve_left hother

theorem ShowsTo.descendsFromController (h : m.ShowsTo c b)
    (hnodup : (m.classes.map Class.qualifiedName).Nodup) (hc : c ∈ m.classes)
    (hb : b ∈ (m.ancestry c).chain) (hother : b ≠ c) : m.DescendsFromController c := by
  cases h with
  | name h =>
      refine .inl ⟨b, mem_drop_of_mem_chain hb hother, ?_⟩
      rw [looksLikeController, h, Bool.or_true]
  | above ha hself h =>
      have hchain := chain_subset_chain hnodup hc hb (List.mem_of_mem_drop ha)
      exact .inl ⟨_, mem_drop_of_mem_chain hchain hself, h⟩
  | outside hname h => exact .inr ⟨_, external_eq_of_mem_chain hnodup hc hb hname, h⟩

/-- The reasons for which a class above another one is a candidate show, but for its attribute and
for the other class itself. -/
theorem showsTo_of_isCandidate (h : m.isCandidate b = true) :
    b.hasAttribute "Controller" = true ∨ m.ShowsTo c b ∨ c ∈ (m.ancestry b).chain.drop 1 := by
  obtain ⟨_, hname | hattribute | ⟨a, ha, hlooks⟩ | ⟨name, hname, hlooks⟩⟩ :=
    (isCandidate_iff m b).mp h
  · exact .inr (.inl (.name hname))
  · exact .inl hattribute
  · by_cases hself : a = c
    · exact .inr (.inr (hself ▸ ha))
    · exact .inr (.inl (.above ha hself hlooks))
  · exact .inr (.inl (.outside hname hlooks))

/-- A class that is not nested is a candidate if a class above it is one by a reason that shows; and
all reasons show but an attribute and, where a cycle leads back to it, the class itself. -/
theorem isCandidate_of_mem_chain (hc : c ∈ (ofFiles files).classes) (hnested : c.isNested = false)
    (hb : b ∈ ((ofFiles files).ancestry c).chain) (hother : b ≠ c) :
    ((ofFiles files).ShowsTo c b → (ofFiles files).isCandidate c = true) ∧
      ((ofFiles files).isCandidate b = true →
        b.hasAttribute "Controller" = true ∨ (ofFiles files).ShowsTo c b ∨
          c ∈ ((ofFiles files).ancestry b).chain.drop 1) := by
  refine ⟨fun hshows => ?_, showsTo_of_isCandidate⟩
  have hdescends := hshows.descendsFromController (nodup_ofFiles files) hc hb hother
  exact (isCandidate_iff _ c).mpr ⟨hnested, .inr (.inr hdescends)⟩

def classesFile (classes : List (String × List Attribute × Option String)) : SourceFile :=
  { filePath := "A.cs"
    units := classes.map fun (name, attributes, base) =>
      { head := .ofClass { modifiers := ["public"], attributes, base }, name, qualifiedName := name
        filePath := "A.cs" } }

def cyclicFile : SourceFile :=
  classesFile [("Home", [], some "Shop"), ("Shop", [], some "ApiController"),
    ("ApiController", [], some "Shop")]

/-- Above the class `Shop` of the cycle stands `ApiController`, which shows to the class below. -/
theorem isCandidate_below_cycle :
    ∃ c ∈ (ofFiles [cyclicFile]).classes, c.name = "Home" ∧
      ((ofFiles [cyclicFile]).ancestry c).isCyclic = true ∧
        ∃ b ∈ ((ofFiles [cyclicFile]).ancestry c).chain, b.name = "Shop" ∧ b ≠ c ∧
          (ofFiles [cyclicFile]).ShowsTo c b ∧ (ofFiles [cyclicFile]).isCandidate c = true := by
  have hfound : ∃ c ∈ (ofFiles [cyclicFile]).classes, c.name = "Home" ∧ c.isNested = false ∧
      ((ofFiles [cyclicFile]).ancestry c).isCyclic = true ∧
        ∃ b ∈ ((ofFiles [cyclicFile]).ancestry c).chain, b.name = "Shop" ∧ b ≠ c ∧
          ∃ a ∈ ((ofFiles [cyclicFile]).ancestry b).chain.drop 1, a ≠ c ∧
            looksLikeController a.name = true := by
    decide
  obtain ⟨c, hc, hname, hnested, hcyclic, b, hb, hshop, hother, a, ha, hself, hlooks⟩ := hfound
  have hshows : (ofFiles [cyclicFile]).ShowsTo c b := .above ha hself hlooks
  exact ⟨c, hc, hname, hcyclic, b, hb, hshop, hother, hshows,
    (isCandidate_of_mem_chain hc hnested hb hother).1 hshows⟩

def attributeFile : SourceFile :=
  classesFile [("Shop", ["[Controller]"], none), ("Home", [], some "Shop")]

/-- The attribute of a class makes no candidate of a class that descends from it. -/
theorem not_isCandidate_below_attribute :
    ∃ c ∈ (ofFiles [attributeFile]).classes, c.isNested = false ∧
      (∃ b ∈ ((ofFiles [attributeFile]).ancestry c).chain, b ≠ c ∧
        (ofFiles [attributeFile]).isCandidate b = true) ∧
          (ofFiles [attributeFile]).isCandidate c = false := by
  decide

/-- Nor does a class that a cycle leads back to, where only its name as a base would count. -/
example :
    let m := ofFiles [classesFile [("ControllerBase", [], some "Shop"),
      ("Shop", [], some "ControllerBase")]]
    m.classes.map m.isCandidate = [false, true] := by decide

end RouteLinks.Model
