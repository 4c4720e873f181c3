import RouteLinks.Links.Assembly
import RouteLinks.Proofs.Links.Dictionary
import RouteLinks.Proofs.Routes.Actions
import RouteLinks.Proofs.Routes.EditedController
import RouteLinks.Proofs.Symbols.Sample
/-!
# The keys that an override adds

A result keeps its route values in a dictionary of the framework, which compares keys without regard
to case and refuses one that it has. Setting up a result adds the three keys of the route identity,
and an override adds one key for each parameter. Whether a method gets a link is decided one
parameter at a time. So no key meets one of the identity, but two parameters of an action can have
keys that differ in case alone, and exactly then an addition is refused.
-/

namespace RouteLinks

/-! ### The keys of a result -/

def setupKeys : List String := ["Area", "Controller", "Action"]

/-- The key that a statement adds to the dictionary of the result, if it does. -/
def Statement.addedKey? : Statement → Option String
  | .addRouteValue _ key _ => some key
  | _ => none

namespace Action

def addedKeys (a : Action) : List String := a.overrideBody.filterMap Statement.addedKey?

theorem addedKeys_eq (a : Action) : a.addedKeys = a.parameters.map Parameter.routeKey := by
  have hadds : (a.parameters.map fun p =>
      Statement.addRouteValue resultVariable p.routeKey (.identifier p.name)).filterMap
        Statement.addedKey? = a.parameters.map Parameter.routeKey := by
    rw [List.filterMap_map, ← List.filterMap_eq_map]
    rfl
  rw [addedKeys, overrideBody, List.cons_append, List.filterMap_cons_none rfl,
    List.filterMap_append, hadds]
  cases a.shape.isAsync <;> exact List.append_nil _

/-- The dictionary of a result after the override of an action, none if a key was refused. -/
def dictionary? (fold : Char → Char) (a : Action) : Option (List String) :=
  addKeys? fold [] (setupKeys ++ a.addedKeys)

end Action

/-! ### Keys of the identity -/

section

variable {fold : Char → Char}

theorem exists_sameKey_of_mem_setupKeys (hfold : IgnoresCase fold) {k : String}
    (hk : k ∈ setupKeys) : ∃ key ∈ identityKeys, SameKey fold key k := by
  have hcapital : ∀ k ∈ setupKeys, ∃ key ∈ identityKeys,
      key.toList = k.toList.map Char.toLower := by decide
  obtain ⟨key, hkey, hlower⟩ := hcapital k hk
  refine ⟨key, hkey, ?_⟩
  rw [SameKey, hlower, List.map_map]
  exact List.map_congr_left fun c _ => hfold.lower c

theorem pairwise_setupKeys (hfold : IgnoresCase fold) :
    setupKeys.Pairwise fun k l => ¬SameKey fold k l := by
  have hapart : setupKeys.Pairwise fun k l =>
      (l.toList.all fun d => decide (d.toNat < 128)) = true ∧
        k.toList.map Char.toLower ≠ l.toList.map Char.toLower := by decide
  exact hapart.imp fun ⟨hall, hne⟩ hsame =>
    hne (map_toLower_eq_of_map_eq hfold (forall_mem_of_all hall) hsame)

end

namespace Controller

variable {m : Model} {run : List String} {symbol : Class}

/-- No parameter of an action has a key of the route identity in any case. The dictionary takes all
keys of an override if and only if no two parameters have keys that differ in case at most. -/
theorem dictionary?_isSome_iff {fold : Char → Char} (hfold : IgnoresCase fold) {a : Action}
    (ha : a ∈ (ofClass m run symbol).actions) :
    (∀ p ∈ a.parameters, ∀ key ∈ identityKeys, ¬SameKey fold p.routeKey key) ∧
      ((a.dictionary? fold).isSome ↔
        a.parameters.Pairwise fun p q => ¬SameKey fold p.routeKey q.routeKey) := by
  obtain ⟨⟨inherited, hqualifies⟩, -⟩ := of_mem_actions_ofClass ha
  have hfree : ∀ p ∈ a.parameters, ∀ key ∈ identityKeys, ¬SameKey fold p.routeKey key := by
    intro p hp key hkey hsame
    have hidentity := isIdentityKey_of_sameKey hfold hkey hsame
    exact Bool.false_ne_true ((hqualifies.isIdentityKey_eq_false hp).symm.trans hidentity)
  have hsetup : ∀ k ∈ setupKeys, ∀ l ∈ a.parameters.map Parameter.routeKey,
      ¬SameKey fold k l := by
    intro k hk l hl hsame
    obtain ⟨p, hp, rfl⟩ := List.mem_map.mp hl
    obtain ⟨key, hkey, hcapital⟩ := exists_sameKey_of_mem_setupKeys hfold hk
    exact hfree p hp key hkey (hcapital.trans hsame).symm
  refine ⟨hfree, ?_⟩
  rw [← List.pairwise_map (f := Parameter.routeKey) (R := fun k l => ¬SameKey fold k l),
    Option.isSome_iff_exists, Action.dictionary?, Action.addedKeys_eq]
  constructor
  · rintro ⟨keys, hkeys⟩
    obtain ⟨-, -, hall⟩ := addKeys?_eq_some_iff.mp hkeys
    exact (List.pairwise_append.mp hall).2.1
  · intro hroute
    refine ⟨_, addKeys?_eq_some_iff.mpr ⟨rfl, by simp, ?_⟩⟩
    exact List.pairwise_append.mpr ⟨pairwise_setupKeys hfold, hroute, hsetup⟩

def fileWithParameters (names : List String) : SourceFile :=
  .home [("Item", .action (names.map fun name => { name, type := some "int" }))]

/-- The dictionary takes keys that differ in more than the case of letters. -/
theorem dictionary?_isSome_different_letters :
    IgnoresCase Char.toLower ∧
      ∃ c ∈ all (Model.ofFiles [fileWithParameters ["id", "@class"]]), ∃ a ∈ c.actions,
        (∀ p ∈ a.parameters, ∀ key ∈ identityKeys, ¬SameKey Char.toLower p.routeKey key) ∧
          (a.dictionary? Char.toLower).isSome := by
  have hfound : ∃ c ∈ all (Model.ofFiles [fileWithParameters ["id", "@class"]]),
      ∃ a ∈ c.actions,
        a.parameters.Pairwise fun p q => ¬SameKey Char.toLower p.routeKey q.routeKey := by decide
  obtain ⟨c, hc, a, ha, hapart⟩ := hfound
  obtain ⟨symbol, -, rfl⟩ := mem_all.mp hc
  obtain ⟨hfree, htaken⟩ := dictionary?_isSome_iff ignoresCase_toLower ha
  exact ⟨ignoresCase_toLower, _, hc, a, ha, hfree, htaken.mpr hapart⟩

/-- It refuses the second of two that do not. -/
theorem dictionary?_eq_none_capital :
    ∃ c ∈ all (Model.ofFiles [fileWithParameters ["id", "Id"]]), ∃ a ∈ c.actions,
      a.dictionary? Char.toLower = none := by
  decide

end Controller

end RouteLinks
