import Mathlib.Tactic.TFAE
import RouteLinks.Proofs.Links.Describing
import RouteLinks.Proofs.Symbols.Sample
/-!
# Names of parameters in overrides

The parameters of an action stand in its override next to names that the override needs for
something else: its variable, and the members that know the route identity. What an expression
evaluates to depends on the parameters only through the names it refers to, so an override passes on
the identity of its class if no parameter has such a name. Otherwise it does not: with arguments
that are no text, there is no identity left. Of the names in question an action cannot have `Area`,
which is a key of the identity in whatever letter case; nothing keeps it from having the others.
-/

namespace RouteLinks

namespace Expression

def names : Expression → List String
  | .identifier name => [name]
  | .member object _ => [object]
  | .text _ => []

end Expression

/-- What an expression evaluates to depends on what its names mean. -/
theorem Frame.eval?_congr {f g : Frame} {e : Expression}
    (h : ∀ name ∈ e.names, f.meaning? name = g.meaning? name) : f.eval? e = g.eval? e := by
  cases e with
  | identifier name => rw [eval?, eval?, h name List.mem_cons_self]
  | member object name => rw [eval?, eval?, h object List.mem_cons_self]
  | text s => rfl

namespace Action

/-- The names that an override uses for something other than a parameter. -/
def ownNames (a : Action) : List String :=
  resultVariable :: a.identityArguments.flatMap Expression.names

theorem ownNames_eq (a : Action) :
    a.ownNames = [resultVariable, "Area", "Name", actionNamesMember] := by
  rw [ownNames, identityArguments]
  cases a.protocol with
  | none => rfl
  | some protocol => cases hempty : protocol.isEmpty <;> simp [hempty, Expression.names]

end Action

theorem bareName_of_mem_ownNames {a : Action} {name : String} (h : name ∈ a.ownNames) :
    bareName name = name := by
  have hall : ∀ name ∈ [Action.resultVariable, "Area", "Name", actionNamesMember],
      bareName name = name := by decide
  exact hall name (a.ownNames_eq ▸ h)

namespace Controller

variable {c : Controller} {a : Action} {args : List RouteValue}

def ownFrame (c : Controller) : Frame := { parameters := [], members := c.membersForOverrides }

theorem meaning?_ownFrame (c : Controller) (name : String) :
    c.ownFrame.meaning? name = c.membersForOverrides.lookup (bareName name) :=
  Frame.meaning?_of_not_mem List.not_mem_nil

/-- The override of an action, when it is called with some arguments, can declare its variable and
passes on the route identity that its class has without them. -/
structure KeepsIdentity (c : Controller) (a : Action) (args : List RouteValue) : Prop where
  declares : (c.frameOf a args).parameters.lookup Action.resultVariable = none
  passes : a.identityArguments.map (c.frameOf a args).eval? =
    a.identityArguments.map c.ownFrame.eval?

/-- An override keeps the identity if no parameter has one of its own names. -/
theorem keepsIdentity_of_free (hlength : args.length = a.parameters.length)
    (hfree : ∀ p ∈ a.parameters, bareName p.name ∉ a.ownNames) : c.KeepsIdentity a args := by
  have hkeys : ∀ name ∈ a.ownNames, name ∉ a.routeKeys := by
    intro name hname hmem
    obtain ⟨p, hp, rfl⟩ := List.mem_map.mp hmem
    exact hfree p hp hname
  constructor
  case declares =>
    rw [← Option.not_isSome_iff_eq_none, lookup_isSome_iff, map_fst_frameOf hlength]
    exact hkeys _ List.mem_cons_self
  case passes =>
    apply List.map_congr_left
    intro e he
    apply Frame.eval?_congr
    intro name hname
    have hown : name ∈ a.ownNames :=
      List.mem_cons_of_mem _ (List.mem_flatMap.mpr ⟨e, he, hname⟩)
    rw [meaning?_frameOf ((bareName_of_mem_ownNames hown).symm ▸ hkeys name hown),
      meaning?_ownFrame]

theorem exists_eval?_ownFrame (ha : a ∈ c.actions) {e : Expression}
    (he : e ∈ a.identityArguments) : ∃ s, c.ownFrame.eval? e = some (.text s) := by
  -- The frame of the same action without parameters is the one of the members.
  let bare : Action := { a with method := { a.method with parameters := [] } }
  have hframe : c.frameOf bare [] = c.ownFrame := rfl
  have hnone : ∀ name, name ∉ bare.routeKeys := fun _ => List.not_mem_nil
  have haction : (c.frameOf bare []).eval? (.member actionNamesMember a.name) =
      ((c.namesake? bare).map (·.routeName)).map RouteValue.text :=
    eval?_actionName (hnone actionNamesMember)
  have hnamesake : (c.namesake? bare).isSome = true :=
    List.find?_isSome.mpr ⟨a, ha, beq_self_eq_true (bareName a.name)⟩
  obtain ⟨b, hb⟩ := Option.isSome_iff_exists.mp hnamesake
  rw [hb, hframe] at haction
  have hthree : ∀ e ∈ [Expression.identifier "Area", .identifier "Name",
      .member actionNamesMember a.name], ∃ s, c.ownFrame.eval? e = some (.text s) := by
    simp only [List.forall_mem_cons, List.not_mem_nil, false_imp_iff, implies_true, and_true]
    exact ⟨⟨_, hframe ▸ eval?_area (hnone _)⟩, ⟨_, hframe ▸ eval?_name (hnone _)⟩, ⟨_, haction⟩⟩
  rw [Action.identityArguments] at he
  split at he
  · split at he
    · exact hthree e he
    · rcases List.mem_append.mp he with he | he
      · exact hthree e he
      · rw [List.mem_singleton.mp he]
        exact ⟨_, Frame.eval?_text _ _⟩
  · exact hthree e he

theorem eval?_null_ne_text {name : String} (hbare : bareName name = name)
    (hmem : name ∈ a.routeKeys) {e : Expression} (hname : name ∈ e.names) (s : String) :
    (c.frameOf a (List.replicate a.parameters.length .null)).eval? e ≠ some (.text s) := by
  have hmeaning := meaning?_null (c := c) hbare hmem
  cases e with
  | identifier other =>
      obtain rfl := List.mem_singleton.mp hname
      rw [Frame.eval?, hmeaning]
      intro htext
      cases htext
  | member object field =>
      obtain rfl := List.mem_singleton.mp hname
      rw [Frame.eval?, hmeaning]
      intro htext
      cases htext
  | text s => cases hname

/-- An override that keeps the identity even without values has no parameter with one of its own
names. -/
theorem free_of_keepsIdentity (ha : a ∈ c.actions)
    (h : c.KeepsIdentity a (List.replicate a.parameters.length .null)) :
    ∀ name ∈ a.ownNames, name ∉ a.routeKeys := by
  intro name hname hmem
  rcases List.mem_cons.mp hname with rfl | hidentity
  · have hdeclared := map_fst_frameOf (c := c)
      (List.length_replicate (n := a.parameters.length) (a := RouteValue.null))
    rw [← hdeclared, ← lookup_isSome_iff, h.declares] at hmem
    cases hmem
  · obtain ⟨e, he, hrefers⟩ := List.mem_flatMap.mp hidentity
    obtain ⟨s, hs⟩ := exists_eval?_ownFrame ha he
    have hsame := List.map_inj_left.mp h.passes e he
    exact eval?_null_ne_text (bareName_of_mem_ownNames hname) hmem hrefers s (hsame.trans hs)

/-- When an override is hygienic: no parameter has one of the names that it uses for something else;
or, which is the same, it keeps the identity of its class whatever the arguments are. The keys of
the identity are kept from actions, so of these names three are left to look at. -/
theorem hygienic_tfae {m : Model} (hc : c ∈ all m) (ha : a ∈ c.actions) :
    [∀ p ∈ a.parameters, bareName p.name ∉ a.ownNames,
      ∀ args, args.length = a.parameters.length → c.KeepsIdentity a args,
      ∀ p ∈ a.parameters,
        bareName p.name ∉ [Action.resultVariable, "Name", actionNamesMember]].TFAE := by
  tfae_have 1 → 2 := fun hfree _ hlength => keepsIdentity_of_free hlength hfree
  tfae_have 2 → 3 := by
    intro hkeeps p hp hown
    refine free_of_keepsIdentity ha (hkeeps _ List.length_replicate) (bareName p.name) ?_
      (List.mem_map_of_mem hp)
    rw [Action.ownNames_eq]
    revert hown
    generalize bareName p.name = name
    simp only [List.mem_cons]
    tauto
  tfae_have 3 → 1 := by
    intro hfree p hp hown
    obtain ⟨symbol, _, rfl⟩ := mem_all.mp hc
    obtain ⟨⟨_, hqualifies⟩, _⟩ := of_mem_actions_ofClass ha
    rw [Action.ownNames_eq] at hown
    have hrest := hfree p hp
    have harea : bareName p.name ≠ "Area" := by
      intro hname
      have hkey := hqualifies.isIdentityKey_eq_false hp
      rw [routeKey_eq, hname] at hkey
      revert hkey
      decide
    simp only [List.mem_cons, List.not_mem_nil, or_false] at hown hrest
    tauto
  tfae_finish

def itemFile (parameter : String) : SourceFile :=
  .home [("Item", .action [{ name := parameter, type := some "string" }])]

theorem keepsIdentity_parameter_id :
    ∃ c ∈ all (Model.ofFiles [itemFile "@id"]), ∃ a ∈ c.actions, a.memberName = "Item" ∧
      ∀ args, args.length = a.parameters.length → c.KeepsIdentity a args := by
  have hfound : ∃ c ∈ all (Model.ofFiles [itemFile "@id"]), ∃ a ∈ c.actions,
      a.memberName = "Item" ∧ ∀ p ∈ a.parameters,
        bareName p.name ∉ [Action.resultVariable, "Name", actionNamesMember] := by decide
  obtain ⟨c, hc, a, ha, hname, hfree⟩ := hfound
  exact ⟨c, hc, a, ha, hname, ((hygienic_tfae hc ha).out 2 1).mp hfree⟩

/-- A parameter of another name than the keys of the identity can take the place of a member: the
override answers with the controller that the argument says. -/
theorem not_free_parameter_name :
    ∃ c ∈ all (Model.ofFiles [itemFile "Name"]), ∃ a ∈ c.actions,
      (∃ p ∈ a.parameters, bareName p.name ∈ a.ownNames) ∧
        (c.describe a.memberName [.text "Other"] []).toOption.map (·.controller) = some "Home" ∧
        (c.answerOf? Char.toLower a [.text "Other"]).map (·.controller) = some "Other" := by
  decide

end Controller

end RouteLinks
