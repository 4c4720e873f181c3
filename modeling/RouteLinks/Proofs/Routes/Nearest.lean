import RouteLinks.Proofs.Routes.Actions
import RouteLinks.Proofs.Routes.EditedController
import RouteLinks.Proofs.Routes.Overridable
import RouteLinks.Proofs.Symbols.Sample
/-!
# The nearest declaration counts

A controller has an action of a base only if no controller in between declares a method of that
signature, be it an action or not, and only if it has no action of that signature itself. Classes in
between that are no controllers of the run are passed over with all that they declare. A method of
the controller itself that is no action keeps nothing out, though it may close what it overrides.
-/

namespace RouteLinks

theorem Method.Qualifies.mono {inherited more : List Signature} {x : Method}
    (h : x.Qualifies inherited) (hsubset : inherited ⊆ more) : x.Qualifies more :=
  { h with overridden := fun hmodifier => hsubset (h.overridden hmodifier) }

/-- An action comes down to a controller from a base: the base is a controller of the run and
declares the method, no controller between the two declares one of that signature, and the
controller itself has no action of that signature. -/
structure Action.ComesFrom (m : Model) (c : Controller) (base : Class) (a : Action) : Prop where
  isController : base.qualifiedName ∈ Controller.runOf m
  declared : a.method ∈ base.methods
  nearest : ∃ between further,
    (m.ancestry c.symbol).chain = c.symbol :: (between ++ base :: further) ∧
      ∀ d ∈ between, d.qualifiedName ∈ Controller.runOf m →
        ∀ x ∈ d.methods, x.signature ≠ a.method.signature
  notOwn : ∀ b ∈ c.actions, b.method ∈ c.symbol.methods →
    b.method.signature ≠ a.method.signature

namespace Controller

theorem signatures_subset {run : List String} {some all : List Class} (h : some ⊆ all) :
    signatures run some ⊆ signatures run all := by
  intro signature hsignature
  obtain ⟨b, hb, hdeclares⟩ := mem_signatures.mp hsignature
  exact mem_signatures.mpr ⟨b, h hb, hdeclares⟩

/-- A method of the class itself that is among its actions is one of its own actions: what a base
requires of a method is no less than what the class requires. -/
theorem mem_own_of_mem_actionMethods {run : List String} {symbol : Class} {bases : List Class}
    {x : Method} (hx : x ∈ actionMethods run symbol bases) (hmethod : x ∈ symbol.methods) :
    x ∈ symbol.methods.filter (·.isAction (signatures run bases)) := by
  rcases List.mem_append.mp hx with hown | hinherited
  · exact hown
  · obtain ⟨_, before, base, further, rfl, _, _, hqualifies, _⟩ := mem_inheritedActions hinherited
    have habove : signatures run further ⊆ signatures run (before ++ base :: further) := by
      apply signatures_subset
      intro b hb
      simp [hb]
    exact List.mem_filter.mpr ⟨hmethod, (Method.isAction_iff _ _).mpr (hqualifies.mono habove)⟩

/-- An action that is not the controller's own comes from the nearest controller above it that
declares its signature. -/
theorem comesFrom_of_mem_actions {m : Model} {c : Controller} (hc : c ∈ all m) {a : Action}
    (ha : a ∈ c.actions) (hinherited : a.method ∉ c.symbol.methods) :
    ∃ base, a.ComesFrom m c base := by
  obtain ⟨symbol, hsymbol, rfl⟩ := mem_all.mp hc
  obtain ⟨bases, hchain, _⟩ := m.chain_ancestry symbol
  have hactions : (ofClass m (runOf m) symbol).actions = _ := actions_ofClass hchain
  rw [hactions] at ha
  have hmethods : a.method ∈ inheritedActions (runOf m)
      ((symbol.methods.filter (·.isAction (signatures (runOf m) bases))).map Method.signature)
      bases := by
    rcases List.mem_append.mp (mem_assign ha).1 with hown | hbase
    · exact absurd (List.mem_filter.mp hown).1 hinherited
    · exact hbase
  obtain ⟨hfresh, between, base, further, rfl, hrun, hdeclared, _, hnearest⟩ :=
    mem_inheritedActions hmethods
  refine ⟨base, hrun, hdeclared, ⟨between, further, hchain, ?_⟩, ?_⟩
  · intro d hd hdrun x hx hsame
    exact hnearest (mem_signatures.mpr ⟨d, hd, hdrun, x, hx, hsame⟩)
  · intro b hb hown hsame
    rw [hactions] at hb
    have hmem := mem_own_of_mem_actionMethods (mem_assign hb).1 hown
    exact hfresh (hsame ▸ List.mem_map_of_mem hmem)

/-- A file in which the class between a controller and its base closes one of the two actions of the
base, and the controller has some methods of its own. -/
def closingFile (typeParameters : List String) (own : List (String × MethodHead)) : SourceFile :=
  let overridable := MethodHead.action [] ["virtual"]
  let closing := MethodHead.action [] ["sealed", "override"]
  let middle : ClassHead :=
    { modifiers := ["public"], base := some "BaseController", typeParameters }
  .sample <|
    [.sampleClass "BaseController",
      .sampleMethod "BaseController" "Index" overridable,
      .sampleMethod "BaseController" "About" overridable,
      { SourceUnit.sampleClass "MiddleController" with head := .ofClass middle },
      .sampleMethod "MiddleController" "Index" closing,
      .sampleClass "HomeController" "MiddleController"] ++
    own.map fun (name, head) => .sampleMethod "HomeController" name head

/-- Where the class in between is a controller, only the action that it leaves open comes down. -/
theorem comesFrom_above_closing_controller :
    ∃ c ∈ all (Model.ofFiles [closingFile [] []]), c.qualifiedName = "HomeController" ∧
      c.actions.map (·.name) = ["About"] ∧
        ∃ a ∈ c.actions, a.method ∉ c.symbol.methods ∧
          ∃ base, a.ComesFrom (Model.ofFiles [closingFile [] []]) c base := by
  have hfound : ∃ c ∈ all (Model.ofFiles [closingFile [] []]), c.qualifiedName = "HomeController" ∧
      c.actions.map (·.name) = ["About"] ∧ ∃ a ∈ c.actions, a.method ∉ c.symbol.methods := by
    decide
  obtain ⟨c, hc, hname, hactions, a, ha, hinherited⟩ := hfound
  exact ⟨c, hc, hname, hactions, a, ha, hinherited, comesFrom_of_mem_actions hc ha hinherited⟩

/-- The class in between is generic, and so no controller, and the controller closes the other
action itself, by a method that is no action. -/
abbrev twiceClosedFile : SourceFile :=
  closingFile ["T"] [("About", .action [] ["sealed", "override"])]

/-- The action that a class closes which is no controller comes down, and so does the action that
the controller itself closes. -/
theorem action_beyond_closing_class :
    ∃ c ∈ all (Model.ofFiles [twiceClosedFile]),
      ((Model.ofFiles [twiceClosedFile]).ancestry c.symbol).chain.map (·.qualifiedName) =
          ["HomeController", "MiddleController", "BaseController"] ∧
        (∃ a ∈ c.actions, a.declaringClass = "BaseController" ∧ a.method ∉ c.symbol.methods ∧
          ∃ d ∈ (Model.ofFiles [twiceClosedFile]).classes, d.qualifiedName = "MiddleController" ∧
            ∃ x ∈ d.methods, x.signature = a.method.signature) ∧
        ∃ a ∈ c.actions, a.declaringClass = "BaseController" ∧ a.method ∉ c.symbol.methods ∧
          ∃ x ∈ c.symbol.methods, x.signature = a.method.signature := by
  decide

end Controller

end RouteLinks
