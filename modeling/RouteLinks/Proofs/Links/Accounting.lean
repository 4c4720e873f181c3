import RouteLinks.Proofs.Links.Registry
import RouteLinks.Proofs.Routes.Overridable
import RouteLinks.Proofs.Symbols.Sample
/-!
# What becomes of the methods of controllers

A method that a controller offers is linked or reported, and no other method is either. The verdict
is given where the method is declared: a controller that has the method from a base links it only if
the base does, and reports nothing. So a run has one report for each offered method that gets no
link, however many controllers descend from the one that declares it.
-/

namespace RouteLinks

/-! ### Verdicts -/

/-- A method that is offered as an action, where `inherited` has the signatures of the controllers
above its class. An override of something else belongs to the framework. -/
structure Method.IsOffered (inherited : List Signature) (x : Method) : Prop where
  isPublic : x.isPublic = true
  notStatic : x.isStatic = false
  notGeneric : x.isGeneric = false
  notExempt : x.hasAttribute "NonAction" = false
  overridden : "override" ∈ x.modifiers → x.signature ∈ inherited

inductive Verdict where
  | linked (action : Action)
  | reported (diagnostic : Diagnostic)
  | passedOver

namespace Verdict

def action? : Verdict → Option Action
  | linked a => some a
  | _ => none

def diagnostic? : Verdict → Option Diagnostic
  | reported d => some d
  | _ => none

end Verdict

namespace Method

def report (owner : Class) (x : Method) (kind : DiagnosticKind) (message : String) : Diagnostic :=
  { kind, subject := owner.name ++ "." ++ x.name, message
    filePath := some x.filePath, line := x.startLine }

/-- The verdict on a method of a class: its action, or the report on all its parameters that cannot
be passed on, or else the report on what keeps the method itself from being overridden. A method
that is not offered is passed over. -/
inductive HasVerdict (owner : Class) (inherited : List Signature) (x : Method) : Verdict → Prop
  | linked {a : Action} (offered : x.IsOffered inherited) (noProblems : x.problems = [])
      (notSealed : "sealed" ∉ x.modifiers)
      (hasShape : ResultShape.ofType? x.returnType = some a.shape) (method : a.method = x) :
      HasVerdict owner inherited x (.linked a)
  | parameters (offered : x.IsOffered inherited) (problems : x.problems ≠ []) :
      HasVerdict owner inherited x (.reported (x.report owner .unsupportedParameter
        ("excluded from generated links: " ++ "; ".intercalate (x.problems.map fun (name, o) =>
          "parameter '" ++ name ++ "' " ++ o.message))))
  | isSealed (offered : x.IsOffered inherited) (noProblems : x.problems = [])
      (isSealed : "sealed" ∈ x.modifiers) :
      HasVerdict owner inherited x (.reported (x.report owner .unsupportedMethod
        "excluded from generated links: method is sealed"))
  | returnType (offered : x.IsOffered inherited) (noProblems : x.problems = [])
      (notSealed : "sealed" ∉ x.modifiers) (noShape : ResultShape.ofType? x.returnType = none) :
      HasVerdict owner inherited x (.reported (x.report owner .unsupportedMethod
        ("excluded from generated links: return type '" ++ x.returnType.getD "None" ++
          "' has no result descriptor")))
  | passedOver (notOffered : ¬ x.IsOffered inherited) : HasVerdict owner inherited x .passedOver

variable {owner : Class} {inherited : List Signature} {x : Method}

theorem isOffered_iff : x.IsOffered inherited ↔
    (!x.isPublic || x.isStatic || x.isGeneric) = false ∧ x.hasAttribute "NonAction" = false ∧
      (x.modifiers.contains "override" && !inherited.contains x.signature) = false := by
  have hoverridden : (x.modifiers.contains "override" && !inherited.contains x.signature) = false ↔
      ("override" ∈ x.modifiers → x.signature ∈ inherited) := by simp
  simp only [hoverridden, Bool.or_eq_false_iff, Bool.not_eq_false']
  constructor
  · rintro ⟨hpublic, hstatic, hgeneric, hexempt, hoverride⟩
    exact ⟨⟨⟨hpublic, hstatic⟩, hgeneric⟩, hexempt, hoverride⟩
  · rintro ⟨⟨⟨hpublic, hstatic⟩, hgeneric⟩, hexempt, hoverride⟩
    exact ⟨hpublic, hstatic, hgeneric, hexempt, hoverride⟩

theorem routing_of_isOffered (h : x.IsOffered inherited) : x.routing inherited =
    if !x.problems.isEmpty then .excluded (.parameters x.problems)
    else if x.modifiers.contains "sealed" then .excluded .isSealed
    else
      match ResultShape.ofType? x.returnType with
      | some shape => .action shape
      | none => .excluded (.returnType x.returnType) := by
  obtain ⟨haccess, hexempt, hoverride⟩ := isOffered_iff.mp h
  rw [routing, haccess, hexempt, hoverride]
  rfl

theorem routing_of_not_isOffered (h : ¬ x.IsOffered inherited) : x.routing inherited = .other := by
  rw [isOffered_iff] at h
  rw [routing]
  split_ifs with haccess hexempt hoverride
  all_goals first | rfl | simp_all

theorem Qualifies.isOffered (h : x.Qualifies inherited) : x.IsOffered inherited :=
  ⟨h.isPublic, h.notStatic, h.notGeneric, h.notExempt, h.overridden⟩

theorem Qualifies.hasVerdict (h : x.Qualifies inherited) {a : Action} (hmethod : a.method = x)
    (hshape : ResultShape.ofType? x.returnType = some a.shape) (owner : Class) :
    x.HasVerdict owner inherited (.linked a) :=
  .linked h.isOffered h.noProblems h.notSealed hshape hmethod

theorem diagnostic?_of_isAction (h : x.isAction inherited = true) :
    x.diagnostic? owner inherited = none := by
  rw [isAction] at h
  rw [diagnostic?]
  split at h
  · next hrouting => rw [hrouting]
  · cases h

theorem diagnostic?_of_excluded {reason : ActionObstacle}
    (h : x.routing inherited = .excluded reason) :
    x.diagnostic? owner inherited = some (x.report owner reason.kind reason.message) := by
  rw [diagnostic?, h]
  rfl

/-- A method that gets no action is reported as the verdict says. -/
theorem exists_verdict (owner : Class) (h : x.isAction inherited = false) :
    ∃ v, x.HasVerdict owner inherited v ∧ v.action? = none ∧
      v.diagnostic? = x.diagnostic? owner inherited := by
  by_cases hoffered : x.IsOffered inherited
  · have hrouting := routing_of_isOffered hoffered
    by_cases hproblems : x.problems = []
    · rw [hproblems, List.isEmpty_nil, Bool.not_true, if_neg Bool.false_ne_true] at hrouting
      by_cases hsealed : "sealed" ∈ x.modifiers
      · rw [if_pos (List.contains_iff_mem.mpr hsealed)] at hrouting
        exact ⟨_, .isSealed hoffered hproblems hsealed, rfl,
          (diagnostic?_of_excluded hrouting).symm⟩
      · rw [if_neg (mt List.contains_iff_mem.mp hsealed)] at hrouting
        cases hshape : ResultShape.ofType? x.returnType with
        | some shape =>
            rw [hshape] at hrouting
            rw [isAction, hrouting] at h
            cases h
        | none =>
            rw [hshape] at hrouting
            exact ⟨_, .returnType hoffered hproblems hsealed hshape, rfl,
              (diagnostic?_of_excluded hrouting).symm⟩
    · rw [if_pos (by simpa using hproblems)] at hrouting
      exact ⟨_, .parameters hoffered hproblems, rfl, (diagnostic?_of_excluded hrouting).symm⟩
  · refine ⟨_, .passedOver hoffered, rfl, ?_⟩
    rw [diagnostic?, routing_of_not_isOffered hoffered]
    rfl

/-- Methods in their order have verdicts that account for the actions made of them and for the
reports on them. -/
theorem exists_verdicts (owner : Class) (inherited : List Signature) {methods : List Method}
    {actions : List Action}
    (hactions : actions.map Action.method = methods.filter (·.isAction inherited))
    (hshapes : ∀ a ∈ actions, ResultShape.ofType? a.method.returnType = some a.shape) :
    ∃ verdicts, List.Forall₂ (HasVerdict owner inherited) methods verdicts ∧
      verdicts.filterMap Verdict.action? = actions ∧
      verdicts.filterMap Verdict.diagnostic? =
        methods.filterMap (diagnostic? owner inherited) := by
  induction methods generalizing actions with
  | nil =>
      rw [List.filter_nil, List.map_eq_nil_iff] at hactions
      exact ⟨[], .nil, hactions.symm, rfl⟩
  | cons x rest ih =>
      rw [List.filter_cons] at hactions
      cases haction : x.isAction inherited with
      | true =>
          rw [haction, if_pos rfl] at hactions
          obtain ⟨a, actions, rfl, hmethod, hactions⟩ := List.map_eq_cons_iff.mp hactions
          obtain ⟨hshape, hshapes⟩ := List.forall_mem_cons.mp hshapes
          obtain ⟨verdicts, hverdicts, rfl, hreports⟩ := ih hactions hshapes
          have hqualifies := (isAction_iff inherited x).mp haction
          refine ⟨_, .cons (hqualifies.hasVerdict hmethod (hmethod ▸ hshape) owner) hverdicts,
            rfl, ?_⟩
          rw [List.filterMap_cons_none (diagnostic?_of_isAction haction), ← hreports]
          rfl
      | false =>
          rw [haction, if_neg Bool.false_ne_true] at hactions
          obtain ⟨v, hv, hnone, hreport⟩ := exists_verdict owner haction
          obtain ⟨verdicts, hverdicts, hlinked, hreports⟩ := ih hactions hshapes
          refine ⟨v :: verdicts, .cons hv hverdicts, ?_, ?_⟩
          · rw [List.filterMap_cons_none hnone, hlinked]
          · rw [List.filterMap_cons, List.filterMap_cons, hreport, hreports]

end Method

/-! ### Controllers -/

namespace Model

variable {m : Model}

def signaturesAbove (m : Model) (c : Class) : List Signature :=
  (((m.ancestry c).chain.drop 1).filter fun b => m.discover b == .controller).flatMap fun b =>
    b.methods.map Method.signature

theorem signaturesAbove_eq (hnodup : (m.classes.map Class.qualifiedName).Nodup) (c : Class) :
    m.signaturesAbove c =
      Controller.signatures (Controller.runOf m) ((m.ancestry c).chain.drop 1) := by
  obtain ⟨bases, hchain, hbases⟩ := m.chain_ancestry c
  rw [signaturesAbove, Controller.signatures, hchain, List.drop_succ_cons, List.drop_zero]
  congr 1
  refine List.filter_congr fun b hb => ?_
  rw [Bool.eq_iff_iff, beq_iff_eq, List.contains_iff_mem]
  constructor
  · intro hcontroller
    exact List.mem_map_of_mem (mem_controllers.mpr ⟨hbases b hb, hcontroller⟩)
  · intro hname
    exact (mem_controllers.mp (mem_controllers_of_qualifiedName hnodup (hbases b hb) hname)).2

end Model

namespace Controller

variable {m : Model}

/-- What a controller has is accounted for: its reports are those on its own methods, and besides
the actions for these it has such as a controller above it has for its own. -/
structure IsAccounted (m : Model) (c : Controller) : Prop where
  verdicts : ∃ verdicts inherited,
    List.Forall₂ (Method.HasVerdict c.symbol (m.signaturesAbove c.symbol)) c.symbol.methods
      verdicts ∧
    c.diagnostics = verdicts.filterMap Verdict.diagnostic? ∧
    c.actions = verdicts.filterMap Verdict.action? ++ inherited ∧
    ∀ a ∈ inherited, ∃ d ∈ all m, d.symbol ∈ (m.ancestry c.symbol).chain.drop 1 ∧
      a.method ∈ d.symbol.methods ∧ ∃ b ∈ d.actions,
        a.method.HasVerdict d.symbol (m.signaturesAbove d.symbol) (.linked b)

/-- An inherited action is one that a controller above has for a method of its own. -/
theorem exists_declaring_of_mem_inheritedActions
    (hnodup : (m.classes.map Class.qualifiedName).Nodup) {symbol : Class}
    (hsymbol : symbol ∈ m.controllers) {bases : List Class}
    (hchain : (m.ancestry symbol).chain = symbol :: bases) {seen : List Signature} {x : Method}
    (hx : x ∈ inheritedActions (runOf m) seen bases) :
    ∃ d ∈ all m, d.symbol ∈ bases ∧ x ∈ d.symbol.methods ∧ ∃ b ∈ d.actions,
      x.HasVerdict d.symbol (m.signaturesAbove d.symbol) (.linked b) := by
  obtain ⟨_, before, base, further, rfl, hrun, hmethod, hqualifies, _⟩ := mem_inheritedActions hx
  have hsplit : (m.ancestry symbol).chain = (symbol :: before) ++ base :: further := hchain
  obtain ⟨hbase, hown⟩ := controller_of_mem_chain hnodup hsymbol hsplit hrun
  obtain ⟨b, hb, hsame⟩ : ∃ b ∈ (ofClass m (runOf m) base).actions, b.method = x :=
    exists_action_of_qualifies hown hmethod hqualifies
  refine ⟨_, mem_all.mpr ⟨base, hbase, rfl⟩, List.mem_append_right _ List.mem_cons_self, hmethod,
    b, hb, ?_⟩
  show x.HasVerdict base (m.signaturesAbove base) (.linked b)
  rw [Model.signaturesAbove_eq hnodup, hown, List.drop_succ_cons, List.drop_zero]
  have hshape := (mem_assign (actions_ofClass hown ▸ hb)).2.1
  exact hqualifies.hasVerdict hsame (hsame ▸ hshape) base

theorem diagnostics_ofClass {run : List String} {symbol : Class} {bases : List Class}
    (hchain : (m.ancestry symbol).chain = symbol :: bases) :
    (ofClass m run symbol).diagnostics =
      symbol.methods.filterMap (Method.diagnostic? symbol (signatures run bases)) := by
  simp only [ofClass, hchain, List.drop_succ_cons, List.drop_zero]

theorem isAccounted_of_mem_all (hnodup : (m.classes.map Class.qualifiedName).Nodup)
    {c : Controller} (hc : c ∈ all m) : c.IsAccounted m := by
  obtain ⟨symbol, hsymbol, rfl⟩ := mem_all.mp hc
  obtain ⟨bases, hchain, -⟩ := m.chain_ancestry symbol
  have habove : m.signaturesAbove symbol = signatures (runOf m) bases := by
    rw [Model.signaturesAbove_eq hnodup, hchain, List.drop_succ_cons, List.drop_zero]
  have hmethods := map_method_assign_actionMethods (ofClass m (runOf m) symbol).protocol
    (runOf m) symbol bases
  rw [← actions_ofClass hchain, actionMethods] at hmethods
  obtain ⟨own, inherited, hactions, hown, hinherited⟩ := List.map_eq_append_iff.mp hmethods
  have hshapes : ∀ a ∈ own, ResultShape.ofType? a.method.returnType = some a.shape := by
    intro a ha
    have hmem : a ∈ (ofClass m (runOf m) symbol).actions :=
      hactions ▸ List.mem_append_left _ ha
    exact (mem_assign (actions_ofClass hchain ▸ hmem)).2.1
  obtain ⟨verdicts, hverdicts, hlinked, hreported⟩ :=
    Method.exists_verdicts symbol (signatures (runOf m) bases) hown hshapes
  refine ⟨verdicts, inherited, ?_, ?_, ?_, ?_⟩
  · show List.Forall₂ (Method.HasVerdict symbol (m.signaturesAbove symbol)) symbol.methods verdicts
    rw [habove]
    exact hverdicts
  · rw [diagnostics_ofClass hchain, hreported]
  · rw [hlinked]
    exact hactions
  · intro a ha
    show ∃ d ∈ all m, d.symbol ∈ (m.ancestry symbol).chain.drop 1 ∧ _
    rw [hchain]
    exact exists_declaring_of_mem_inheritedActions hnodup hsymbol hchain
      (hinherited ▸ List.mem_map_of_mem ha)

end Controller

/-! ### Runs -/

/-- Whether a finding is about a method that gets no link. -/
def DiagnosticKind.isUnsupported (kind : DiagnosticKind) : Bool :=
  beginsWith kind.name "unsupported_"

theorem ActionObstacle.isUnsupported_kind (o : ActionObstacle) : o.kind.isUnsupported = true := by
  have hparameter : DiagnosticKind.isUnsupported .unsupportedParameter = true := by decide
  have hmethod : DiagnosticKind.isUnsupported .unsupportedMethod = true := by decide
  cases o with
  | parameters => exact hparameter
  | isSealed => exact hmethod
  | returnType => exact hmethod

theorem Method.isUnsupported_of_diagnostic? {owner : Class} {inherited : List Signature}
    {x : Method} {d : Diagnostic} (h : x.diagnostic? owner inherited = some d) :
    d.kind.isUnsupported = true := by
  rw [diagnostic?] at h
  split at h
  · next reason _ =>
    cases h
    exact reason.isUnsupported_kind
  · cases h

namespace Links

/-- A run in which every method of every controller is accounted for: each controller is there once,
and the reports on methods are those that the controllers have on their own. -/
structure Accounts (l : Links) : Prop where
  once : (l.controllers.map Controller.qualifiedName).Nodup
  accounted : ∀ c ∈ l.controllers, c.IsAccounted l.model
  reports : ∀ staticLinks rewrites,
    (l.generation staticLinks rewrites).diagnostics.filter (·.kind.isUnsupported) =
      l.controllers.flatMap Controller.diagnostics

theorem filter_isUnsupported_diagnostics (l : Links) :
    l.diagnostics.filter (·.kind.isUnsupported) = l.controllers.flatMap Controller.diagnostics := by
  have hdiscovery : l.model.discoveryDiagnostics.filter (·.kind.isUnsupported) = [] := by
    refine List.filter_eq_nil_iff.mpr fun d hd => ?_
    rw [Model.kind_of_mem_discoveryDiagnostics hd]
    decide
  have hregistry : (l.registry.filterMap (·.diagnostic?)).filter (·.kind.isUnsupported) = [] := by
    refine List.filter_eq_nil_iff.mpr fun d hd => ?_
    obtain ⟨e, _, he⟩ := List.mem_filterMap.mp hd
    rw [RegistryEntry.kind_of_diagnostic? he]
    decide
  have hmethods : (l.controllers.flatMap Controller.diagnostics).filter (·.kind.isUnsupported) =
      l.controllers.flatMap Controller.diagnostics := by
    refine List.filter_eq_self.mpr fun d hd => ?_
    obtain ⟨c, hc, hd⟩ := List.mem_flatMap.mp hd
    obtain ⟨symbol, _, rfl⟩ := Controller.mem_all.mp hc
    obtain ⟨x, _, hx⟩ := List.mem_filterMap.mp hd
    exact Method.isUnsupported_of_diagnostic? hx
  rw [diagnostics, List.filter_append, List.filter_append, hdiscovery, hregistry, hmethods,
    List.nil_append, List.append_nil]

/-- No method of a controller is dropped without a report, and none is reported twice. -/
theorem accounts_ofFiles (s : Settings) (files : List SourceFile) (projectRoot : String) :
    Accounts ⟨s, Model.ofFiles files, projectRoot⟩ where
  once := Controller.nodup_all files
  accounted _ hc := Controller.isAccounted_of_mem_all (Model.nodup_ofFiles files) hc
  reports _ _ := filter_isUnsupported_diagnostics _

def reportedFile : SourceFile :=
  .sample
    [.sampleClass "BaseController",
     .sampleMethod "BaseController" "Find"
       (.action [{ name := "id", type := some "int", modifiers := ["ref"] }]),
     .sampleClass "HomeController" (some "BaseController"),
     .sampleClass "ShopController" (some "HomeController")]

example : (Links.mk {} (Model.ofFiles [reportedFile]) "").diagnostics.map
    (fun d => (d.kind.name, d.subject)) = [("unsupported_parameter", "BaseController.Find")] := by
  decide +kernel

end Links

end RouteLinks
