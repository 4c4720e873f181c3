import RouteLinks.Links.Run
import RouteLinks.Proofs.Routes.EditedController
/-!
# A second run

The generated files, the reports and the registry are made from controllers, and nothing in them
tells a controller from what edits have made of it. So a run over the edited sources makes the
same files to the byte, and it has nothing left to edit.
-/

namespace RouteLinks

variable {edits : List SourceEdit}

/-! ### Declarations -/

namespace Action.Becomes

variable {a b : Action}

theorem eq (h : a.Becomes edits b) :
    b = { a with
      method := { a.method with
        modifiers := b.method.modifiers
        returnTypeAt := b.method.returnTypeAt } } := by
  rw [← h.method.same]
  exact h.same

theorem parameters_eq (h : a.Becomes edits b) : b.parameters = a.parameters := by
  rw [h.eq]
  rfl

theorem name_eq (h : a.Becomes edits b) : b.name = a.name := by
  rw [h.eq]
  rfl

end Action.Becomes

namespace Controller.Becomes

variable {c d : Controller}

theorem className_eq (h : c.Becomes edits d) : d.className = c.className :=
  h.symbol.name_eq

theorem scope_eq (h : c.Becomes edits d) : d.scope = c.scope :=
  h.symbol.scope_eq

theorem filePath_eq (h : c.Becomes edits d) : d.filePath = c.filePath :=
  h.symbol.filePath_eq

theorem qualifiedName_eq (h : c.Becomes edits d) : d.qualifiedName = c.qualifiedName :=
  h.symbol.qualifiedName_eq

theorem isAbstract_eq (h : c.Becomes edits d) : d.isAbstract = c.isAbstract :=
  h.symbol.contains_modifiers _ (by decide)

theorem companionName_eq (h : c.Becomes edits d) : d.companionName = c.companionName := by
  rw [companionName, companionName, h.className_eq]

theorem companionQualifiedName_eq (h : c.Becomes edits d) :
    d.companionQualifiedName = c.companionQualifiedName := by
  rw [companionQualifiedName, companionQualifiedName, h.scope_eq, h.companionName_eq]

theorem name_eq (h : c.Becomes edits d) : d.name = c.name := by
  rw [h.same]

theorem area_eq (h : c.Becomes edits d) : d.area = c.area := by
  rw [h.same]

theorem usings_eq (h : c.Becomes edits d) : d.usings = c.usings := by
  rw [h.same]

theorem diagnostics_eq (h : c.Becomes edits d) : d.diagnostics = c.diagnostics := by
  rw [h.same]

theorem constructors_eq (h : c.Becomes edits d) : d.constructors = c.constructors := by
  have hbase : d.baseController = c.baseController := by rw [h.same]
  have hwritten : d.symbol.hasConstructors = c.symbol.hasConstructors := by rw [h.symbol.same]
  simp only [constructors, h.className_eq, hbase, hwritten]

theorem forall₂_accessorActions_go {actions actions' : List Action} {bare : List String}
    (h : List.Forall₂ (Action.Becomes edits) actions actions') (met : List String) :
    List.Forall₂ (Action.Becomes edits) (accessorActions.go bare met actions)
      (accessorActions.go bare met actions') := by
  induction h generalizing met with
  | nil => exact .nil
  | cons hfirst _ ih =>
      rw [accessorActions.go, accessorActions.go, hfirst.parameters_eq, hfirst.name_eq]
      split
      · exact ih met
      · exact .cons hfirst (ih _)

theorem accessors_eq (h : c.Becomes edits d) :
    d.accessorActions.map accessor = c.accessorActions.map accessor := by
  have hmethods : List.Forall₂ (Method.Becomes edits)
      (c.symbol.methods.filter (·.parameters.isEmpty))
      (d.symbol.methods.filter (·.parameters.isEmpty)) := by
    refine List.rel_filter ?_ h.symbol.methods
    intro x y hmethod
    rw [hmethod.same]
  have hbare : (d.symbol.methods.filter (·.parameters.isEmpty)).map (·.name) =
      (c.symbol.methods.filter (·.parameters.isEmpty)).map (·.name) :=
    map_eq_of_forall₂ hmethods fun x y hmethod => by rw [hmethod.same]
  have hown : List.Forall₂ (Action.Becomes edits) c.ownActions d.ownActions := by
    refine List.rel_filter ?_ h.actions
    intro a b haction
    simp only [haction.declaringClass_eq, h.qualifiedName_eq]
  rw [accessorActions, accessorActions, hbare]
  apply map_eq_of_forall₂ (forall₂_accessorActions_go hown [])
  intro a b haction
  rw [haction.eq]
  rfl

theorem actionNames_eq (h : c.Becomes edits d) : d.actionNames = c.actionNames := by
  rw [actionNames, actionNames]
  refine congrArg firstOfEach (map_eq_of_forall₂ h.actions ?_)
  intro a b haction
  rw [haction.eq]
  rfl

theorem generatedHalf_eq (h : c.Becomes edits d) (s : Settings) (field : Option String) :
    d.generatedHalf s field = c.generatedHalf s field := by
  have hparameters : d.actions.flatMap parameterMembers = c.actions.flatMap parameterMembers :=
    flatMap_eq_of_forall₂ h.actions fun a b haction => by
      rw [haction.eq]
      rfl
  simp only [generatedHalf, registryAccessor, identityMembers, actionNameMembers, h.className_eq,
    h.constructors_eq, h.accessors_eq, h.actionNames_eq, h.area_eq, h.name_eq, hparameters]

theorem companion_eq (h : c.Becomes edits d) : d.companion = c.companion := by
  have hmembers : d.actions.flatMap (fun a => [a.hookDeclaration, a.overrideDeclaration]) =
      c.actions.flatMap fun a => [a.hookDeclaration, a.overrideDeclaration] :=
    flatMap_eq_of_forall₂ h.actions fun a b haction => by
      rw [haction.eq]
      rfl
  simp only [companion, h.companionName_eq, h.className_eq, h.scope_eq, hmembers]

end Controller.Becomes

/-! ### The registry -/

structure RegistryEntry.Becomes (edits : List SourceEdit) (e f : RegistryEntry) : Prop where
  controller : e.controller.Becomes edits f.controller
  same : f = { e with controller := f.controller }

namespace Registry

variable {cs ds : List Controller}

theorem forall₂_order (h : List.Forall₂ (Controller.Becomes edits) cs ds) :
    List.Forall₂ (Controller.Becomes edits) (order cs) (order ds) := by
  have hgroups := forall₂_groupBy Controller.scope h fun _ _ hc => hc.scope_eq
  apply List.rel_flatMap hgroups
  intro g g' hgroup
  exact List.rel_filter (fun c d hc => by simp only [hc.isAbstract_eq]) hgroup.2

theorem forall₂_entriesFrom (h : List.Forall₂ (Controller.Becomes edits) cs ds)
    (taken : List String) :
    List.Forall₂ (RegistryEntry.Becomes edits) (entriesFrom taken cs) (entriesFrom taken ds) := by
  induction h generalizing taken with
  | nil => exact .nil
  | cons hfirst _ ih =>
      rw [entriesFrom, entriesFrom, hfirst.name_eq]
      exact .cons ⟨hfirst, rfl⟩ (ih _)

theorem fieldOf?_eq {entries others : List RegistryEntry}
    (h : List.Forall₂ (RegistryEntry.Becomes edits) entries others) {c d : Controller}
    (hc : c.Becomes edits d) : fieldOf? others d = fieldOf? entries c := by
  have hfound := rel_find? (f := fun e => e.controller.qualifiedName == c.qualifiedName)
    (g := fun e => e.controller.qualifiedName == d.qualifiedName) h fun e f hentry => by
      rw [hentry.controller.qualifiedName_eq, hc.qualifiedName_eq]
  exact map_eq_of_rel hfound fun _ _ hentry => by rw [hentry.same]

end Registry

namespace RegistryEntry.Becomes

variable {e f : RegistryEntry}

theorem declaration_eq (h : e.Becomes edits f) : f.declaration = e.declaration := by
  have hfield : f.field = e.field := by rw [h.same]
  have hclass : qualify f.controller.scope f.controller.className =
      qualify e.controller.scope e.controller.className := by
    rw [h.controller.scope_eq, h.controller.className_eq]
  have hcompanion := h.controller.companionQualifiedName_eq
  unfold declaration Controller.registryField
  rw [hclass, hfield, hcompanion]

theorem diagnostic?_eq (h : e.Becomes edits f) : f.diagnostic? = e.diagnostic? := by
  have hline : f.controller.symbol.startLine = e.controller.symbol.startLine := by
    rw [h.controller.symbol.same]
  have hfield : f.field = e.field := by rw [h.same]
  have hindex : f.index = e.index := by rw [h.same]
  simp only [diagnostic?, hfield, hindex, h.controller.qualifiedName_eq, h.controller.name_eq,
    h.controller.filePath_eq, hline]

end RegistryEntry.Becomes

/-! ### Files and reports -/

namespace Links

def withModel (l : Links) (m : Model) : Links := { l with model := m }

variable {l : Links} {n : Model} {cs ds : List Controller}

theorem forall₂_controllers (h : l.model.Becomes edits n) :
    List.Forall₂ (Controller.Becomes edits) l.controllers (l.withModel n).controllers :=
  Controller.forall₂_all h

theorem forall₂_registry (h : l.model.Becomes edits n) :
    List.Forall₂ (RegistryEntry.Becomes edits) l.registry (l.withModel n).registry :=
  Registry.forall₂_entriesFrom (Registry.forall₂_order (forall₂_controllers h)) _

theorem declarations_eq (h : l.model.Becomes edits n) {c d : Controller} (hc : c.Becomes edits d) :
    (l.withModel n).declarations d = l.declarations c := by
  have hfield := Registry.fieldOf?_eq (forall₂_registry h) hc
  simp only [declarations, hfield, hc.isAbstract_eq, hc.companion_eq]
  rw [hc.generatedHalf_eq]
  rfl

theorem members_eq (h : l.model.Becomes edits n)
    (hcs : List.Forall₂ (Controller.Becomes edits) cs ds) :
    (l.withModel n).members ds = l.members cs := by
  have hgroups := forall₂_groupBy Controller.scope hcs fun _ _ hc => hc.scope_eq
  apply flatMap_eq_of_forall₂ hgroups
  intro g g' hgroup
  obtain ⟨hscope, hgroup⟩ := hgroup
  have hdeclarations : g'.2.flatMap (l.withModel n).declarations = g.2.flatMap l.declarations :=
    flatMap_eq_of_forall₂ hgroup fun _ _ hc => declarations_eq h hc
  have husings : g'.2.flatMap Controller.usings = g.2.flatMap Controller.usings :=
    flatMap_eq_of_forall₂ hgroup fun _ _ hc => hc.usings_eq
  simp only [scopeMembers, hscope, hdeclarations, husings]

theorem sourceFiles_eq (h : l.model.Becomes edits n) :
    (l.withModel n).sourceFiles = l.sourceFiles := by
  have hgroups := forall₂_groupBy Controller.filePath (forall₂_controllers h)
    fun _ _ hc => hc.filePath_eq
  have hfiles : (groupBy Controller.filePath (l.withModel n).controllers).map (fun g =>
        ({ path := l.inProject (generatedPath g.1)
           text := (unitOf l.settings ((l.withModel n).members g.2)).finish } : GeneratedFile)) =
      (groupBy Controller.filePath l.controllers).map fun g =>
        { path := l.inProject (generatedPath g.1)
          text := (unitOf l.settings (l.members g.2)).finish } :=
    map_eq_of_forall₂ hgroups fun g g' hgroup => by
      simp only [hgroup.1, members_eq h hgroup.2]
  exact congrArg (fun files => if l.settings.splitsFiles then files else []) hfiles

theorem registryFields_eq (h : l.model.Becomes edits n) :
    (l.withModel n).registry.map (·.declaration) = l.registry.map (·.declaration) :=
  map_eq_of_forall₂ (forall₂_registry h) fun _ _ hentry => hentry.declaration_eq

theorem aggregateFile_eq (h : l.model.Becomes edits n) (staticLinks : Option Node) :
    (l.withModel n).aggregateFile staticLinks = l.aggregateFile staticLinks := by
  have hmembers := members_eq h (forall₂_controllers h)
  simp only [aggregateFile, registryFields_eq h, hmembers]
  rfl

theorem diagnostics_eq (h : l.model.Becomes edits n) :
    (l.withModel n).diagnostics = l.diagnostics := by
  have hmethods : (l.withModel n).controllers.flatMap (·.diagnostics) =
      l.controllers.flatMap (·.diagnostics) :=
    flatMap_eq_of_forall₂ (forall₂_controllers h) fun _ _ hc => hc.diagnostics_eq
  have hnames : (l.withModel n).registry.filterMap (·.diagnostic?) =
      l.registry.filterMap (·.diagnostic?) :=
    filterMap_eq_of_forall₂ (forall₂_registry h) fun _ _ hentry => hentry.diagnostic?_eq
  rw [diagnostics, diagnostics, hmethods, hnames]
  exact congrArg (· ++ _ ++ _) h.discoveryDiagnostics_eq

theorem rewrites_eq (h : l.model.Becomes (l.controllers.flatMap Controller.edits) n) :
    (l.withModel n).rewrites = .ok [] := by
  have hnone : (l.withModel n).controllers.flatMap (·.edits) = [] :=
    List.flatMap_eq_nil_iff.mpr fun _ hd => Controller.edits_eq_nil h hd
  rw [rewrites, Links.edits, hnone]
  rfl

/-! ### Runs -/

/-- What a run writes before it comes to the sources; the answer is the links to static files. -/
def writeGenerated {μ : Type → Type} [Monad μ] (store : Storage μ) (writes : Bool) (l : Links) :
    ExceptT RunError μ (Option Node) := do
  let write (files : List (String × Bytes)) : ExceptT RunError μ Unit :=
    if writes then store.writeAll files else pure ()
  write (l.sourceFiles.map GeneratedFile.output)
  let staticLinks ← store.staticLinks
  write [(l.aggregateFile staticLinks).output]
  return staticLinks

theorem run_eq_of_rewrites {μ : Type → Type} [Monad μ] [LawfulMonad μ] (store : Storage μ)
    (writes : Bool) {l : Links} {rewrites : List SourceRewrite} (h : l.rewrites = .ok rewrites) :
    l.run store writes = (do
      let staticLinks ← l.writeGenerated store writes
      let write (files : List (String × Bytes)) : ExceptT RunError μ Unit :=
        if writes then store.writeAll files else pure ()
      if l.settings.rewritesSources then write (rewrites.map SourceRewrite.output)
      return l.generation staticLinks rewrites) := by
  simp only [run, writeGenerated, h, bind_assoc, pure_bind]

end Links

/-- A second generation repeats the first: its controllers are those of the first with the modifiers
that the edits put in, and everything else is the same, but that nothing is edited any more. -/
structure Generation.Repeats (edits : List SourceEdit) (g g' : Generation) : Prop where
  controllers : List.Forall₂ (Controller.Becomes edits) g.controllers g'.controllers
  settled : ∀ c ∈ g'.controllers, c.edits = []
  files : g'.files = g.files
  rewrites : g'.rewrites = []
  diagnostics : g'.diagnostics = g.diagnostics
  registryFields : g'.registryFields = g.registryFields

namespace Links

variable {l : Links} {n : Model}

/-- A run over the edited sources writes the generated files as the first run did and nothing
else, and what it makes repeats what the first run made. -/
theorem run_over_edited {μ : Type → Type} [Monad μ] [LawfulMonad μ]
    (h : l.model.Becomes (l.controllers.flatMap Controller.edits) n) (store : Storage μ)
    (writes : Bool) :
    (l.withModel n).run store writes =
        (fun staticLinks => (l.withModel n).generation staticLinks []) <$>
          l.writeGenerated store writes ∧
      ∀ staticLinks rewrites, (l.generation staticLinks rewrites).Repeats
        (l.controllers.flatMap Controller.edits) ((l.withModel n).generation staticLinks []) := by
  constructor
  · have hgenerated :
        (l.withModel n).writeGenerated store writes = l.writeGenerated store writes := by
      simp only [writeGenerated, sourceFiles_eq h, aggregateFile_eq h]
    have hnothing : (if writes then store.writeAll [] else pure () : ExceptT RunError μ Unit) =
        pure () := by
      rw [Storage.writeAll, ite_self]
    simp only [run_eq_of_rewrites store writes (rewrites_eq h), hgenerated, List.map_nil, hnothing,
      pure_bind, ite_self, map_eq_pure_bind]
  · intro staticLinks rewrites
    refine ⟨forall₂_controllers h, fun c hc => Controller.edits_eq_nil h hc, ?_, rfl,
      diagnostics_eq h, registryFields_eq h⟩
    simp only [generation, sourceFiles_eq h, aggregateFile_eq h]

def closedProject : Links :=
  { settings := {}
    model :=
      { classes :=
          [{ name := "HomeController", scope := "", filePath := "A.cs", modifiers := ["public"]
             partialAt := some 7
             methods :=
              [{ name := "Index", containingClass := "HomeController", filePath := "A.cs"
                 returnType := some "IActionResult", modifiers := ["public"]
                 returnTypeAt := some 38 }] }]
        sources := [("A.cs", [])] }
    projectRoot := "." }

def openedModel : Model :=
  { classes :=
      [{ name := "HomeController", scope := "", filePath := "A.cs"
         modifiers := ["public", "partial"]
         methods :=
          [{ name := "Index", containingClass := "HomeController", filePath := "A.cs"
             returnType := some "IActionResult", modifiers := ["public", "virtual"]
             returnTypeAt := some 54 }] }] }

def steadyStorage : Storage Id where
  write _ _ := pure true
  staticLinks := pure none

/-- A run over a project that has been opened by the run before. -/
theorem run_over_opened :
    closedProject.controllers.flatMap Controller.edits =
        [⟨"A.cs", 7, "partial "⟩, ⟨"A.cs", 38, "virtual "⟩] ∧
      closedProject.model.Becomes (closedProject.controllers.flatMap Controller.edits) openedModel ∧
      (closedProject.withModel openedModel).run steadyStorage true =
        (fun staticLinks => (closedProject.withModel openedModel).generation staticLinks []) <$>
          closedProject.writeGenerated steadyStorage true ∧
      (closedProject.generation none []).Repeats
        (closedProject.controllers.flatMap Controller.edits)
        ((closedProject.withModel openedModel).generation none []) := by
  have hedits : closedProject.controllers.flatMap Controller.edits =
      [⟨"A.cs", 7, "partial "⟩, ⟨"A.cs", 38, "virtual "⟩] := by decide
  have hbecomes : closedProject.model.Becomes (closedProject.controllers.flatMap Controller.edits)
      openedModel := by
    rw [hedits]
    refine .cons ⟨rfl, .cons ⟨rfl, fun _ => ⟨["public"], [], rfl, rfl⟩, fun hkept => ?_, rfl⟩ .nil,
      fun _ => ⟨⟨["public"], [], rfl, rfl⟩, rfl⟩, fun hkept => ?_⟩ .nil
    · exact absurd ⟨38, rfl, by decide⟩ hkept
    · exact absurd ⟨7, rfl, by decide⟩ hkept
  obtain ⟨hrun, hrepeats⟩ := run_over_edited hbecomes steadyStorage true
  exact ⟨hedits, hbecomes, hrun, hrepeats none []⟩

end Links

end RouteLinks
