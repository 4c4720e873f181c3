import RouteLinks.Links.Generation
import RouteLinks.Proofs.Grouping
import RouteLinks.Proofs.Routes.Numbering
import RouteLinks.Proofs.Routes.EditedController
import RouteLinks.Proofs.Routes.Overridable
/-!
# The fields of the registry

Fields are given out controller by controller, namespace by namespace. What is fixed here is which
controllers get one, in which order, under which name, which of the names are reported, and that the
generated half of a controller reaches the registry through the field that was given to it.
-/

namespace RouteLinks

namespace Registry

variable {taken : List String} {cs : List Controller}

theorem order_eq (cs : List Controller) :
    order cs = (firstMet (cs.map Controller.scope)).flatMap fun scope =>
      cs.filter fun c => c.scope == scope && !c.isAbstract := by
  rw [order, groupBy_eq, groupsOf, List.flatMap_map]
  apply List.flatMap_congr
  intro scope _
  show (cs.filter (·.scope == scope)).filter (!·.isAbstract) = _
  rw [List.filter_filter]
  simp only [Bool.and_comm]

theorem order_perm (cs : List Controller) : (order cs).Perm (cs.filter (!·.isAbstract)) := by
  have hmembers : order cs =
      ((groupBy Controller.scope cs).flatMap Prod.snd).filter (!·.isAbstract) := by
    rw [List.filter_flatMap]
    rfl
  rw [hmembers]
  exact (flatMap_groupBy_perm _ _).filter _

theorem map_controller_entriesFrom (taken : List String) (cs : List Controller) :
    (entriesFrom taken cs).map (·.controller) = cs := by
  induction cs generalizing taken with
  | nil => rfl
  | cons c rest ih => rw [entriesFrom, List.map_cons, ih]

theorem map_names_entriesFrom (taken : List String) (cs : List Controller) :
    (entriesFrom taken cs).map (fun e => (e.controller.name, e.field, e.index)) =
      (cs.map (·.name)).zip (Numbering.assignEach taken (cs.map (·.name))) := by
  induction cs generalizing taken with
  | nil => rfl
  | cons c rest ih =>
      rw [entriesFrom, List.map_cons, ih, List.map_cons, Numbering.assignEach, List.zip_cons_cons]

theorem given_entriesFrom {before after : List RegistryEntry} {e : RegistryEntry}
    (h : entriesFrom taken cs = before ++ e :: after) :
    Numbering.Given (before.map (·.field) ++ taken) e.controller.name e.field e.index := by
  have hnames := map_names_entriesFrom taken cs
  rw [h, List.map_append, List.map_cons] at hnames
  have hgiven := Numbering.given_assignEach hnames.symm
  rwa [List.map_map] at hgiven

theorem nodup_fields (taken : List String) (cs : List Controller) :
    ((entriesFrom taken cs).map (·.field)).Nodup ∧
      ∀ e ∈ entriesFrom taken cs, e.field ∉ taken := by
  have hlength : (Numbering.assignEach taken (cs.map (·.name))).length ≤
      (cs.map (·.name)).length := by
    rw [Numbering.length_assignEach]
  have hgiven : (entriesFrom taken cs).map (fun e => (e.field, e.index)) =
      Numbering.assignAll taken [] (cs.map (·.name)) := by
    rw [Numbering.assignAll_nil, ← List.map_snd_zip hlength, ← map_names_entriesFrom, List.map_map]
    rfl
  obtain ⟨hnodup, hfree⟩ := Numbering.assignAll_fresh taken [] (cs.map (·.name))
  rw [← hgiven, List.map_map] at hnodup
  refine ⟨hnodup, fun e he => ?_⟩
  exact hfree (e.field, e.index) (hgiven ▸ List.mem_map_of_mem he)

end Registry

/-! ### Reports -/

theorem RegistryEntry.kind_of_diagnostic? {e : RegistryEntry} {d : Diagnostic}
    (h : e.diagnostic? = some d) : d.kind = .duplicateName := by
  unfold diagnostic? at h
  split at h
  · cases h
  · cases h
    rfl

theorem RegistryEntry.map_subject_diagnostic? (e : RegistryEntry) :
    e.diagnostic?.map (·.subject) =
      if e.index == 0 then none else some e.controller.qualifiedName := by
  unfold diagnostic?
  split <;> rfl

theorem Model.kind_of_mem_discoveryDiagnostics {m : Model} {d : Diagnostic}
    (hd : d ∈ m.discoveryDiagnostics) : d.kind = .discovery := by
  obtain ⟨c, _, hc⟩ := List.mem_filterMap.mp hd
  unfold discoveryDiagnostic? at hc
  split at hc
  · cases hc
    rfl
  · cases hc

theorem Method.kind_of_diagnostic? {owner : Class} {inherited : List Signature} {x : Method}
    {d : Diagnostic} (h : x.diagnostic? owner inherited = some d) : d.kind ≠ .duplicateName := by
  unfold diagnostic? at h
  split at h
  · next reason _ =>
    cases h
    cases reason <;> simp [ActionObstacle.kind]
  · cases h

/-! ### The registry of a run -/

namespace Controller

/-- The accessor of a controller to a field of the registry. -/
def fieldAccessor (c : Controller) (s : Settings) (field : String) : Node :=
  marked ("public " ++ c.className ++ " Actions => " ++ s.namingPrefix ++ "." ++ field ++ ";")

/-- The generated half of a controller that reaches the registry through some fields. -/
def halfWith (c : Controller) (s : Settings) (fields : List String) : Node :=
  .type c.className ["public", "partial"] [] []
    (c.constructors ++ c.accessorActions.map accessor ++ fields.map (c.fieldAccessor s) ++
      c.identityMembers ++ c.actionNameMembers ++ c.actions.flatMap parameterMembers)

theorem generatedHalf_eq_halfWith (c : Controller) (s : Settings) (field : Option String) :
    c.generatedHalf s field = c.halfWith s field.toList := by
  cases field <;> rfl

theorem kind_of_mem_diagnostics {m : Model} {c : Controller} (hc : c ∈ all m) {d : Diagnostic}
    (hd : d ∈ c.diagnostics) : d.kind ≠ .duplicateName := by
  obtain ⟨symbol, _, rfl⟩ := mem_all.mp hc
  obtain ⟨x, _, hx⟩ := List.mem_filterMap.mp hd
  exact Method.kind_of_diagnostic? hx

theorem nodup_all (files : List SourceFile) :
    ((all (Model.ofFiles files)).map qualifiedName).Nodup := by
  have hnames : (all (Model.ofFiles files)).map qualifiedName =
      (Model.ofFiles files).controllers.map Class.qualifiedName := by
    rw [all, List.map_map]
    rfl
  rw [hnames]
  exact (Model.nodup_ofFiles files).sublist (List.filter_sublist.map _)

end Controller

/-- The registry is as it should be: one field for each controller that is not abstract, namespace
by namespace; no two of one name and none with the name of the registry; each named after its
controller, with the least number if that name is taken; one report for each that has a number; and
each controller with a field, and no other, reaches the registry through it. -/
structure Links.SoundRegistry (l : Links) (g : Generation) : Prop where
  discovered : g.controllers.map (·.symbol) = l.model.controllers
  texts : g.registryFields = l.registry.map fun e => e.controller.registryField e.field
  inOrder : l.registry.map (·.controller) =
    (firstMet (g.controllers.map Controller.scope)).flatMap fun scope =>
      g.controllers.filter fun c => c.scope == scope && !c.isAbstract
  complete : (l.registry.map (·.controller)).Perm (g.controllers.filter (!·.isAbstract))
  distinct : (l.settings.namingPrefix :: l.registry.map (·.field)).Nodup
  named : ∀ before e after, l.registry = before ++ e :: after →
    Numbering.Given (l.settings.namingPrefix :: before.map (·.field)) e.controller.name e.field
      e.index
  reported : (g.diagnostics.filter (·.kind == .duplicateName)).map (·.subject) =
    (l.registry.filter fun e => e.field != e.controller.name).map (·.controller.qualifiedName)
  reached : ∀ e ∈ l.registry, l.declarations e.controller =
    [e.controller.halfWith l.settings [e.field], e.controller.companion]
  unreached : ∀ c ∈ g.controllers, c.isAbstract = true →
    l.declarations c = [c.halfWith l.settings []]

namespace Links

variable {l : Links}

theorem map_controller_registry (l : Links) :
    l.registry.map (·.controller) = Registry.order l.controllers :=
  Registry.map_controller_entriesFrom _ _

theorem of_mem_registry {e : RegistryEntry} (he : e ∈ l.registry) :
    e.controller ∈ l.controllers ∧ e.controller.isAbstract = false := by
  have hmem : e.controller ∈ Registry.order l.controllers := by
    rw [← map_controller_registry]
    exact List.mem_map_of_mem he
  have hfilter := (Registry.order_perm _).subset hmem
  simpa using List.mem_filter.mp hfilter

theorem given_registry {before after : List RegistryEntry} {e : RegistryEntry}
    (h : l.registry = before ++ e :: after) :
    Numbering.Given (l.settings.namingPrefix :: before.map (·.field)) e.controller.name e.field
      e.index := by
  refine (Registry.given_entriesFrom h).congr ?_
  intro x
  simp [or_comm]

theorem filter_duplicateName_diagnostics (l : Links) :
    l.diagnostics.filter (·.kind == .duplicateName) = l.registry.filterMap (·.diagnostic?) := by
  have hdiscovery : l.model.discoveryDiagnostics.filter (·.kind == .duplicateName) = [] := by
    rw [List.filter_eq_nil_iff]
    intro d hd
    simp [Model.kind_of_mem_discoveryDiagnostics hd]
  have hmethods :
      (l.controllers.flatMap (·.diagnostics)).filter (·.kind == .duplicateName) = [] := by
    rw [List.filter_eq_nil_iff]
    intro d hd
    obtain ⟨c, hc, hd⟩ := List.mem_flatMap.mp hd
    simpa using Controller.kind_of_mem_diagnostics hc hd
  have hnames : (l.registry.filterMap (·.diagnostic?)).filter (·.kind == .duplicateName) =
      l.registry.filterMap (·.diagnostic?) := by
    rw [List.filter_eq_self]
    intro d hd
    obtain ⟨e, _, he⟩ := List.mem_filterMap.mp hd
    simp [RegistryEntry.kind_of_diagnostic? he]
  rw [diagnostics, List.filter_append, List.filter_append, hdiscovery, hmethods, hnames]
  rfl

theorem map_subject_reports (l : Links) :
    (l.registry.filterMap (·.diagnostic?)).map (·.subject) =
      (l.registry.filter fun e => e.field != e.controller.name).map
        (·.controller.qualifiedName) := by
  have hreport : ∀ e ∈ l.registry, e.diagnostic?.map (·.subject) =
      if e.field != e.controller.name then some e.controller.qualifiedName else none := by
    intro e he
    obtain ⟨before, after, hsplit⟩ := List.append_of_mem he
    have hindex := (given_registry hsplit).index_eq_zero_iff
    rw [RegistryEntry.map_subject_diagnostic?]
    by_cases hname : e.field = e.controller.name
    · simp [hname, hindex.mpr hname]
    · simp [hname, mt hindex.mp hname]
  rw [List.map_filterMap, List.filterMap_congr hreport, ← List.filterMap_eq_map,
    ← List.filterMap_eq_filter, List.filterMap_filterMap]
  apply List.filterMap_congr
  intro e _
  by_cases hname : e.field = e.controller.name <;> simp [Option.guard, hname]

/-! What follows needs the controllers of a run to be told apart by their names. -/

theorem nodup_registry (hnodup : (l.controllers.map Controller.qualifiedName).Nodup) :
    (l.registry.map fun e => e.controller.qualifiedName).Nodup := by
  have hnames : (l.registry.map fun e => e.controller.qualifiedName) =
      (Registry.order l.controllers).map Controller.qualifiedName := by
    rw [← map_controller_registry, List.map_map]
    rfl
  rw [hnames, ((Registry.order_perm _).map _).nodup_iff]
  exact hnodup.sublist (List.filter_sublist.map _)

theorem declarations_of_mem_registry (hnodup : (l.controllers.map Controller.qualifiedName).Nodup)
    {e : RegistryEntry} (he : e ∈ l.registry) :
    l.declarations e.controller =
      [e.controller.halfWith l.settings [e.field], e.controller.companion] := by
  have hfield : Registry.fieldOf? l.registry e.controller = some e.field := by
    rw [Registry.fieldOf?, find?_eq_of_nodup (nodup_registry hnodup) he]
    rfl
  simp [declarations, hfield, (of_mem_registry he).2, Controller.generatedHalf_eq_halfWith]

theorem declarations_of_isAbstract (hnodup : (l.controllers.map Controller.qualifiedName).Nodup)
    {c : Controller} (hc : c ∈ l.controllers) (habstract : c.isAbstract = true) :
    l.declarations c = [c.halfWith l.settings []] := by
  have hfield : Registry.fieldOf? l.registry c = none := by
    rw [Registry.fieldOf?, Option.map_eq_none_iff, List.find?_eq_none]
    intro e he hsame
    obtain ⟨hmem, hconcrete⟩ := of_mem_registry he
    have heq := List.inj_on_of_nodup_map hnodup hmem hc (beq_iff_eq.mp hsame)
    rw [heq, habstract] at hconcrete
    cases hconcrete
  simp [declarations, hfield, habstract, Controller.generatedHalf_eq_halfWith]

theorem nodup_namingPrefix_fields (l : Links) :
    (l.settings.namingPrefix :: l.registry.map (·.field)).Nodup := by
  obtain ⟨hfields, hfree⟩ :=
    Registry.nodup_fields [l.settings.namingPrefix] (Registry.order l.controllers)
  refine List.nodup_cons.mpr ⟨?_, hfields⟩
  intro hmem
  obtain ⟨e, he, hsame⟩ := List.mem_map.mp hmem
  exact hfree e he (List.mem_singleton.mpr hsame)

theorem map_symbol_controllers (l : Links) :
    l.controllers.map (·.symbol) = l.model.controllers := by
  rw [controllers, Controller.all, List.map_map]
  exact List.map_id _

theorem soundRegistry_generation (s : Settings) (files : List SourceFile) (projectRoot : String)
    (staticLinks : Option Node) (rewrites : List SourceRewrite) :
    (Links.mk s (Model.ofFiles files) projectRoot).SoundRegistry
      ((Links.mk s (Model.ofFiles files) projectRoot).generation staticLinks rewrites) := by
  generalize hl : Links.mk s (Model.ofFiles files) projectRoot = l
  have hnodup : (l.controllers.map Controller.qualifiedName).Nodup := by
    rw [← hl]
    exact Controller.nodup_all files
  refine ⟨map_symbol_controllers l, rfl, (map_controller_registry l).trans (Registry.order_eq _),
    ?_, nodup_namingPrefix_fields l, ?_, ?_, ?_, ?_⟩
  · rw [map_controller_registry]
    exact Registry.order_perm _
  · intro before e after hsplit
    exact given_registry hsplit
  · show (l.diagnostics.filter _).map _ = _
    rw [filter_duplicateName_diagnostics, map_subject_reports]
  · intro e he
    exact declarations_of_mem_registry hnodup he
  · intro c hc habstract
    exact declarations_of_isAbstract hnodup hc habstract

end Links

end RouteLinks
