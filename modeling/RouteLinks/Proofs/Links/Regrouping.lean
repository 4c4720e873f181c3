import RouteLinks.Proofs.Links.Registry
/-!
# One file or many

A run puts the declarations for controllers either all into the file at the root, or into one file
for each source. What is compared here are the files before they are written out: as namespaces with
their declarations, however these are divided among files and scopes.
-/

namespace RouteLinks

def Node.declared : Node → List (String × Node)
  | .scope name _ members => members.map (name, ·)
  | node => [("", node)]

def CompilationUnit.declared (unit : CompilationUnit) : List (String × Node) :=
  unit.members.flatMap Node.declared

namespace Links

variable {l : Links}

def withSplit (l : Links) (splitsFiles : Bool) : Links :=
  { l with settings := { l.settings with splitsFiles } }

def sourceUnits (l : Links) : List (String × CompilationUnit) :=
  l.bySource.map fun (source, cs) => (source, unitOf l.settings (l.members cs))

def aggregate (l : Links) (staticLinks : Option Node) : CompilationUnit :=
  aggregateUnit l.settings (if l.settings.splitsFiles then [] else l.members l.controllers)
    staticLinks (l.registry.map (·.declaration))

def sourceFile (l : Links) (source : String) (unit : CompilationUnit) : GeneratedFile :=
  { path := l.inProject (generatedPath source), text := unit.finish }

def rootFile (l : Links) (unit : CompilationUnit) : GeneratedFile :=
  { path := l.inProject aggregateName, text := unit.finish, isAggregate := true }

theorem files_split (l : Links) (staticLinks : Option Node) (rewrites : List SourceRewrite) :
    ((l.withSplit true).generation staticLinks rewrites).files =
      (l.withSplit true).sourceUnits.map (fun (source, unit) => l.sourceFile source unit) ++
        [l.rootFile ((l.withSplit true).aggregate staticLinks)] := by
  show (l.withSplit true).bySource.map _ ++ _ = _
  rw [sourceUnits, List.map_map]
  rfl

/-! ### The declarations of controllers -/

def declaredFor (l : Links) (c : Controller) : List (String × Node) :=
  (l.declarations c).map (c.scope, ·)

theorem mem_declarations {c : Controller} {d : Node} (hd : d ∈ l.declarations c) :
    d = c.generatedHalf l.settings (Registry.fieldOf? l.registry c) ∨ d = c.companion := by
  unfold declarations at hd
  dsimp only at hd
  split at hd <;> simp_all

theorem declared_of_mem_declarations {c : Controller} {d : Node} (hd : d ∈ l.declarations c) :
    d.declared = [("", d)] := by
  rcases mem_declarations hd with rfl | rfl <;> rfl

theorem declared_scopeMembers {scope : String} {cs : List Controller}
    (hscope : ∀ c ∈ cs, c.scope = scope) :
    (l.scopeMembers scope cs).flatMap Node.declared = cs.flatMap l.declaredFor := by
  have hpairs : cs.flatMap l.declaredFor = (cs.flatMap l.declarations).map (scope, ·) := by
    rw [List.map_flatMap]
    apply List.flatMap_congr
    intro c hc
    rw [declaredFor, hscope c hc]
  rw [hpairs, scopeMembers]
  split
  · next hglobal =>
    have hempty : scope = "" := by simpa using hglobal
    rw [hempty, List.map_eq_flatMap]
    apply List.flatMap_congr
    intro d hd
    obtain ⟨c, _, hd⟩ := List.mem_flatMap.mp hd
    exact declared_of_mem_declarations hd
  · simp [Node.addUsings, Node.declared]

/-- However controllers are divided among namespaces, their declarations are the same. -/
theorem declared_members_perm (l : Links) (cs : List Controller) :
    ((l.members cs).flatMap Node.declared).Perm (cs.flatMap l.declaredFor) := by
  have hgroups : (l.members cs).flatMap Node.declared =
      ((groupBy Controller.scope cs).flatMap Prod.snd).flatMap l.declaredFor := by
    rw [members, List.flatMap_assoc, List.flatMap_assoc]
    apply List.flatMap_congr
    intro g hg
    exact declared_scopeMembers fun c hc => ((mem_group_iff hg).mp hc).2
  rw [hgroups]
  exact (flatMap_groupBy_perm _ _).flatMap_right _

theorem declared_sourceUnits_perm (l : Links) :
    (l.sourceUnits.flatMap (·.2.declared)).Perm (l.controllers.flatMap l.declaredFor) := by
  have hunits : (l.sourceUnits.flatMap (·.2.declared)).Perm
      (l.bySource.flatMap fun g => g.2.flatMap l.declaredFor) := by
    rw [sourceUnits, List.flatMap_map]
    exact List.Perm.flatMap_left _ fun g _ => declared_members_perm l g.2
  refine hunits.trans ?_
  rw [← List.flatMap_assoc]
  exact (flatMap_groupBy_perm _ _).flatMap_right _

/-! ### Where the declarations of a controller are -/

theorem className_eq_of_mem_declarations {c c' : Controller} {d : Node}
    (hd : d ∈ l.declarations c) (hd' : d ∈ l.declarations c') : c.className = c'.className := by
  rcases mem_declarations hd with rfl | rfl <;> rcases mem_declarations hd' with heq | heq
  · exact (Node.type.inj heq).1
  · cases (Node.type.inj heq).2.2.1
  · cases (Node.type.inj heq).2.2.1
  · exact (String.append_right_inj "Linked").mp (Node.type.inj heq).1

theorem nodup_declarations (l : Links) (c : Controller) : (l.declarations c).Nodup := by
  have hne : c.generatedHalf l.settings (Registry.fieldOf? l.registry c) ≠ c.companion := by
    intro heq
    cases (Node.type.inj heq).2.2.1
  unfold declarations
  dsimp only
  split <;> simp [hne]

theorem eq_of_mem_declaredFor (hnodup : (l.controllers.map Controller.qualifiedName).Nodup)
    {c c' : Controller} (hc : c ∈ l.controllers) (hc' : c' ∈ l.controllers) {d : String × Node}
    (hd : d ∈ l.declaredFor c) (hd' : d ∈ l.declaredFor c') : c = c' := by
  obtain ⟨node, hnode, rfl⟩ := List.mem_map.mp hd
  obtain ⟨node', hnode', heq⟩ := List.mem_map.mp hd'
  obtain ⟨hscope, rfl⟩ := Prod.mk.inj heq
  have hname : c.qualifiedName = c'.qualifiedName := by
    show qualify c.scope c.className = qualify c'.scope c'.className
    rw [hscope, className_eq_of_mem_declarations hnode hnode']
  exact List.inj_on_of_nodup_map hnodup hc hc' hname

theorem nodup_flatMap_declaredFor (hnodup : (l.controllers.map Controller.qualifiedName).Nodup) :
    (l.controllers.flatMap l.declaredFor).Nodup := by
  rw [List.nodup_flatMap]
  constructor
  · intro c _
    exact (nodup_declarations l c).map fun _ _ heq => (Prod.mk.inj heq).2
  · refine (List.Nodup.of_map _ hnodup).imp_of_mem ?_
    intro c c' hc hc' hne d hd hd'
    exact hne (eq_of_mem_declaredFor hnodup hc hc' hd hd')

theorem mem_declared_sourceUnits_iff (hnodup : (l.controllers.map Controller.qualifiedName).Nodup)
    {c : Controller} (hc : c ∈ l.controllers) {d : Node} (hd : d ∈ l.declarations c)
    {u : String × CompilationUnit} (hu : u ∈ l.sourceUnits) :
    (c.scope, d) ∈ u.2.declared ↔ u.1 = c.filePath := by
  obtain ⟨g, hg, rfl⟩ := List.mem_map.mp hu
  have hgroup : c ∈ g.2 ↔ c.filePath = g.1 := by simp [mem_group_iff hg, hc]
  have hunit : (c.scope, d) ∈ (unitOf l.settings (l.members g.2)).declared ↔
      (c.scope, d) ∈ g.2.flatMap l.declaredFor := (declared_members_perm l g.2).mem_iff
  have hown : (c.scope, d) ∈ l.declaredFor c := List.mem_map_of_mem hd
  show (c.scope, d) ∈ (unitOf l.settings (l.members g.2)).declared ↔ g.1 = c.filePath
  rw [hunit, eq_comm (a := g.1), ← hgroup, List.mem_flatMap]
  constructor
  · rintro ⟨c', hc', hd'⟩
    rwa [eq_of_mem_declaredFor hnodup hc ((mem_group_iff hg).mp hc').1 hown hd']
  · intro hmem
    exact ⟨c, hmem, hown⟩

/-- What the file at the root has in any case. -/
def shared (l : Links) : List Node :=
  [supportNamespace l.settings, registryClass l.settings (l.registry.map (·.declaration)),
    resultClass .generic, resultClass .data]

theorem not_mem_shared {c : Controller} {d : Node} (hd : d ∈ l.declarations c) (scope : String) :
    (scope, d) ∉ l.shared.flatMap Node.declared := by
  have hshape : ∃ name bases attributes members,
      d = .type name ["public", "partial"] bases attributes members := by
    rcases mem_declarations hd with rfl | rfl <;> exact ⟨_, _, _, _, rfl⟩
  obtain ⟨name, bases, attributes, members, rfl⟩ := hshape
  simp [shared, Node.declared, supportNamespace, dummyDeclaration, interfaceDeclaration,
    setupDeclaration, registryClass, resultClass]

end Links

/-- A run with a file for each source makes what a run with one file makes, only elsewhere: each of
its files beside a source has the declarations of the controllers of that source, and all that is
not a declaration for a controller is the same. -/
structure Links.Regrouped (l : Links) (staticLinks : Option Node) (rewrites : List SourceRewrite) :
    Prop where
  oneForEachSource : (l.withSplit true).sourceUnits.map Prod.fst =
    firstMet (l.controllers.map Controller.filePath)
  manyFiles : ((l.withSplit true).generation staticLinks rewrites).files =
    (l.withSplit true).sourceUnits.map (fun (source, unit) => l.sourceFile source unit) ++
      [l.rootFile ((l.withSplit true).aggregate staticLinks)]
  oneFile : ((l.withSplit false).generation staticLinks rewrites).files =
    [l.rootFile ((l.withSplit false).aggregate staticLinks)]
  sharedInMany : ((l.withSplit true).aggregate staticLinks).members =
    staticLinks.toList ++ l.shared
  sharedInOne : ((l.withSplit false).aggregate staticLinks).members =
    (l.withSplit false).members l.controllers ++ (staticLinks.toList ++ l.shared)
  sameDeclarations : ((l.withSplit true).sourceUnits.flatMap (·.2.declared)).Perm
    (((l.withSplit false).members l.controllers).flatMap Node.declared)
  once : ((l.withSplit true).sourceUnits.flatMap (·.2.declared)).Nodup
  inOwnFile : ∀ c ∈ l.controllers, ∀ d ∈ l.declarations c, ∀ u ∈ (l.withSplit true).sourceUnits,
    ((c.scope, d) ∈ u.2.declared ↔ u.1 = c.filePath)
  notShared : ∀ c ∈ l.controllers, ∀ d ∈ l.declarations c,
    (c.scope, d) ∉ l.shared.flatMap Node.declared
  sameEdits : (l.withSplit true).rewrites = (l.withSplit false).rewrites
  sameRest : (l.withSplit true).generation staticLinks rewrites =
    { (l.withSplit false).generation staticLinks rewrites with
      files := ((l.withSplit true).generation staticLinks rewrites).files }

namespace Links

theorem regrouped_ofFiles (s : Settings) (files : List SourceFile) (projectRoot : String)
    (staticLinks : Option Node) (rewrites : List SourceRewrite) :
    (Links.mk s (Model.ofFiles files) projectRoot).Regrouped staticLinks rewrites := by
  generalize hl : Links.mk s (Model.ofFiles files) projectRoot = l
  have hnodup : (l.controllers.map Controller.qualifiedName).Nodup := by
    rw [← hl]
    exact Controller.nodup_all files
  constructor
  case oneForEachSource =>
    rw [sourceUnits, List.map_map]
    exact map_fst_groupBy _ _
  case manyFiles => exact files_split l staticLinks rewrites
  case oneFile => rfl
  case sharedInMany => rfl
  case sharedInOne => exact List.append_assoc _ _ _
  case sameDeclarations =>
    exact (declared_sourceUnits_perm (l.withSplit true)).trans
      (declared_members_perm (l.withSplit false) l.controllers).symm
  case once =>
    exact (declared_sourceUnits_perm (l.withSplit true)).nodup_iff.mpr
      (nodup_flatMap_declaredFor hnodup)
  case inOwnFile =>
    intro c hc d hd u hu
    exact mem_declared_sourceUnits_iff hnodup hc hd hu
  case notShared =>
    intro c _ d hd
    exact not_mem_shared hd c.scope
  case sameEdits => rfl
  case sameRest => rfl

end Links

end RouteLinks
