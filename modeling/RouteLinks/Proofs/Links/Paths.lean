import RouteLinks.Proofs.Grouping
import RouteLinks.Proofs.Links.Afterwards
import RouteLinks.Proofs.Source.Phrase
import RouteLinks.Proofs.Source.Placement
/-!
# The paths of a run

All that a run makes has a path inside the project: a generated file has that of a source with
another end, or the one at the root, and an edited source has its own. Edited sources and generated
files never meet, because their last names are of different kinds. Generated files meet in two ways.
A source that is called `Links` has the file at the root generated for it, and two sources whose
names differ in their extensions only have one file for both. Main statement: the paths of a run are
all different exactly if neither happens to the sources of its controllers.
-/

namespace RouteLinks

/-- The paths of all that a run makes. -/
def Generation.paths (g : Generation) : List String :=
  g.files.map (·.path) ++ g.rewrites.map (·.path)

namespace Links

/-! ### Paths in a project -/

theorem toList_generatedPath (source : String) :
    (generatedPath source).toList =
      (Path.withoutExtension source).toList ++ Source.generatedSuffix.toList := by
  rw [generatedPath, String.toList_append]

theorem isHandWritten_generatedPath (source : String) :
    Source.isHandWritten (Path.baseName (generatedPath source)) = false :=
  Source.isHandWritten_baseName _ (toList_generatedPath source)

theorem generatedPath_eq_iff {source other : String} :
    generatedPath source = generatedPath other ↔
      Path.withoutExtension source = Path.withoutExtension other := by
  rw [generatedPath, generatedPath, String.append_left_inj]

theorem generatedPath_eq_aggregateName_iff {source : String} :
    generatedPath source = aggregateName ↔ Path.withoutExtension source = "Links" := by
  have hname : aggregateName = "Links" ++ Source.generatedSuffix := by decide
  rw [generatedPath, hname, String.append_left_inj]

theorem exists_take_withoutExtension (path : String) :
    ∃ n, (Path.withoutExtension path).toList = path.toList.take n := by
  rw [Path.withoutExtension, dropEnding]
  split
  · exact ⟨_, String.toList_ofList⟩
  · exact ⟨path.toList.length, List.take_length.symm⟩

/-- A generated file begins at the root only if its source does. -/
theorem beginsWith_generatedPath {source : String} (h : beginsWith source "/" = false) :
    beginsWith (generatedPath source) "/" = false := by
  obtain ⟨n, hn⟩ := exists_take_withoutExtension source
  rw [beginsWith, toList_generatedPath, hn]
  rw [beginsWith] at h
  cases hsource : source.toList with
  | nil =>
      rw [List.take_nil]
      decide
  | cons c rest =>
      rw [hsource] at h
      cases n with
      | zero =>
          rw [List.take_zero]
          decide
      | succ n => exact h

/-! ### What is generated and edited -/

variable {l : Links}

def splitSources (l : Links) : List String :=
  if l.settings.splitsFiles then firstMet (l.controllers.map Controller.filePath) else []

def editedSources (l : Links) : List String :=
  firstMet ((l.controllers.flatMap (·.edits)).map SourceEdit.filePath)

theorem map_path_sourceFiles (l : Links) :
    l.sourceFiles.map (·.path) = (l.splitSources.map generatedPath).map l.inProject := by
  rw [sourceFiles, splitSources]
  split
  · rw [bySource, ← map_fst_groupBy]
    simp only [List.map_map, Function.comp_def]
  · rfl

theorem map_fst_edits (l : Links) : l.edits.map Prod.fst = l.editedSources := by
  rw [edits, map_fst_groupBy, editedSources]

theorem exists_rewrites (h : ∀ path ∈ l.editedSources, (l.model.sources.lookup path).isSome) :
    ∃ rewrites, l.rewrites = .ok rewrites ∧
      rewrites.map (·.path) = l.editedSources.map l.inProject := by
  rw [← map_fst_edits] at h ⊢
  rw [rewrites]
  generalize l.edits = edits at h ⊢
  induction edits with
  | nil => exact ⟨[], rfl, rfl⟩
  | cons edit rest ih =>
      obtain ⟨path, edits⟩ := edit
      rw [List.map_cons, List.forall_mem_cons] at h
      obtain ⟨content, hcontent⟩ := Option.isSome_iff_exists.mp h.1
      obtain ⟨others, hothers, hpaths⟩ := ih h.2
      refine ⟨⟨l.inProject path, SourceEdit.applyAll content edits⟩ :: others, ?_, ?_⟩
      · rw [List.mapM_cons, hothers]
        simp only [hcontent]
        rfl
      · rw [List.map_cons, hpaths, List.map_cons, List.map_cons]

/-! ### Runs over the sources of a tree -/

/-- Links whose sources are those of a tree. -/
structure FromTree (l : Links) (g : Grammar) (t : FileTree) : Prop where
  model : l.model = Model.ofTree g t
  named : t.IsNamed

namespace FromTree

variable {g : Grammar} {t : FileTree}

theorem filePath_mem (h : l.FromTree g t) {c : Controller} (hc : c ∈ l.controllers) :
    c.filePath ∈ Source.paths t := by
  rw [controllers, h.model] at hc
  exact Controller.filePath_mem (Model.isWithin_of_mem_ofTree g t) hc

theorem mem_paths_of_mem_splitSources (h : l.FromTree g t) {path : String}
    (hpath : path ∈ l.splitSources) : path ∈ Source.paths t := by
  rw [splitSources] at hpath
  split at hpath
  · obtain ⟨c, hc, rfl⟩ := List.mem_map.mp (mem_firstMet.mp hpath)
    exact h.filePath_mem hc
  · cases hpath

theorem mem_paths_of_mem_editedSources (h : l.FromTree g t) {path : String}
    (hpath : path ∈ l.editedSources) : path ∈ Source.paths t := by
  obtain ⟨e, he, rfl⟩ := List.mem_map.mp (mem_firstMet.mp hpath)
  obtain ⟨c, hc, hedit⟩ := List.mem_flatMap.mp he
  rw [controllers, h.model] at hc
  exact Controller.filePath_mem_of_mem_edits (Model.isWithin_of_mem_ofTree g t) hc hedit

theorem exists_rewrites (h : l.FromTree g t) : ∃ rewrites, l.rewrites = .ok rewrites ∧
    rewrites.map (·.path) = l.editedSources.map l.inProject := by
  apply Links.exists_rewrites
  intro path hpath
  rw [h.model, Model.isSome_lookup_ofTree]
  exact h.mem_paths_of_mem_editedSources hpath

theorem baseName_ne (h : l.FromTree g t) {path source : String}
    (hpath : Source.isHandWritten (Path.baseName path) = false)
    (hsource : source ∈ Source.paths t) : Path.baseName path ≠ Path.baseName source := by
  intro hsame
  rw [hsame, (Source.isSourcePath_of_mem_paths h.named hsource).handWritten] at hpath
  cases hpath

theorem beginsWith_of_mem_names (h : l.FromTree g t) :
    ∀ name ∈ l.splitSources.map generatedPath ++ aggregateName :: l.editedSources,
      beginsWith name "/" = false := by
  rw [List.forall_mem_append, List.forall_mem_map, List.forall_mem_cons]
  refine ⟨fun source hsource => ?_, by decide, fun source hsource => ?_⟩
  · exact beginsWith_generatedPath (Source.isSourcePath_of_mem_paths h.named
      (h.mem_paths_of_mem_splitSources hsource)).relative
  · exact (Source.isSourcePath_of_mem_paths h.named
      (h.mem_paths_of_mem_editedSources hsource)).relative

theorem nodup_map_inProject_iff (h : l.FromTree g t) :
    ((l.splitSources.map generatedPath ++ aggregateName :: l.editedSources).map
      l.inProject).Nodup ↔
      (l.splitSources.map generatedPath ++ aggregateName :: l.editedSources).Nodup := by
  constructor
  · exact List.Nodup.of_map l.inProject
  · refine List.Nodup.map_on fun path hpath other hother hsame => ?_
    exact Path.join_inj (h.beginsWith_of_mem_names path hpath)
      (h.beginsWith_of_mem_names other hother) hsame

/-- Of all names only those of generated files can be the same. -/
theorem nodup_names_iff (h : l.FromTree g t) :
    (l.splitSources.map generatedPath ++ aggregateName :: l.editedSources).Nodup ↔
      (l.splitSources.map generatedPath).Nodup ∧
        aggregateName ∉ l.splitSources.map generatedPath := by
  have hedited : ∀ path, Source.isHandWritten (Path.baseName path) = false →
      path ∉ l.editedSources := fun path hpath hmem =>
    h.baseName_ne hpath (h.mem_paths_of_mem_editedSources hmem) rfl
  have haggregate : aggregateName ∉ l.editedSources := hedited _ (by decide)
  rw [List.nodup_append, List.nodup_cons]
  constructor
  · rintro ⟨hunits, _, hapart⟩
    exact ⟨hunits, fun hmem => hapart _ hmem _ List.mem_cons_self rfl⟩
  · rintro ⟨hunits, hroot⟩
    refine ⟨hunits, ⟨haggregate, nodup_firstMet _⟩, ?_⟩
    rintro unit hunit other hother rfl
    rcases List.mem_cons.mp hother with rfl | hother
    · exact hroot hunit
    · obtain ⟨source, _, rfl⟩ := List.mem_map.mp hunit
      exact hedited _ (isHandWritten_generatedPath source) hother

end FromTree

theorem paths_generation {rewrites : List SourceRewrite} (staticLinks : Option Node)
    (hpaths : rewrites.map (·.path) = l.editedSources.map l.inProject) :
    (l.generation staticLinks rewrites).paths =
      (l.splitSources.map generatedPath ++ aggregateName :: l.editedSources).map l.inProject := by
  rw [Generation.paths, generation, List.map_append, map_path_sourceFiles, hpaths, List.map_append,
    List.map_cons, List.append_assoc]
  rfl

/-- The sources of a project can be edited, and what is made of them has different paths exactly if
the generated files have different names. -/
theorem FromTree.exists_rewrites_nodup_iff {t : FileTree} (h : l.FromTree g t) :
    ∃ rewrites, l.rewrites = .ok rewrites ∧ ∀ staticLinks,
      ((l.generation staticLinks rewrites).paths.Nodup ↔
        (l.splitSources.map generatedPath).Nodup ∧
          aggregateName ∉ l.splitSources.map generatedPath) := by
  obtain ⟨rewrites, hrewrites, hpaths⟩ := h.exists_rewrites
  refine ⟨rewrites, hrewrites, fun staticLinks => ?_⟩
  rw [paths_generation staticLinks hpaths, h.nodup_map_inProject_iff, h.nodup_names_iff]

/-- What keeps the files beside the sources apart, from each other and from the one at the root. -/
structure UnitsApart (l : Links) : Prop where
  notRoot : ∀ c ∈ l.controllers, Path.withoutExtension c.filePath ≠ "Links"
  distinct : ∀ c ∈ l.controllers, ∀ d ∈ l.controllers,
    Path.withoutExtension c.filePath = Path.withoutExtension d.filePath → c.filePath = d.filePath

instance (l : Links) : Decidable l.UnitsApart :=
  decidable_of_iff
    ((∀ c ∈ l.controllers, Path.withoutExtension c.filePath ≠ "Links") ∧
      ∀ c ∈ l.controllers, ∀ d ∈ l.controllers,
        Path.withoutExtension c.filePath = Path.withoutExtension d.filePath →
          c.filePath = d.filePath)
    ⟨fun h => ⟨h.1, h.2⟩, fun h => ⟨h.notRoot, h.distinct⟩⟩

theorem nodup_units_iff (hsplit : l.settings.splitsFiles = true) :
    (l.splitSources.map generatedPath).Nodup ∧ aggregateName ∉ l.splitSources.map generatedPath ↔
      l.UnitsApart := by
  have hsources : l.splitSources = firstMet (l.controllers.map Controller.filePath) := by
    rw [splitSources, hsplit, if_pos rfl]
  have hmem : ∀ c ∈ l.controllers, c.filePath ∈ l.splitSources := fun c hc =>
    hsources ▸ mem_firstMet.mpr (List.mem_map_of_mem hc)
  have hsource : ∀ source ∈ l.splitSources, ∃ c ∈ l.controllers, c.filePath = source :=
    fun source h => List.mem_map.mp (mem_firstMet.mp (hsources ▸ h))
  have hnodup : l.splitSources.Nodup := hsources ▸ nodup_firstMet _
  rw [List.nodup_map_iff_inj_on hnodup]
  constructor
  · rintro ⟨hinj, hroot⟩
    refine ⟨fun c hc hlinks => hroot ?_, fun c hc d hd hsame => ?_⟩
    · exact List.mem_map.mpr
        ⟨c.filePath, hmem c hc, generatedPath_eq_aggregateName_iff.mpr hlinks⟩
    · exact hinj _ (hmem c hc) _ (hmem d hd) (generatedPath_eq_iff.mpr hsame)
  · rintro ⟨hroot, hdistinct⟩
    refine ⟨fun source hs other ho hsame => ?_, fun hmem => ?_⟩
    · obtain ⟨c, hc, rfl⟩ := hsource source hs
      obtain ⟨d, hd, rfl⟩ := hsource other ho
      exact hdistinct c hc d hd (generatedPath_eq_iff.mp hsame)
    · obtain ⟨source, hs, hlinks⟩ := List.mem_map.mp hmem
      obtain ⟨c, hc, rfl⟩ := hsource source hs
      exact hroot c hc (generatedPath_eq_aggregateName_iff.mp hlinks)

/-- The paths of a run are all different exactly if the files beside the sources are apart. -/
theorem nodup_paths_iff (g : Grammar) (s : Settings) (projectRoot : String) {t : FileTree}
    (hnamed : t.IsNamed) :
    ∃ rewrites, (⟨s, Model.ofTree g t, projectRoot⟩ : Links).rewrites = .ok rewrites ∧
      ∀ staticLinks,
        ((⟨s, Model.ofTree g t, projectRoot⟩ : Links).generation staticLinks rewrites).paths.Nodup ↔
          (s.splitsFiles = true → UnitsApart ⟨s, Model.ofTree g t, projectRoot⟩) := by
  generalize hl : (⟨s, Model.ofTree g t, projectRoot⟩ : Links) = l
  have htree : l.FromTree g t := ⟨by rw [← hl], hnamed⟩
  have hsettings : s = l.settings := by rw [← hl]
  obtain ⟨rewrites, hrewrites, hnodup⟩ := htree.exists_rewrites_nodup_iff
  refine ⟨rewrites, hrewrites, fun staticLinks => ?_⟩
  rw [hnodup, hsettings]
  cases hsplit : l.settings.splitsFiles with
  | true =>
      rw [nodup_units_iff hsplit]
      exact ⟨fun h _ => h, fun h => h rfl⟩
  | false =>
      have hnone : l.splitSources = [] := by
        rw [splitSources, hsplit, if_neg Bool.false_ne_true]
      simp [hnone]

def controllersProject (sources : List (String × String)) : FileTree :=
  .directory (sources.map fun (file, name) =>
    (file, .file (Phrase.source (Phrase.controllerOf name))))

def controllersGrammar (sources : List (String × String)) : Grammar :=
  Phrase.grammar (sources.map fun source => Phrase.controllerOf source.2)

theorem isNamed_controllersProject {sources : List (String × String)}
    (h : ∀ source ∈ sources, Path.IsName source.1) : (controllersProject sources).IsNamed := by
  constructor
  case names => exact List.forall_mem_map.mpr h
  case entries => exact List.forall_mem_map.mpr fun _ _ => .file _

def splitSettings : Settings := { splitsFiles := true }

def splitLinks (g : Grammar) (t : FileTree) : Links := ⟨splitSettings, Model.ofTree g t, ""⟩

def areaProject : FileTree :=
  .directory [("Areas", controllersProject [("Links.cs", "LinksController")]),
    ("Home.cs", .file [])]

def areaLinks : Links :=
  splitLinks (controllersGrammar [("Links.cs", "LinksController")]) areaProject

theorem isNamed_areaProject : areaProject.IsNamed := by
  refine .directory (by decide) ?_
  rw [List.forall_mem_cons, List.forall_mem_singleton]
  exact ⟨isNamed_controllersProject (by decide), .file []⟩

/-- Only the path from the root counts, so a source in a directory can be called `Links`. -/
theorem nodup_paths_links_below_root : areaProject.IsNamed ∧
    ∃ rewrites, areaLinks.rewrites = .ok rewrites ∧
      ∀ staticLinks, (areaLinks.generation staticLinks rewrites).paths.Nodup := by
  obtain ⟨rewrites, hrewrites, hnodup⟩ :=
    nodup_paths_iff (controllersGrammar [("Links.cs", "LinksController")]) splitSettings ""
      isNamed_areaProject
  exact ⟨isNamed_areaProject, rewrites, hrewrites, fun staticLinks =>
    (hnodup staticLinks).mpr fun _ => by decide +kernel⟩

def controllersLinks (sources : List (String × String)) : Links :=
  splitLinks (controllersGrammar sources) (controllersProject sources)

/-- A source called `Links` at the root meets the file there. -/
theorem not_nodup_paths_links_at_root :
    ∃ rewrites, (controllersLinks [("Links.cs", "HomeController")]).rewrites = .ok rewrites ∧
      ¬ ((controllersLinks [("Links.cs", "HomeController")]).generation
        none rewrites).paths.Nodup := by
  have htree : (controllersLinks [("Links.cs", "HomeController")]).FromTree _ _ :=
    ⟨rfl, isNamed_controllersProject (by decide)⟩
  obtain ⟨rewrites, hrewrites, hnodup⟩ := htree.exists_rewrites_nodup_iff
  refine ⟨rewrites, hrewrites, ?_⟩
  rw [hnodup]
  decide +kernel

/-- Sources that differ in the case of their extensions have one file for both. -/
example : (controllersLinks
    [("A.cs", "AController"), ("A.CS", "BController")]).splitSources.map generatedPath =
      ["A.generated.cs", "A.generated.cs"] := by decide +kernel

end Links

end RouteLinks
