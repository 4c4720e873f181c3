import RouteLinks.Proofs.Links.Running
/-!
# What is there after a run

A run leaves the sources as they are, so links are made from the same model afterwards, and all that
it made is there. When it looks at the static files, the files beside the sources are there already
and the file at the root is not; so what was at its place by then was there before the run, or is
one of the others.
-/

namespace RouteLinks

variable {grammar : Grammar} {t u t' : FileTree} {s : Settings} {projectRoot : String}
  {g : Generation} {l : Links}

theorem Model.ofProject_eq (h : t.Grows t') (hroot : (t.directory? projectRoot).isSome) :
    Model.ofProject grammar t' projectRoot = Model.ofProject grammar t projectRoot := by
  obtain ⟨d, hd⟩ := Option.isSome_iff_exists.mp hroot
  obtain ⟨place, hfind, hdirectory, hget⟩ := FileTree.directory?_eq_some_iff.mp hd
  obtain ⟨d', hget', hsources⟩ := h.sources place d hget
  have hd' : t'.directory? projectRoot = some d' := FileTree.directory?_eq_some_iff.mpr
    ⟨place, h.find?_eq_some hfind, h.directory place hdirectory, hget'⟩
  rw [ofProject, ofProject, hd, hd']
  show ofTree grammar d' = ofTree grammar d
  rw [ofTree, ofTree, Source.filesOfTree, Source.filesOfTree, Source.ofTree, Source.ofTree,
    hsources]

namespace Links

/-! ### The files of a run -/

theorem exists_path_of_mem_files {staticLinks : Option Node} {f : GeneratedFile}
    (hf : f ∈ l.sourceFiles ++ [l.aggregateFile staticLinks]) :
    ∃ name front, f.path = Path.join l.projectRoot name ∧
      name.toList = front ++ Source.generatedSuffix.toList := by
  rcases List.mem_append.mp hf with hf | hf
  · rw [sourceFiles] at hf
    split at hf
    · obtain ⟨⟨source, cs⟩, _, hsource⟩ := List.mem_map.mp hf
      refine ⟨generatedPath source, (Path.withoutExtension source).toList, ?_, ?_⟩
      · simp only [← hsource, inProject]
      · rw [generatedPath, String.toList_append]
    · cases hf
  · refine ⟨aggregateName, "Links".toList, ?_, by decide⟩
    rw [List.mem_singleton.mp hf, aggregateFile, inProject]

theorem isHandWritten_of_mem_files {staticLinks : Option Node} {f : GeneratedFile}
    (hf : f ∈ l.sourceFiles ++ [l.aggregateFile staticLinks]) :
    Source.isHandWritten (Path.baseName f.path) = false := by
  obtain ⟨name, front, hpath, hname⟩ := exists_path_of_mem_files hf
  obtain ⟨before, hbefore⟩ := Path.exists_toList_join l.projectRoot name
  apply Source.isHandWritten_baseName (before ++ front)
  rw [hpath, hbefore, hname, List.append_assoc]

theorem parts_aggregate
    (h : FileTree.isFileName (Path.baseName (Path.join projectRoot aggregateName)) = true) :
    Path.parts (Path.directory (Path.join projectRoot aggregateName)) = Path.parts projectRoot ∧
      Path.baseName (Path.join projectRoot aggregateName) = aggregateName := by
  have hparts := Path.parts_eq_directory_baseName (FileTree.ne_of_isFileName h).2
  have hsingle : Path.parts aggregateName = [aggregateName] := by decide
  rw [Path.parts_join (by decide), hsingle] at hparts
  have hlength : [aggregateName].length =
      [Path.baseName (Path.join projectRoot aggregateName)].length := by
    rw [List.length_singleton, List.length_singleton]
  obtain ⟨hdirectory, hlast⟩ := List.append_inj' hparts hlength
  exact ⟨hdirectory.symm, (List.cons.inj hlast).1.symm⟩

/-- All that a run brings paths to, but for the edited sources. -/
def outputs (l : Links) (staticLinks : Option Node) : List (String × Bytes) :=
  (l.sourceFiles ++ [l.aggregateFile staticLinks]).map GeneratedFile.output

theorem isHandWritten_of_mem_outputs {staticLinks : Option Node} {f : String × Bytes}
    (hf : f ∈ l.outputs staticLinks) : Source.isHandWritten (Path.baseName f.1) = false := by
  obtain ⟨file, hfile, rfl⟩ := List.mem_map.mp hf
  exact isHandWritten_of_mem_files hfile

theorem outputs_eq (l : Links) (staticLinks : Option Node) :
    l.outputs staticLinks =
      l.sourceFiles.map GeneratedFile.output ++ [(l.aggregateFile staticLinks).output] :=
  List.map_append

/-! ### What is there after a run -/

/-- A run over a tree, with the tree as it is when the static files are looked at. -/
structure Ran (s : Settings) (projectRoot : String) (l : Links) (t u t' : FileTree)
    (g : Generation) : Prop where
  generation : ∃ rewrites, l.rewrites = .ok rewrites ∧
    g = l.generation (StaticFiles.node? u s projectRoot) rewrites
  beside : t.PersistedAll u (l.sourceFiles.map GeneratedFile.output)
  path : (l.aggregateFile (StaticFiles.node? u s projectRoot)).path =
    Path.join projectRoot aggregateName
  root : ∃ done, u.persist (Path.join projectRoot aggregateName)
    (l.aggregateFile (StaticFiles.node? u s projectRoot)).output.2 = (t', some done)
  all : t.PersistedAll t' (l.outputs (StaticFiles.node? u s projectRoot))

theorem exists_ran (hl : ofTree grammar s projectRoot t = l)
    (hroot : (t.directory? projectRoot).isSome) (hoff : s.rewritesSources = false)
    (hrun : runInTree grammar s projectRoot true t = (.ok g, t')) :
    ∃ u, Ran s projectRoot l t u t' g := by
  obtain ⟨u, rewrites, hrewrites, hunits, haggregate, rfl⟩ := (runInTree_eq_ok_iff hoff).mp hrun
  have hpath : (l.aggregateFile (StaticFiles.node? u s projectRoot)).path =
      Path.join projectRoot aggregateName := by
    rw [← hl]
    rfl
  rw [hl] at hrewrites hunits haggregate ⊢
  have hempty : t.hasDirectory [] = true := FileTree.hasDirectory_nil_of_directory? hroot
  have hnames : ∀ f ∈ l.sourceFiles.map GeneratedFile.output ++
      [(l.aggregateFile (StaticFiles.node? u s projectRoot)).output],
      Source.isHandWritten (Path.baseName f.1) = false :=
    fun f hf => isHandWritten_of_mem_outputs (outputs_eq l _ ▸ hf)
  have hbeside := FileTree.persistedAll_of_persistAll? hempty
    (fun f hf => hnames f (List.mem_append_left _ hf)) hunits
  have hall := FileTree.persistAll?_append t (l.sourceFiles.map GeneratedFile.output)
    [(l.aggregateFile (StaticFiles.node? u s projectRoot)).output]
  rw [hunits, Option.bind_some, haggregate] at hall
  obtain ⟨w, done, hpersist, hw⟩ := FileTree.persistAll?_cons_eq_some_iff.mp haggregate
  obtain rfl : w = t' := Option.some.inj hw
  refine ⟨u, ⟨rewrites, hrewrites, rfl⟩, hbeside, hpath, ⟨done, hpath ▸ hpersist⟩, ?_⟩
  rw [outputs_eq]
  exact FileTree.persistedAll_of_persistAll? hempty hnames hall

namespace Ran

variable {place : Place}

theorem ofTree_eq (h : Ran s projectRoot l t u t' g) (hl : ofTree grammar s projectRoot t = l)
    (hroot : (t.directory? projectRoot).isSome) : ofTree grammar s projectRoot t' = l := by
  rw [← hl, ofTree, ofTree, Model.ofProject_eq h.all.grows hroot]

theorem mem_files_iff (h : Ran s projectRoot l t u t' g) {f : GeneratedFile} :
    f ∈ g.files ∧ f.isAggregate = false ↔ f ∈ l.sourceFiles := by
  obtain ⟨rewrites, _, rfl⟩ := h.generation
  have hbeside : ∀ f ∈ l.sourceFiles, f.isAggregate = false := by
    intro f hf
    rw [sourceFiles] at hf
    split at hf
    · obtain ⟨group, _, rfl⟩ := List.mem_map.mp hf
      rfl
    · cases hf
  constructor
  · rintro ⟨hf, haggregate⟩
    rcases List.mem_append.mp hf with hf | hf
    · exact hf
    · rw [List.mem_singleton.mp hf] at haggregate
      cases haggregate
  · exact fun hf => ⟨List.mem_append_left _ hf, hbeside f hf⟩

theorem hasDirectory_nil (h : Ran s projectRoot l t u t' g)
    (hroot : (t.directory? projectRoot).isSome) : u.hasDirectory [] = true :=
  h.beside.grows.directory [] (FileTree.hasDirectory_nil_of_directory? hroot)

theorem persisted (h : Ran s projectRoot l t u t' g) (hroot : (t.directory? projectRoot).isSome) :
    u.Persisted t' (Path.join projectRoot aggregateName)
      (l.aggregateFile (StaticFiles.node? u s projectRoot)).output.2 := by
  obtain ⟨done, hpersist⟩ := h.root
  refine FileTree.persisted_of_persist (h.hasDirectory_nil hroot) ?_ hpersist
  rw [← h.path]
  exact isHandWritten_of_mem_files (List.mem_append_right _ List.mem_cons_self)

theorem get?_eq_file (h : Ran s projectRoot l t u t' g) (hroot : (t.directory? projectRoot).isSome)
    (hfind : t'.find? (Path.join projectRoot aggregateName) = some place) :
    ∃ content, t'.get? place = some (.file content) := by
  obtain ⟨_, hread⟩ := FileTree.holds_iff.mp (h.persisted hroot).holds
  obtain ⟨there, hthere, hfile⟩ := FileTree.read?_eq_some_iff.mp hread
  rw [hfind] at hthere
  cases hthere
  exact ⟨_, hfile⟩

/-- The file at the root is put into the directory of the project, unless it is there with the same
content. -/
theorem eq_or_put (h : Ran s projectRoot l t u t' g) (hroot : (t.directory? projectRoot).isSome) :
    ∃ place, u.find? projectRoot = some place ∧
      t'.find? (Path.join projectRoot aggregateName) = some (place ++ [aggregateName]) ∧
        (t' = u ∨ u.Addable place aggregateName ∧ ∃ content,
          t' = u.put (.file content) (place ++ [aggregateName])) := by
  obtain ⟨done, hpersist⟩ := h.root
  have hwritten := h.persisted hroot
  obtain ⟨hname, hread⟩ := FileTree.holds_iff.mp hwritten.holds
  obtain ⟨hparts, hbase⟩ := parts_aggregate hname
  obtain ⟨d, hd⟩ := Option.isSome_iff_exists.mp (h.beside.grows.isSome_directory? hroot)
  obtain ⟨place, hfind, hdirectory, _⟩ := FileTree.directory?_eq_some_iff.mp hd
  have hwalk : u.walk? [] (Path.parts (Path.directory (Path.join projectRoot aggregateName))) =
      some place := by
    rw [hparts]
    exact hfind
  obtain ⟨there, hthere, _⟩ := FileTree.read?_eq_some_iff.mp hread
  obtain ⟨around, haround, _, _, rfl⟩ := (FileTree.find?_eq_some_iff hname).mp hthere
  rw [hwritten.grows.walk?_eq_some hwalk] at haround
  cases haround
  rw [hbase] at hthere
  refine ⟨place, hfind, hthere, ?_⟩
  have hput := FileTree.put_of_persist (h.hasDirectory_nil hroot) hdirectory hwalk hpersist
  rw [hbase] at hput
  exact hput.imp_right fun ⟨hadd, heq⟩ => ⟨hadd, _, heq⟩

/-- What was at the place of the file at the root when the static files were looked at. -/
theorem isSome_get?_iff (h : Ran s projectRoot l t u t' g)
    (hroot : (t.directory? projectRoot).isSome)
    (hfind : t'.find? (Path.join projectRoot aggregateName) = some place) :
    (u.get? place).isSome ↔ (t.get? place).isSome ∨
      ∃ f ∈ g.files, f.isAggregate = false ∧ t'.find? f.path = some place := by
  have hgrows := (h.persisted hroot).grows
  constructor
  · intro hpresent
    by_contra hnone
    obtain ⟨hbefore, hunits⟩ := not_or.mp hnone
    have helsewhere : ∀ f ∈ l.sourceFiles.map GeneratedFile.output, u.find? f.1 ≠ some place := by
      intro f hf hplace
      obtain ⟨file, hfile, rfl⟩ := List.mem_map.mp hf
      obtain ⟨hmem, hbeside⟩ := h.mem_files_iff.mpr hfile
      exact hunits ⟨file, hmem, hbeside, hgrows.find?_eq_some hplace⟩
    obtain ⟨x, hx⟩ := Option.isSome_iff_exists.mp hpresent
    cases x with
    | file content =>
        rw [(h.beside.elsewhere place content helsewhere).mp hx] at hbefore
        exact hbefore rfl
    | directory es =>
        have hdirectory : u.hasDirectory place = true := FileTree.hasDirectory_iff.mpr ⟨es, hx⟩
        obtain ⟨content, hfile⟩ := h.get?_eq_file hroot hfind
        exact FileTree.ne_file_of_hasDirectory (hgrows.directory place hdirectory) hfile
  · rintro (hbefore | ⟨f, hf, hbeside, hplace⟩)
    · exact h.beside.grows.isSome_get? hbefore
    · have hunit : f ∈ l.sourceFiles := h.mem_files_iff.mp ⟨hf, hbeside⟩
      obtain ⟨_, f', _, _, hread⟩ := h.beside.last f.output (List.mem_map_of_mem hunit)
      obtain ⟨there, hthere, hfile⟩ := FileTree.read?_eq_some_iff.mp hread
      have hsame : some there = some place := (hgrows.find?_eq_some hthere).symm.trans hplace
      cases hsame
      rw [hfile]
      rfl

theorem there (h : Ran s projectRoot l t u t' g) :
    ∀ f ∈ l.outputs (StaticFiles.node? u s projectRoot),
      FileTree.isFileName (Path.baseName f.1) = true ∧
        Source.isHandWritten (Path.baseName f.1) = false ∧ (t'.read? f.1).isSome := by
  intro f hf
  obtain ⟨hname, f', _, _, hread⟩ := h.all.last f hf
  exact ⟨hname, isHandWritten_of_mem_outputs hf, by rw [hread]; rfl⟩

end Ran

end Links

end RouteLinks
