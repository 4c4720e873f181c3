import RouteLinks.Proofs.Routes.Origin
import RouteLinks.Proofs.Source.Collection
import RouteLinks.Proofs.Source.Reading
/-!
# Where sources are

The path of a source is made of the names that lead to it, and the last of them is what a source is
known by. So whatever a path is put behind, it ends in the name of a source, which no generated file
has. A model that is read from a tree has its symbols from these paths only, and the contents of all
of them.
-/

namespace RouteLinks

variable {t : FileTree}

namespace Source

/-- What the path of a source in its project looks like. -/
structure IsSourcePath (path : String) : Prop where
  relative : beginsWith path "/" = false
  handWritten : isHandWritten (Path.baseName path) = true

theorem exists_names_of_mem_filesIn (h : t.IsNamed) {place there : Place} {content : Bytes}
    (hmem : (there, content) ∈ filesIn place t.sorted) :
    ∃ way name, there = place ++ (way ++ [name]) ∧ (∀ n ∈ way ++ [name], Path.IsName n) ∧
      isHandWritten name = true := by
  induction h generalizing place with
  | file content => cases hmem
  | @directory es names entries ih =>
      have hentry : ∀ e ∈ sortBy FileTree.byName es, e ∈ es := fun e he =>
        (sortBy_perm FileTree.byName es).mem_iff.mp he
      rw [filesIn_sorted, List.mem_append, List.mem_flatMap, List.mem_flatMap] at hmem
      rcases hmem with ⟨e, he, hmem⟩ | ⟨e, he, hmem⟩
      · obtain ⟨name, content | inner⟩ := e
        · simp only [FileTree.sortedEntry, FileTree.sorted, ofEntry] at hmem
          split at hmem
          · next hname =>
            obtain ⟨rfl, -⟩ := Prod.mk.inj (List.mem_singleton.mp hmem)
            exact ⟨[], name, rfl, List.forall_mem_singleton.mpr (names _ (hentry _ he)), hname⟩
          · cases hmem
        · cases hmem
      · rw [inEntry] at hmem
        split at hmem
        · obtain ⟨way, name, rfl, hnames, hname⟩ := ih e (hentry e he) hmem
          refine ⟨e.1 :: way, name, List.append_assoc place [e.1] _, ?_, hname⟩
          exact List.forall_mem_cons.mpr ⟨names e (hentry e he), hnames⟩
        · cases hmem

theorem map_filePath_filesOfTree (g : Grammar) (t : FileTree) :
    (filesOfTree g t).map SourceFile.filePath = (ofTree t).map Prod.fst := by
  rw [filesOfTree, List.map_map]
  rfl

def paths (t : FileTree) : List String := (ofTree t).map Prod.fst

theorem isSourcePath_of_mem_paths (h : t.IsNamed) {path : String} (hpath : path ∈ paths t) :
    IsSourcePath path := by
  obtain ⟨source, hsource, rfl⟩ := List.mem_map.mp hpath
  obtain ⟨⟨there, content⟩, hmem, rfl⟩ := List.mem_map.mp hsource
  obtain ⟨way, name, rfl, hnames, hname⟩ := exists_names_of_mem_filesIn h hmem
  constructor
  case relative => exact Path.beginsWith_intercalate hnames
  case handWritten =>
    have hslash : '/' ∉ name.toList :=
      (hnames name (List.mem_append_right _ List.mem_cons_self)).2
    exact (congrArg isHandWritten (Path.baseName_intercalate way hslash)).trans hname

end Source

namespace Model

/-- The model of a project is that of the files which are read from its sources. -/
theorem exists_files_ofTree (g : Grammar) (t : FileTree) :
    ∃ files, ofTree g t = ofFiles files ∧ (∀ f ∈ files, f.IsRecorded) ∧
      ∀ path, path ∈ files.map SourceFile.filePath ↔ path ∈ Source.paths t := by
  refine ⟨_, rfl, ?_, ?_⟩
  · intro f hf u hu
    obtain ⟨⟨path, bytes⟩, _, rfl⟩ := List.mem_map.mp ((sortBy_perm _ _).mem_iff.mp hf)
    exact Source.filePath_of_mem_read hu
  · intro path
    rw [Source.paths, ← Source.map_filePath_filesOfTree g]
    exact ((sortBy_perm _ (Source.filesOfTree g t)).map SourceFile.filePath).mem_iff

theorem isWithin_of_mem_ofTree (g : Grammar) (t : FileTree) :
    ∀ c ∈ (ofTree g t).classes, c.IsWithin (Source.paths t) := by
  obtain ⟨files, hfiles, hrecorded, hpaths⟩ := exists_files_ofTree g t
  rw [hfiles]
  intro c hc
  obtain ⟨hpath, hmethods⟩ := isWithin_of_mem_ofFiles hrecorded c hc
  exact ⟨(hpaths _).mp hpath, fun x hx => (hpaths _).mp (hmethods x hx)⟩

theorem isSome_lookup_ofTree (g : Grammar) (t : FileTree) (path : String) :
    ((ofTree g t).sources.lookup path).isSome ↔ path ∈ Source.paths t := by
  obtain ⟨files, hfiles, -, hpaths⟩ := exists_files_ofTree g t
  rw [hfiles, isSome_lookup_sources, hpaths]

end Model

end RouteLinks
