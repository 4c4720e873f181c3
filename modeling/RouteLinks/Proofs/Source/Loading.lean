import RouteLinks.Proofs.Source.Collection
/-!
# Sources from a tree and from a mapping

A walk through a project meets each of its sources once, at the place where it is. So the sources of
a project are a mapping from paths to contents, which says as much as the tree does, in whatever
order its directories list their entries: the model of the project is the model of that mapping.
-/

namespace RouteLinks

variable {t listed : FileTree}

namespace Source

/-! ### What a walk meets -/

theorem mem_filesAmong_iff {place there : Place} {content : Bytes}
    {es : List (String × FileTree)} :
    (there, content) ∈ filesAmong place es ↔
      ∃ name, there = place ++ [name] ∧ (name, .file content) ∈ es ∧
        isHandWritten name = true := by
  rw [filesAmong_eq, List.mem_flatMap]
  constructor
  · rintro ⟨⟨name, found | inner⟩, he, hmem⟩
    · rw [ofEntry] at hmem
      split at hmem
      · next hname =>
        obtain ⟨rfl, rfl⟩ := Prod.mk.inj (List.mem_singleton.mp hmem)
        exact ⟨name, rfl, he, hname⟩
      · cases hmem
    · cases hmem
  · rintro ⟨name, rfl, he, hname⟩
    refine ⟨_, he, ?_⟩
    rw [ofEntry, if_pos hname]
    exact List.mem_singleton_self _

def sourceNames (es : List (String × FileTree)) : List String :=
  (es.filter fun e => !e.2.isDirectory && isHandWritten e.1).map Prod.fst

theorem map_fst_filesAmong (place : Place) (es : List (String × FileTree)) :
    (filesAmong place es).map Prod.fst = (sourceNames es).map fun name => place ++ [name] := by
  induction es with
  | nil => rfl
  | cons entry rest ih =>
      obtain ⟨name, content | inner⟩ := entry
      · rw [filesAmong, sourceNames, List.filter_cons]
        cases hname : isHandWritten name with
        | true => exact congrArg (_ :: ·) ih
        | false => exact ih
      · exact ih

def enters (name : String) : Bool := !isSkippedDirectory name

mutual

theorem filesIn_eq_flatMap : ∀ (place : Place) (t : FileTree),
    filesIn place t = (t.visited enters place).flatMap fun visit => filesAmong visit.1 visit.2
  | _, .file _ => rfl
  | place, .directory es => by
      rw [filesIn, FileTree.visited, List.flatMap_cons, filesBelow_eq_flatMap place es]

theorem filesBelow_eq_flatMap : ∀ (place : Place) (es : List (String × FileTree)),
    filesBelow place es =
      (FileTree.visitedBelow enters place es).flatMap fun visit => filesAmong visit.1 visit.2
  | _, [] => rfl
  | place, (name, .file _) :: rest => by
      rw [filesBelow, FileTree.visitedBelow, filesBelow_eq_flatMap place rest]
      simp [FileTree.isDirectory, FileTree.visited]
  | place, (name, .directory es) :: rest => by
      rw [filesBelow, FileTree.visitedBelow, filesBelow_eq_flatMap place rest,
        filesIn_eq_flatMap (place ++ [name]) (.directory es), enters, FileTree.isDirectory,
        Bool.true_and]
      split
      · rw [List.flatMap_append]
      · rfl

end

/-- A walk meets the sources to which names of entered directories lead. -/
theorem mem_filesIn_iff (h : t.NamesOnce) {place there : Place} {content : Bytes} :
    (there, content) ∈ filesIn place t ↔
      ∃ way name, there = place ++ (way ++ [name]) ∧
        t.get? (way ++ [name]) = some (.file content) ∧
        (∀ step ∈ way, isSkippedDirectory step = false) ∧ isHandWritten name = true := by
  rw [filesIn_eq_flatMap, List.mem_flatMap]
  constructor
  · rintro ⟨⟨around, es⟩, hvisit, hmem⟩
    obtain ⟨way, rfl, hdirectory, hway⟩ := (FileTree.mem_visited_iff h).mp hvisit
    obtain ⟨name, rfl, he, hname⟩ := mem_filesAmong_iff.mp hmem
    refine ⟨way, name, List.append_assoc _ _ _, ?_, fun step hstep => ?_, hname⟩
    · exact (FileTree.get?_concat_eq_some_iff h).mpr ⟨es, hdirectory, he⟩
    · exact Bool.not_eq_eq_eq_not.mp (hway step hstep)
  · rintro ⟨way, name, rfl, hget, hway, hname⟩
    obtain ⟨es, hdirectory, he⟩ := (FileTree.get?_concat_eq_some_iff h).mp hget
    refine ⟨(place ++ way, es), (FileTree.mem_visited_iff h).mpr ⟨way, rfl, hdirectory, ?_⟩, ?_⟩
    · exact fun step hstep => by rw [enters, hway step hstep]; rfl
    · exact mem_filesAmong_iff.mpr ⟨name, (List.append_assoc _ _ _).symm, he, hname⟩

theorem nodup_filesIn (h : t.NamesOnce) (place : Place) :
    ((filesIn place t).map Prod.fst).Nodup := by
  simp only [filesIn_eq_flatMap, List.map_flatMap, map_fst_filesAmong]
  exact FileTree.nodup_flatMap_visited h place fun es hes =>
    hes.sublist (List.filter_sublist.map Prod.fst)

/-! ### The mapping of a project -/

/-- Sources under their paths, in any order, as a tree has them: those whose names are names of
sources, in directories that are entered. -/
structure IsMapping (t : FileTree) (sources : List (String × Bytes)) : Prop where
  paths_nodup : (sources.map Prod.fst).Nodup
  mem_iff : ∀ path content, (path, content) ∈ sources ↔
    ∃ way name, path = "/".intercalate (way ++ [name]) ∧
      t.get? (way ++ [name]) = some (.file content) ∧
      (∀ step ∈ way, isSkippedDirectory step = false) ∧ isHandWritten name = true

theorem IsMapping.perm {sources others : List (String × Bytes)} (h : IsMapping t sources)
    (h' : IsMapping t others) : sources.Perm others := by
  rw [List.perm_ext_iff_of_nodup h.paths_nodup.of_map h'.paths_nodup.of_map]
  rintro ⟨path, content⟩
  rw [h.mem_iff, h'.mem_iff]

/-- The sources that are collected from a tree are its mapping, however it is listed. -/
theorem isMapping_ofTree (hnamed : t.IsNamed) (honce : t.NamesOnce) (hlisted : t.Relisted listed) :
    IsMapping t (ofTree listed) := by
  have honce' : listed.NamesOnce := hlisted.namesOnce honce
  have hsorted : listed.Relisted listed.sorted := honce'.relisted_sorted
  have hget : ∀ {place : Place} {content : Bytes},
      listed.sorted.get? place = some (.file content) ↔ t.get? place = some (.file content) :=
    (hsorted.get?_eq_file_iff honce').trans (hlisted.get?_eq_file_iff honce)
  constructor
  case paths_nodup =>
    have hnames : ∀ there ∈ (filesIn [] listed.sorted).map Prod.fst,
        ∀ name ∈ there, Path.IsName name := by
      intro there hthere
      obtain ⟨⟨_, content⟩, hmem, rfl⟩ := List.mem_map.mp hthere
      obtain ⟨way, name, rfl, hfile, -⟩ := (mem_filesIn_iff (hsorted.namesOnce honce')).mp hmem
      exact hnamed.isName_of_get? (by rw [List.nil_append, hget.mp hfile]; rfl)
    rw [ofTree, List.map_map]
    show ((filesIn [] listed.sorted).map ("/".intercalate ∘ Prod.fst)).Nodup
    rw [← List.map_map]
    refine (nodup_filesIn (hsorted.namesOnce honce') []).map_on fun there hthere other hother => ?_
    exact (Path.intercalate_inj (hnames there hthere) (hnames other hother)).mp
  case mem_iff =>
    intro path content
    rw [ofTree, List.mem_map]
    constructor
    · rintro ⟨⟨there, found⟩, hmem, hsame⟩
      obtain ⟨rfl, rfl⟩ := Prod.mk.inj hsame
      obtain ⟨way, name, rfl, hfile, hway⟩ := (mem_filesIn_iff (hsorted.namesOnce honce')).mp hmem
      exact ⟨way, name, rfl, hget.mp hfile, hway⟩
    · rintro ⟨way, name, rfl, hfile, hway⟩
      refine ⟨(way ++ [name], content), ?_, rfl⟩
      exact (mem_filesIn_iff (hsorted.namesOnce honce')).mpr ⟨way, name, rfl, hget.mpr hfile, hway⟩

end Source

namespace Model

/-- A project has the model of the mapping of its sources, in whatever order its directories list
their entries and the mapping lists the sources. -/
theorem ofTree_eq_ofSources (g : Grammar) (hnamed : t.IsNamed) (honce : t.NamesOnce)
    (hlisted : t.Relisted listed) {sources : List (String × Bytes)}
    (h : Source.IsMapping t sources) : ofTree g listed = ofSources g sources := by
  have hcollected := Source.isMapping_ofTree hnamed honce hlisted
  rw [ofTree, Source.filesOfTree, sortBy_map, ofSources,
    sortBy_eq_of_perm (h.perm hcollected) h.paths_nodup]
  rfl

/-- The entries of a project with a class in two parts, where the one that is met later has the
path that comes first. A generated file and the output of a build are no sources. -/
def shopEntries : List (String × FileTree) :=
  [("shop.generated.cs", .file []),
    ("bin", .directory [("copy.cs", .file [])]),
    ("Areas", .directory [("part.cs", .file (Utf8.encode "partial class Shop : Controller { }"))]),
    ("shop.cs", .file (Utf8.encode "partial class Shop { }"))]

theorem isNamed_shop : (FileTree.directory shopEntries).IsNamed := by
  refine .directory (by decide) ?_
  simp only [shopEntries, List.forall_mem_cons]
  exact ⟨.file _, .directory (by decide) (List.forall_mem_singleton.mpr (.file _)),
    .directory (by decide) (List.forall_mem_singleton.mpr (.file _)), .file _,
    List.forall_mem_nil _⟩

theorem namesOnce_shop : (FileTree.directory shopEntries).NamesOnce := by
  refine .directory (by decide) ?_
  simp only [shopEntries, List.forall_mem_cons]
  exact ⟨.file _, .directory (by decide) (List.forall_mem_singleton.mpr (.file _)),
    .directory (by decide) (List.forall_mem_singleton.mpr (.file _)), .file _,
    List.forall_mem_nil _⟩

/-- Neither the order of the entries nor that of the mapping is that of the paths here. -/
theorem ofTree_eq_ofSources_shop :
    (FileTree.directory shopEntries).IsNamed ∧ (FileTree.directory shopEntries).NamesOnce ∧
      (FileTree.directory shopEntries).Relisted (.directory shopEntries.reverse) ∧
      ∃ sources, Source.IsMapping (.directory shopEntries) sources ∧
        sources.map Prod.fst = ["shop.cs", "Areas/part.cs"] ∧
        ∀ g : Grammar, ofTree g (.directory shopEntries.reverse) = ofSources g sources := by
  have hlisted : (FileTree.directory shopEntries).Relisted (.directory shopEntries.reverse) :=
    .of_perm namesOnce_shop (List.reverse_perm _)
  have hmapping := Source.isMapping_ofTree isNamed_shop namesOnce_shop hlisted
  exact ⟨isNamed_shop, namesOnce_shop, hlisted, _, hmapping, by decide +kernel,
    fun g => ofTree_eq_ofSources g isNamed_shop namesOnce_shop hlisted hmapping⟩

end Model

end RouteLinks
