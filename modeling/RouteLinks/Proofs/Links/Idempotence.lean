import RouteLinks.Proofs.Links.Afterwards
import RouteLinks.Proofs.Links.Listing
import RouteLinks.Proofs.Links.Paths
/-!
# Running twice

What a run generates is no source of the next run, so the next run makes the same files again. There
are two ways in which generated files come back all the same. The links to static files list what is
in a directory, and if that has the root of the project in it, the next run lists the file there,
which the run before could not. And two files for one place are written one over the other, by every
run. Main statement: the next run makes the same if and only if the file at the root is not new and
listed at once, and then it writes nothing unless two files have one place.
-/

namespace RouteLinks

variable {grammar : Grammar} {t u t' : FileTree} {s : Settings} {projectRoot : String}
  {g : Generation} {l : Links}

namespace FileTree

variable {files : List (String × Bytes)}

theorem exists_persistAll? (h : ∀ f ∈ files, isFileName (Path.baseName f.1) = true ∧
      Source.isHandWritten (Path.baseName f.1) = false ∧ (t.read? f.1).isSome)
    (s : Settings) (projectRoot : String) :
    ∃ t', t.persistAll? files = some t' ∧ t.Grows t' ∧
      StaticFiles.node? t' s projectRoot = StaticFiles.node? t s projectRoot := by
  induction files generalizing t with
  | nil => exact ⟨t, rfl, .refl t, rfl⟩
  | cons file rest ih =>
      obtain ⟨path, content⟩ := file
      obtain ⟨hname, hgenerated, hread⟩ := h _ List.mem_cons_self
      obtain ⟨place, hadd, hwalk, hpresent⟩ := exists_addable_of_read? hname hread
      obtain ⟨u, done, hpersist, hu⟩ := exists_persist hname hadd hwalk content
      have hfirst : t.Grows u ∧
          StaticFiles.node? u s projectRoot = StaticFiles.node? t s projectRoot := by
        rcases hu with rfl | rfl
        · exact ⟨.refl u, rfl⟩
        · exact ⟨hadd.grows (.generated content hgenerated),
            StaticFiles.node?_put hadd (.inl hpresent)⟩
      obtain ⟨t', hrest, hgrows, hlinks⟩ := ih fun f hf => by
        obtain ⟨hname', hgenerated', hread'⟩ := h f (List.mem_cons_of_mem _ hf)
        exact ⟨hname', hgenerated', hfirst.1.isSome_read? hread'⟩
      exact ⟨t', persistAll?_cons_eq_some_iff.mpr ⟨u, done, hpersist, hrest⟩,
        hfirst.1.trans hgrows, hlinks.trans hfirst.2⟩

end FileTree

/-- No two files of a run lead to one place with different contents. -/
def Generation.NoClash (g : Generation) (t : FileTree) : Prop :=
  ∀ f ∈ g.files, ∀ f' ∈ g.files, t.find? f.path = t.find? f'.path → f.output.2 = f'.output.2

/-- A run over a tree makes the same as the run before, and unless files of it clash it finds all of
them there and leaves the tree as it is. -/
structure Generation.Again (g : Generation) (grammar : Grammar) (s : Settings)
    (projectRoot : String) (t : FileTree) : Prop where
  same : (Links.runInTree grammar s projectRoot true t).1 = .ok g
  unwritten : (∀ f ∈ g.files, t.persist f.path f.output.2 = (t, some false)) ↔ g.NoClash t
  untouched : g.NoClash t → (Links.runInTree grammar s projectRoot true t).2 = t

/-- The file at the root is not new and listed at once: where it is listed, it was there before the
run, or one of the files beside the sources is at its place. -/
def Generation.NoneListed (g : Generation) (s : Settings) (projectRoot : String)
    (t t' : FileTree) : Prop :=
  ∀ place, t'.find? (Path.join projectRoot Links.aggregateName) = some place →
    StaticFiles.Lists t' s projectRoot place →
      (t.get? place).isSome ∨ ∃ f ∈ g.files, f.isAggregate = false ∧ t'.find? f.path = some place

namespace Links

/-- Where everything that a run makes is there, a run succeeds and makes the same. -/
theorem exists_runInTree {rewrites : List SourceRewrite} (hl : ofTree grammar s projectRoot t = l)
    (hoff : s.rewritesSources = false) (hrewrites : l.rewrites = .ok rewrites)
    (hthere : ∀ f ∈ l.outputs (StaticFiles.node? t s projectRoot),
      FileTree.isFileName (Path.baseName f.1) = true ∧
        Source.isHandWritten (Path.baseName f.1) = false ∧ (t.read? f.1).isSome) :
    ∃ t', runInTree grammar s projectRoot true t =
      (.ok (l.generation (StaticFiles.node? t s projectRoot) rewrites), t') := by
  rw [outputs_eq] at hthere
  obtain ⟨u, hunits, hgrows, hlinks⟩ := FileTree.exists_persistAll?
    (fun f hf => hthere f (List.mem_append_left _ hf)) s projectRoot
  have hroot : ∀ f ∈ [(l.aggregateFile (StaticFiles.node? t s projectRoot)).output],
      FileTree.isFileName (Path.baseName f.1) = true ∧
        Source.isHandWritten (Path.baseName f.1) = false ∧ (u.read? f.1).isSome := by
    intro f hf
    obtain ⟨hname, hgenerated, hread⟩ := hthere f (List.mem_append_right _ hf)
    exact ⟨hname, hgenerated, hgrows.isSome_read? hread⟩
  obtain ⟨t', haggregate, _⟩ := FileTree.exists_persistAll? hroot s projectRoot
  refine ⟨t', (runInTree_eq_ok_iff hoff).mpr ⟨u, rewrites, ?_⟩⟩
  rw [hl, hlinks]
  exact ⟨hrewrites, hunits, haggregate, rfl⟩

/-- Where everything that a run makes has its content, a run changes nothing. -/
theorem runInTree_of_holds {rewrites : List SourceRewrite} (hl : ofTree grammar s projectRoot t = l)
    (hoff : s.rewritesSources = false) (hrewrites : l.rewrites = .ok rewrites)
    (hholds : ∀ f ∈ l.outputs (StaticFiles.node? t s projectRoot), t.holds f.1 f.2 = true) :
    runInTree grammar s projectRoot true t =
      (.ok (l.generation (StaticFiles.node? t s projectRoot) rewrites), t) := by
  rw [outputs_eq] at hholds
  refine (runInTree_eq_ok_iff hoff).mpr ⟨t, rewrites, ?_⟩
  rw [hl]
  exact ⟨hrewrites, FileTree.persistAll?_of_holds fun f hf => hholds f (List.mem_append_left _ hf),
    FileTree.persistAll?_of_holds fun f hf => hholds f (List.mem_append_right _ hf), rfl⟩

/-- The file at the root tells apart links with different numbers of lines. -/
theorem aggregateFile_ne (l : Links) {node node' : Node}
    (h : (node.lines 0).length ≠ (node'.lines 0).length) :
    l.aggregateFile (some node) ≠ l.aggregateFile (some node') := by
  intro hsame
  have hlines := congrArg (fun f => (Layout.kept f.text.toList).length) hsame
  simp only [aggregateFile, length_kept_aggregateUnit] at hlines
  exact h (Nat.add_left_cancel hlines)

namespace Ran

variable {place : Place}

/-- The links stay as they are if the file at the root was there before, or is not listed. -/
theorem node?_eq (h : Ran s projectRoot l t u t' g) (hroot : (t.directory? projectRoot).isSome)
    (hlisted : ∀ place, t'.find? (Path.join projectRoot aggregateName) = some place →
      StaticFiles.Lists t' s projectRoot place → (u.get? place).isSome) :
    StaticFiles.node? t' s projectRoot = StaticFiles.node? u s projectRoot := by
  obtain ⟨place, -, hfind, rfl | ⟨hadd, content, heq⟩⟩ := h.eq_or_put hroot
  · rfl
  · rw [heq]
    apply StaticFiles.node?_put hadd
    by_cases hpresent : (u.get? (place ++ [aggregateName])).isSome
    · exact .inl hpresent
    · exact .inr fun hlists =>
        hpresent (hlisted _ hfind (hlists.mono (h.persisted hroot).grows))

/-- The links have more lines if the file at the root is new and listed. -/
theorem exists_node? (h : Ran s projectRoot l t u t' g) (hroot : (t.directory? projectRoot).isSome)
    (hfind : t'.find? (Path.join projectRoot aggregateName) = some place)
    (hlists : StaticFiles.Lists t' s projectRoot place) (hnew : u.get? place = none) :
    ∃ node node', StaticFiles.node? u s projectRoot = some node ∧
      StaticFiles.node? t' s projectRoot = some node' ∧
        (node.lines 0).length < (node'.lines 0).length := by
  obtain ⟨around, -, haround, rfl | ⟨hadd, content, rfl⟩⟩ := h.eq_or_put hroot
  · obtain ⟨content, hfile⟩ := h.get?_eq_file hroot hfind
    rw [hfile] at hnew
    cases hnew
  · rw [hfind] at haround
    cases haround
    exact StaticFiles.exists_node?_put hadd hnew (hlists.of_put hadd)

theorem again (h : Ran s projectRoot l t u t' g) (hl : ofTree grammar s projectRoot t' = l)
    (hoff : s.rewritesSources = false)
    (hlinks : StaticFiles.node? t' s projectRoot = StaticFiles.node? u s projectRoot) :
    g.Again grammar s projectRoot t' := by
  obtain ⟨rewrites, hrewrites, hgeneration⟩ := h.generation
  have hall := h.all
  have hthere := h.there
  rw [← hlinks] at hgeneration hall hthere
  have hholds : (∀ f ∈ l.outputs (StaticFiles.node? t' s projectRoot), t'.holds f.1 f.2 = true) ↔
      g.NoClash t' := by
    rw [hall.holds_iff, hgeneration]
    simp only [outputs, List.forall_mem_map]
    rfl
  constructor
  case same =>
    obtain ⟨t'', hagain⟩ := exists_runInTree hl hoff hrewrites hthere
    rw [hagain, hgeneration]
  case unwritten =>
    rw [← hholds, hgeneration]
    simp only [FileTree.persist_eq_self_iff, outputs, List.forall_mem_map]
    rfl
  case untouched =>
    intro hclash
    rw [runInTree_of_holds hl hoff hrewrites (hholds.mpr hclash)]

/-- Where the file at the root is new and listed, the next run makes something else. -/
theorem fst_runInTree_ne (h : Ran s projectRoot l t u t' g)
    (hl : ofTree grammar s projectRoot t' = l)
    (hroot : (t.directory? projectRoot).isSome) (hoff : s.rewritesSources = false)
    (hfind : t'.find? (Path.join projectRoot aggregateName) = some place)
    (hlists : StaticFiles.Lists t' s projectRoot place) (hnew : u.get? place = none) :
    (runInTree grammar s projectRoot true t').1 ≠ .ok g := by
  intro hsame
  obtain ⟨node, node', hnode, hnode', hlt⟩ := h.exists_node? hroot hfind hlists hnew
  obtain ⟨rewrites, _, hgeneration⟩ := h.generation
  have hrun : runInTree grammar s projectRoot true t' =
      (.ok g, (runInTree grammar s projectRoot true t').2) :=
    Prod.ext hsame rfl
  obtain ⟨w, rewrites', _, hunits, _, hgeneration'⟩ := (runInTree_eq_ok_iff hoff).mp hrun
  rw [hl] at hunits hgeneration'
  -- The files beside the sources are there already, so the second run finds what there is now.
  have hthere := h.there
  rw [outputs_eq] at hthere
  obtain ⟨w', hunits', _, hlinks⟩ := FileTree.exists_persistAll?
    (fun f hf => hthere f (List.mem_append_left _ hf)) s projectRoot
  obtain rfl : w = w' := Option.some.inj (hunits.symm.trans hunits')
  rw [hlinks, hnode', hgeneration, hnode] at hgeneration'
  have hfiles : l.sourceFiles ++ [l.aggregateFile (some node)] =
      l.sourceFiles ++ [l.aggregateFile (some node')] := congrArg Generation.files hgeneration'
  exact l.aggregateFile_ne (Nat.ne_of_lt hlt) (List.cons.inj (List.append_cancel_left hfiles)).1

end Ran

/-- What a run makes over what it has generated: the same, but for a file at the root that is new
and listed. -/
theorem again_iff_noneListed (hroot : (t.directory? projectRoot).isSome)
    (hoff : s.rewritesSources = false)
    (hrun : runInTree grammar s projectRoot true t = (.ok g, t')) :
    g.Again grammar s projectRoot t' ↔ g.NoneListed s projectRoot t t' := by
  obtain ⟨u, hran⟩ := exists_ran rfl hroot hoff hrun
  have hl := hran.ofTree_eq rfl hroot
  constructor
  · intro hagain place hfind hlists
    by_contra hnew
    rw [← hran.isSome_get?_iff hroot hfind, Option.not_isSome_iff_eq_none] at hnew
    exact hran.fst_runInTree_ne hl hroot hoff hfind hlists hnew hagain.same
  · intro hnone
    refine hran.again hl hoff (hran.node?_eq hroot ?_)
    intro place hfind hlists
    exact (hran.isSome_get?_iff hroot hfind).mpr (hnone place hfind hlists)

theorem sourceFiles_eq_nil (h : l.settings.splitsFiles = false) : l.sourceFiles = [] := by
  rw [sourceFiles, h, if_neg Bool.false_ne_true]

theorem exists_runInTree_of_addable {place : Place} {rewrites : List SourceRewrite}
    (hoff : s.rewritesSources = false) (hsplit : s.splitsFiles = false)
    (hrewrites : (ofTree grammar s projectRoot t).rewrites = .ok rewrites)
    (hfind : t.find? projectRoot = some place)
    (hname : FileTree.isFileName (Path.baseName (Path.join projectRoot aggregateName)) = true)
    (hadd : t.Addable place aggregateName) :
    ∃ g t', runInTree grammar s projectRoot true t = (.ok g, t') := by
  obtain ⟨hparts, hbase⟩ := parts_aggregate hname
  have hwalk : t.walk? [] (Path.parts (Path.directory (Path.join projectRoot aggregateName))) =
      some place := by
    rw [hparts]
    exact hfind
  have hfree : t.Addable place (Path.baseName (Path.join projectRoot aggregateName)) := by
    rw [hbase]
    exact hadd
  obtain ⟨t', done, hpersist, -⟩ := FileTree.exists_persist hname hfree hwalk
    ((ofTree grammar s projectRoot t).aggregateFile
      (StaticFiles.node? t s projectRoot)).output.2
  have hfiles : (ofTree grammar s projectRoot t).sourceFiles = [] := sourceFiles_eq_nil hsplit
  have hunits : t.persistAll?
      ((ofTree grammar s projectRoot t).sourceFiles.map GeneratedFile.output) = some t := by
    rw [hfiles]
    rfl
  exact ⟨_, t', (runInTree_eq_ok_iff hoff).mpr ⟨t, rewrites, hrewrites, hunits,
    FileTree.persistAll?_cons_eq_some_iff.mpr ⟨t', done, hpersist, rfl⟩, rfl⟩⟩

/-- The entries of a project: a source, and others beside it. -/
def shopEntries (others : List (String × FileTree)) : List (String × FileTree) :=
  ("HomeController.cs", .file (Utf8.encode
    "public class HomeController { public IActionResult Index() { return null; } }")) :: others

def shopTree (others : List (String × FileTree)) : FileTree :=
  .directory [("shop", .directory (shopEntries others))]

def siteSettings (staticFilesPath : String) : Settings :=
  { rewritesSources := false, staticFilesPath }

theorem exists_runInTree_shop (grammar : Grammar) (staticFilesPath : String)
    {others : List (String × FileTree)} (hnamed : (FileTree.directory (shopEntries others)).IsNamed)
    (hadd : (shopTree others).Addable ["shop"] aggregateName) :
    ∃ g t', runInTree grammar (siteSettings staticFilesPath) "shop" true (shopTree others) =
      (.ok g, t') := by
  have hfrom : (ofTree grammar (siteSettings staticFilesPath) "shop" (shopTree others)).FromTree
      grammar (.directory (shopEntries others)) := ⟨rfl, hnamed⟩
  obtain ⟨rewrites, hrewrites, -⟩ := hfrom.exists_rewrites
  exact exists_runInTree_of_addable rfl rfl hrewrites rfl (by decide +kernel) hadd

def siteEntries : List (String × FileTree) := [("wwwroot", .directory [("site.css", .file [])])]

/-- The links to static files do not reach the root of the project here. -/
theorem again_beside_static_files :
    ((shopTree siteEntries).directory? "shop").isSome ∧
      (siteSettings "wwwroot").rewritesSources = false ∧ ∀ grammar : Grammar, ∃ g t',
        runInTree grammar (siteSettings "wwwroot") "shop" true (shopTree siteEntries) =
            (.ok g, t') ∧
          g.Again grammar (siteSettings "wwwroot") "shop" t' := by
  have hroot : ((shopTree siteEntries).directory? "shop").isSome := by decide +kernel
  have hadd : (shopTree siteEntries).Addable ["shop"] aggregateName :=
    ⟨by decide +kernel, by decide +kernel⟩
  have hshop : (shopTree siteEntries).find? "shop" = some ["shop"] := by decide +kernel
  have hstatic : (shopTree siteEntries).find? (Path.join "shop" "wwwroot") =
      some ["shop", "wwwroot"] := by decide +kernel
  have hnamed : (FileTree.directory (shopEntries siteEntries)).IsNamed := by
    refine .directory (by decide) ?_
    simp only [shopEntries, siteEntries, List.forall_mem_cons]
    exact ⟨.file _, .directory (by decide) (List.forall_mem_singleton.mpr (.file _)),
      List.forall_mem_nil _⟩
  refine ⟨hroot, rfl, fun grammar => ?_⟩
  obtain ⟨g, t', hrun⟩ := exists_runInTree_shop grammar "wwwroot" hnamed hadd
  refine ⟨g, t', hrun, (again_iff_noneListed hroot rfl hrun).mpr ?_⟩
  obtain ⟨u, hran⟩ := exists_ran rfl hroot rfl hrun
  obtain ⟨place, hplace, hfind, -⟩ := hran.eq_or_put hroot
  rw [hran.beside.grows.find?_eq_some hshop] at hplace
  cases hplace
  rintro there hthere ⟨_, root, way, name, hroot', hsame, _⟩
  rw [hfind] at hthere
  cases hthere
  rw [siteSettings, hran.all.grows.find?_eq_some hstatic] at hroot'
  cases hroot'
  exact absurd (List.cons.inj (List.cons.inj hsame).2).1 (by decide +kernel)

/-- The links to static files have the root of the project in them here. -/
theorem fst_runInTree_ne_over_listed_root :
    ((shopTree []).directory? "shop").isSome ∧ ∀ grammar : Grammar, ∃ g t',
      runInTree grammar (siteSettings ".") "shop" true (shopTree []) = (.ok g, t') ∧
        (runInTree grammar (siteSettings ".") "shop" true t').1 ≠ .ok g := by
  have hroot : ((shopTree []).directory? "shop").isSome := by decide +kernel
  have hadd : (shopTree []).Addable ["shop"] aggregateName :=
    ⟨by decide +kernel, by decide +kernel⟩
  have hshop : (shopTree []).find? "shop" = some ["shop"] := by decide +kernel
  have hstatic : (shopTree []).find? (Path.join "shop" ".") = some ["shop"] := by decide +kernel
  have hnamed : (FileTree.directory (shopEntries [])).IsNamed :=
    .directory (by decide) (List.forall_mem_singleton.mpr (.file _))
  refine ⟨hroot, fun grammar => ?_⟩
  obtain ⟨g, t', hrun⟩ := exists_runInTree_shop grammar "." hnamed hadd
  refine ⟨g, t', hrun, ?_⟩
  obtain ⟨u, hran⟩ := exists_ran rfl hroot rfl hrun
  obtain ⟨place, hplace, hfind, -⟩ := hran.eq_or_put hroot
  rw [hran.beside.grows.find?_eq_some hshop] at hplace
  cases hplace
  have hthere : t'.find? (Path.join "shop" aggregateName) = some ["shop", aggregateName] := hfind
  have hnew : u.get? ["shop", aggregateName] = none := by
    rw [← Option.not_isSome_iff_eq_none, hran.isSome_get?_iff hroot hthere]
    rintro (hbefore | ⟨f, hf, hbeside, _⟩)
    · exact absurd hbefore (by decide +kernel)
    · have hunit := hran.mem_files_iff.mp ⟨hf, hbeside⟩
      rw [sourceFiles_eq_nil rfl] at hunit
      cases hunit
  exact hran.fst_runInTree_ne (hran.ofTree_eq rfl hroot) hroot rfl hthere
    ⟨rfl, ["shop"], [], aggregateName, hran.all.grows.find?_eq_some hstatic, rfl,
      by decide +kernel, by simp⟩ hnew

end Links

end RouteLinks
