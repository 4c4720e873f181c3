import RouteLinks.Links.StaticFiles
import RouteLinks.Proofs.Files.Growth
/-!
# What a write does to the links to static files

Links are made of the names of entries alone. So a file that is written over leaves the links as
they are, and a new file changes them only if it is listed: if it is in the directory of the static
files, no directory on the way to it is hidden, and its extension is not left out.
-/

namespace RouteLinks.StaticFiles

open FileTree (byName sortedEntry)

variable {excluded : List String} {t d : FileTree} {place way : Place} {name : String}
  {content : Bytes}

/-- Entries of one name for which the same links are made. -/
structure Alike (excluded : List String) (a b : String × FileTree) : Prop where
  name : b.1 = a.1
  isDirectory : b.2.isDirectory = a.2.isDirectory
  links : isHidden a.1 = false → ∀ className relative,
    linkClass excluded className relative b.2.sorted =
      linkClass excluded className relative a.2.sorted

theorem Alike.refl (a : String × FileTree) : Alike excluded a a :=
  ⟨rfl, rfl, fun _ _ _ => rfl⟩

/-! ### Constants -/

theorem constants_cons (relative : String) (taken : List String) (entry : String × FileTree)
    (rest : List (String × FileTree)) :
    constants excluded relative taken (entry :: rest) =
      if entry.2.isDirectory || isExcluded excluded entry.1 then
        constants excluded relative taken rest
      else
        let member := identifier taken entry.1
        let (more, taken) := constants excluded relative (member :: taken) rest
        ((member, "~/" ++ below relative entry.1) :: more, taken) := by
  obtain ⟨name, content | es⟩ := entry
  · rw [constants]
    rfl
  · rfl

theorem constants_congr {es es' : List (String × FileTree)}
    (h : List.Forall₂ (Alike excluded) es es') (relative : String) (taken : List String) :
    constants excluded relative taken (es'.map sortedEntry) =
      constants excluded relative taken (es.map sortedEntry) := by
  induction h generalizing taken with
  | nil => rfl
  | @cons a b rest rest' hfirst _ ih =>
      have hdirectory : b.2.sorted.isDirectory = a.2.sorted.isDirectory := by
        rw [FileTree.isDirectory_sorted, FileTree.isDirectory_sorted, hfirst.isDirectory]
      simp only [List.map_cons, constants_cons, sortedEntry, hfirst.name, hdirectory, ih]

theorem constants_insertBy (entry : String × FileTree)
    (hentry : (entry.2.isDirectory || isExcluded excluded entry.1) = true) (relative : String)
    (taken : List String) (es : List (String × FileTree)) :
    constants excluded relative taken ((insertBy byName entry es).map sortedEntry) =
      constants excluded relative taken (es.map sortedEntry) := by
  have hskip : ∀ taken rest, constants excluded relative taken (sortedEntry entry :: rest) =
      constants excluded relative taken rest := by
    intro taken rest
    rw [constants_cons, sortedEntry, FileTree.isDirectory_sorted, if_pos hentry]
  induction es generalizing taken with
  | nil => exact hskip taken []
  | cons next rest ih =>
      rw [insertBy]
      split
      · rw [List.map_cons, hskip]
      · simp only [List.map_cons, constants_cons, ih]

/-! ### Classes -/

theorem linkClasses_congr {es es' : List (String × FileTree)}
    (h : List.Forall₂ (Alike excluded) es es') (relative : String) (taken : List String) :
    linkClasses excluded relative taken (es'.map sortedEntry) =
      linkClasses excluded relative taken (es.map sortedEntry) := by
  induction h generalizing taken with
  | nil => rfl
  | @cons a b rest rest' hfirst _ ih =>
      simp only [List.map_cons, linkClasses, sortedEntry, FileTree.isDirectory_sorted, hfirst.name,
        hfirst.isDirectory, ih]
      cases hhidden : isHidden a.1 with
      | true => simp
      | false => rw [hfirst.links hhidden]

theorem linkClasses_insertBy (entry : String × FileTree) (hentry : entry.2.isDirectory = false)
    (relative : String) (taken : List String) (es : List (String × FileTree)) :
    linkClasses excluded relative taken ((insertBy byName entry es).map sortedEntry) =
      linkClasses excluded relative taken (es.map sortedEntry) := by
  have hskip : ∀ taken rest, linkClasses excluded relative taken (sortedEntry entry :: rest) =
      linkClasses excluded relative taken rest := by
    intro taken rest
    simp [linkClasses, sortedEntry, FileTree.isDirectory_sorted, hentry]
  induction es generalizing taken with
  | nil => exact hskip taken []
  | cons next rest ih =>
      rw [insertBy]
      split
      · rw [List.map_cons, hskip]
      · simp only [List.map_cons, linkClasses, ih]

theorem linkClass_sorted (excluded : List String) (className relative : String)
    (es : List (String × FileTree)) :
    linkClass excluded className relative (FileTree.directory es).sorted =
      .mk className (directoryUrl relative)
        (constants excluded relative [className, LinkClass.urlMember]
          ((sortBy byName es).map sortedEntry)).1
        (linkClasses excluded relative
          (constants excluded relative [className, LinkClass.urlMember]
            ((sortBy byName es).map sortedEntry)).2
          ((sortBy byName es).map sortedEntry)) := by
  rw [FileTree.sorted_directory, linkClass]

theorem linkClass_sorted_congr {es es' : List (String × FileTree)}
    (h : List.Forall₂ (Alike excluded) es es') (className relative : String) :
    linkClass excluded className relative (FileTree.directory es').sorted =
      linkClass excluded className relative (FileTree.directory es).sorted := by
  have hsorted : List.Forall₂ (Alike excluded) (sortBy byName es) (sortBy byName es') := by
    apply forall₂_sortBy _ h
    intro a a' b b' ha hb
    rw [byName, byName, ha.name, hb.name]
  rw [linkClass_sorted, linkClass_sorted, constants_congr hsorted, linkClasses_congr hsorted]

/-! ### A file that is written -/

/-- The links of a directory in which a file is written over, or where it is not listed. -/
theorem linkClass_sorted_put (h : d.Addable way name)
    (hlisted : (d.get? (way ++ [name])).isSome ∨ isExcluded excluded name = true ∨
      ∃ m ∈ way, isHidden m = true) (className relative : String) :
    linkClass excluded className relative (d.put (.file content) (way ++ [name])).sorted =
      linkClass excluded className relative d.sorted := by
  induction h using FileTree.Addable.induct generalizing className relative with
  | new es h hnone =>
      have hexcluded : isExcluded excluded name = true := by
        rw [List.nil_append, FileTree.get?_directory_cons, hnone] at hlisted
        simpa using hlisted
      have hskipped : ((FileTree.file content).isDirectory || isExcluded excluded name) =
          true := by
        rw [hexcluded, Bool.or_true]
      rw [List.nil_append, FileTree.put_directory_singleton, upsert_of_lookup_eq_none hnone,
        linkClass_sorted, linkClass_sorted, sortBy_append_singleton,
        constants_insertBy (name, .file content) hskipped,
        linkClasses_insertBy (name, .file content) rfl]
  | present es old h hentry =>
      rw [List.nil_append, FileTree.put_directory_singleton]
      exact linkClass_sorted_congr
        (forall₂_upsert Alike.refl ⟨rfl, rfl, fun _ _ _ => rfl⟩ hentry) _ _
  | below es step rest inner h hinner hentry ih =>
      rw [List.cons_append, FileTree.put_directory_cons]
      refine linkClass_sorted_congr (forall₂_upsert Alike.refl
        ⟨rfl, FileTree.isDirectory_put (by simp), ?_⟩ hentry) _ _
      -- Links are made inside an entry only if it is not hidden.
      intro hvisible className relative
      refine ih ?_ className relative
      rw [List.cons_append, FileTree.get?_directory_cons, hentry] at hlisted
      rcases hlisted with hpresent | hexcluded | ⟨m, hm, hhidden⟩
      · exact .inl hpresent
      · exact .inr (.inl hexcluded)
      · rcases List.mem_cons.mp hm with rfl | hm
        · rw [hvisible] at hhidden
          cases hhidden
        · exact .inr (.inr ⟨m, hm, hhidden⟩)

def Lists (t : FileTree) (s : Settings) (projectRoot : String) (place : Place) : Prop :=
  s.linksStaticFiles = true ∧ ∃ root way name,
    t.find? (Path.join projectRoot s.staticFilesPath) = some root ∧ place = root ++ way ++ [name] ∧
      isExcluded s.excludedExtensions name = false ∧ ∀ m ∈ way, isHidden m = false

theorem Lists.mono {t' : FileTree} {s : Settings} {projectRoot : String}
    (h : Lists t s projectRoot place) (hgrows : t.Grows t') : Lists t' s projectRoot place := by
  obtain ⟨hlinks, root, way, name, hfind, hplace, hvisible⟩ := h
  exact ⟨hlinks, root, way, name, hgrows.find?_eq_some hfind, hplace, hvisible⟩

theorem Lists.of_put {s : Settings} {projectRoot : String} (h : t.Addable place name)
    (hlists : Lists (t.put (.file content) (place ++ [name])) s projectRoot (place ++ [name])) :
    Lists t s projectRoot (place ++ [name]) := by
  obtain ⟨hlinks, root, way, last, hfind, hplace, hvisible⟩ := hlists
  refine ⟨hlinks, root, way, last, ?_, hplace, hvisible⟩
  obtain ⟨rfl, -⟩ := List.append_inj' hplace rfl
  have hroot : t.hasDirectory root = true := FileTree.hasDirectory_of_append h.around
  have hsame : ∀ p, (t.put (.file content) (root ++ way ++ [name])).hasDirectory p =
      t.hasDirectory p := h.hasDirectory_put
  have hwalk := FileTree.filter_walk?_congr hsame []
    (Path.parts (Path.join projectRoot s.staticFilesPath))
  rw [← FileTree.find?, hfind, Option.filter_some, hsame, hroot, if_pos rfl] at hwalk
  exact (Option.filter_eq_some_iff.mp hwalk.symm).1

theorem node?_put {s : Settings} {projectRoot : String} (h : t.Addable place name)
    (hlisted : (t.get? (place ++ [name])).isSome ∨
      ¬ Lists t s projectRoot (place ++ [name])) :
    node? (t.put (.file content) (place ++ [name])) s projectRoot = node? t s projectRoot := by
  rw [node?, node?, links?, links?]
  cases hlinks : s.linksStaticFiles with
  | false => rfl
  | true =>
      simp only [Bool.not_true, Bool.false_eq_true, if_false]
      rw [FileTree.directory?_eq, FileTree.directory?_eq, FileTree.find?, FileTree.find?,
        FileTree.filter_walk?_congr h.hasDirectory_put]
      cases hroot : (t.walk? [] (Path.parts (Path.join projectRoot s.staticFilesPath))).filter
          t.hasDirectory with
      | none => rfl
      | some root =>
          obtain ⟨hfind, hdirectory⟩ := Option.filter_eq_some_iff.mp hroot
          obtain ⟨es, hes⟩ := FileTree.hasDirectory_iff.mp hdirectory
          rw [Option.bind_some, Option.bind_some, hes]
          rcases h.cases_of_get? hes with ⟨way, rfl⟩ | rfl | ⟨hat, haround⟩
          · have hpresent : ((FileTree.directory es).get? (way ++ [name])) =
                t.get? (root ++ way ++ [name]) := by
              rw [List.append_assoc, FileTree.get?_append t, hes]
              rfl
            have hunlisted : ¬ Lists t s projectRoot (root ++ way ++ [name]) →
                isExcluded s.excludedExtensions name = true ∨ ∃ m ∈ way, isHidden m = true := by
              intro hnot
              by_contra hvisible
              simp only [not_or, Bool.not_eq_true, not_exists, not_and] at hvisible
              exact hnot ⟨hlinks, root, way, name, hfind, rfl, hvisible⟩
            have hcases := hlisted.imp_right hunlisted
            rw [← hpresent] at hcases
            rw [List.append_assoc, FileTree.get?_put_append hes, Option.map_some, Option.map_some,
              Option.map_some, Option.map_some, linkClass_sorted_put (h.within hes) hcases]
          · rw [h.free] at hdirectory
            cases hdirectory
          · rw [FileTree.get?_put_of_apart hat haround, hes]

end RouteLinks.StaticFiles
