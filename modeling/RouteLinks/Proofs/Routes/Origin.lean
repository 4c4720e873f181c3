import RouteLinks.Proofs.Files.Tree
import RouteLinks.Proofs.Routes.Actions
import RouteLinks.Proofs.Symbols.Ancestry
import RouteLinks.Proofs.Symbols.Merging
/-!
# Which file a symbol is from

Every declaration carries the path of its file, and merging takes paths from declarations only. So
the classes of a model, their methods and all that is edited for a controller lie in files that the
model was made from, and the contents of these are there.
-/

namespace RouteLinks

/-! ### Files and what they declare -/

namespace SourceUnit

theorem filePath_of_class?_eq_some {units : List SourceUnit} {u : SourceUnit} {c : Class}
    (h : u.class? units = some c) : c.filePath = u.filePath := by
  unfold class? at h
  split at h
  · cases h
    rfl
  · cases h

theorem filePath_of_method?_eq_some {u : SourceUnit} {x : Method} (h : u.method? = some x) :
    x.filePath = u.filePath := by
  unfold method? at h
  split at h
  · cases h
    rfl
  · cases h

end SourceUnit

def SourceFile.IsRecorded (f : SourceFile) : Prop := ∀ u ∈ f.units, u.filePath = f.filePath

/-- A class whose declaration and methods lie in some files. -/
structure Class.IsWithin (paths : List String) (c : Class) : Prop where
  filePath : c.filePath ∈ paths
  methods : ∀ x ∈ c.methods, x.filePath ∈ paths

variable {paths : List String} {files : List SourceFile}

theorem SourceFile.IsRecorded.isWithin {f : SourceFile} (h : f.IsRecorded)
    (hpath : f.filePath ∈ paths) {c : Class} (hc : c ∈ f.classes) : c.IsWithin paths := by
  obtain ⟨u, hu, hclass⟩ := List.mem_filterMap.mp hc
  constructor
  · rwa [SourceUnit.filePath_of_class?_eq_some hclass, h u hu]
  · intro x hx
    rw [(SourceUnit.class?_eq_some hclass).2.2] at hx
    obtain ⟨v, hv, hmethod⟩ := List.mem_filterMap.mp (List.mem_filter.mp hx).1
    rwa [SourceUnit.filePath_of_method?_eq_some hmethod, h v hv]

theorem Class.IsWithin.merge {c d : Class} (hc : c.IsWithin paths) (hd : d.IsWithin paths) :
    (c.merge d).IsWithin paths :=
  ⟨hc.filePath, List.forall_mem_append.mpr ⟨hc.methods, hd.methods⟩⟩

namespace Model

theorem isWithin_of_mem_ofFiles (hrecorded : ∀ f ∈ files, f.IsRecorded) :
    ∀ c ∈ (ofFiles files).classes, c.IsWithin (files.map SourceFile.filePath) :=
  forall_mem_ofFiles (fun _ _ => Class.IsWithin.merge) fun f hf _ hc =>
    (hrecorded f hf).isWithin (List.mem_map_of_mem hf) hc

theorem isSome_lookup_sources (files : List SourceFile) (path : String) :
    ((ofFiles files).sources.lookup path).isSome ↔ path ∈ files.map SourceFile.filePath := by
  have hfold : ∀ sources : List (String × Bytes),
      ((files.foldl (fun sources f => upsert f.filePath (fun _ => f.content) sources)
          sources).lookup path).isSome ↔
        (sources.lookup path).isSome ∨ path ∈ files.map SourceFile.filePath := by
    induction files with
    | nil => simp
    | cons f rest ih =>
        intro sources
        rw [List.foldl_cons, ih, lookup_upsert, List.map_cons, List.mem_cons]
        by_cases hpath : path = f.filePath <;> simp [hpath]
  exact (hfold []).trans (by simp)

end Model

/-! ### Controllers and their edits -/

namespace Controller

variable {m : Model} {c : Controller}

theorem filePath_mem (hwithin : ∀ d ∈ m.classes, d.IsWithin paths) (hc : c ∈ all m) :
    c.filePath ∈ paths := by
  obtain ⟨d, hd, rfl⟩ := List.mem_map.mp hc
  exact (hwithin d (List.mem_filter.mp hd).1).filePath

/-- What is edited for a controller lies in files of the model: its own declaration, and methods of
the classes that its actions come from. -/
theorem filePath_mem_of_mem_edits (hwithin : ∀ d ∈ m.classes, d.IsWithin paths) (hc : c ∈ all m)
    {e : SourceEdit} (he : e ∈ c.edits) : e.filePath ∈ paths := by
  obtain ⟨d, hd, rfl⟩ := List.mem_map.mp hc
  have hclass : d ∈ m.classes := (List.mem_filter.mp hd).1
  rcases List.mem_append.mp he with hpartial | hvirtual
  · obtain ⟨place, _, rfl⟩ := Option.map_eq_some_iff.mp (Option.mem_toList.mp hpartial)
    exact (hwithin d hclass).filePath
  · obtain ⟨a, ha, hedit⟩ := List.mem_filterMap.mp hvirtual
    split at hedit
    · cases hedit
    · obtain ⟨place, _, rfl⟩ := Option.map_eq_some_iff.mp hedit
      obtain ⟨before, declaring, further, hsplit, _, hmethod, _⟩ :=
        mem_actionMethods (mem_assign ha).1
      obtain ⟨bases, hchain, hbases⟩ := Model.chain_ancestry m d
      have hdeclaring : declaring ∈ d :: bases := by
        rw [hchain, List.drop_one, List.tail_cons] at hsplit
        rw [hsplit]
        exact List.mem_append_right _ List.mem_cons_self
      have hall : ∀ b ∈ d :: bases, b ∈ m.classes := List.forall_mem_cons.mpr ⟨hclass, hbases⟩
      exact (hwithin declaring (hall declaring hdeclaring)).methods _ hmethod

end Controller

end RouteLinks
