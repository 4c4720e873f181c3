import RouteLinks.Links.Generation
import RouteLinks.Proofs.Grouping
import RouteLinks.Proofs.Routes.Origin
import RouteLinks.Proofs.Routes.Splice
import RouteLinks.Proofs.Source.Offsets
import RouteLinks.Proofs.Source.Phrase
/-!
# Where sources are edited

An edit is made for a declaration: `partial` for the only declaration of a controller, and `virtual`
for a method that is an action of its own class. The offset of an edit is the one that was read with
the declaration, from the very bytes that are edited, so what is inserted comes to stand in front of
the keyword or the return type.
-/

namespace RouteLinks

/-- The edits that a controller has for a declaration. -/
inductive Controller.Edits (c : Controller) : SourceEdit → SourceUnit → Prop where
  | ofClass {u : SourceUnit} {units : List SourceUnit} {place : Nat}
      (hclass : u.class? units = some c.symbol) (hplace : u.editAt? = some place) :
      Edits c ⟨u.filePath, place, "partial "⟩ u
  | ofMethod {u : SourceUnit} {a : Action} {place : Nat} (ha : a ∈ c.actions)
      (hown : a.declaringClass = c.qualifiedName) (hmethod : u.method? = some a.method)
      (hplace : u.editAt? = some place) : Edits c ⟨u.filePath, place, "virtual "⟩ u

/-- A class that is edited as its only declaration in some files, and whose methods are declared
there. -/
structure Class.IsDeclaredIn (files : List SourceFile) (c : Class) : Prop where
  single : c.partialAt.isSome = true → ∃ f ∈ files, ∃ u ∈ f.units, u.class? f.units = some c
  methods : ∀ x ∈ c.methods, ∃ f ∈ files, ∃ u ∈ f.units, u.method? = some x

namespace SourceUnit

variable {u : SourceUnit} {units : List SourceUnit}

theorem editAt?_of_class? {c : Class} {place : Nat} (h : u.class? units = some c)
    (hplace : c.partialAt = some place) : u.editAt? = some place := by
  unfold class? at h
  split at h
  · next head hhead =>
    cases h
    rw [editAt?, hhead]
    dsimp only at hplace ⊢
    split at hplace
    · cases hplace
    · exact hplace
  · cases h

theorem editAt?_of_method? {x : Method} (h : u.method? = some x) :
    u.editAt? = x.returnTypeAt := by
  unfold method? at h
  split at h
  · next head owner hhead howner =>
    cases h
    rw [editAt?, hhead]
  · cases h

end SourceUnit

variable {files : List SourceFile}

theorem Model.isDeclaredIn_ofFiles (files : List SourceFile) :
    ∀ c ∈ (ofFiles files).classes, c.IsDeclaredIn files := by
  refine forall_mem_ofFiles (fun c d hc hd => ⟨fun hplace => ?_, ?_⟩) fun f hf c hc => ?_
  · cases hplace
  · exact List.forall_mem_append.mpr ⟨hc.methods, hd.methods⟩
  · obtain ⟨u, hu, hclass⟩ := List.mem_filterMap.mp hc
    refine ⟨fun _ => ⟨f, hf, u, hu, hclass⟩, fun x hx => ?_⟩
    rw [(SourceUnit.class?_eq_some hclass).2.2] at hx
    obtain ⟨v, hv, hmethod⟩ := List.mem_filterMap.mp (List.mem_filter.mp hx).1
    exact ⟨f, hf, v, hv, hmethod⟩

namespace Controller

theorem exists_edits {c : Controller} (hc : c ∈ all (Model.ofFiles files)) {e : SourceEdit}
    (he : e ∈ c.edits) : ∃ f ∈ files, ∃ u ∈ f.units, c.Edits e u := by
  obtain ⟨d, hd, rfl⟩ := List.mem_map.mp hc
  have hdeclared := Model.isDeclaredIn_ofFiles files
  have hclass : d ∈ (Model.ofFiles files).classes := (List.mem_filter.mp hd).1
  rcases List.mem_append.mp he with hpartial | hvirtual
  · obtain ⟨place, hplace, rfl⟩ := Option.map_eq_some_iff.mp (Option.mem_toList.mp hpartial)
    obtain ⟨f, hf, u, hu, hsymbol⟩ := (hdeclared d hclass).single (hplace ▸ rfl)
    refine ⟨f, hf, u, hu, ?_⟩
    rw [SourceUnit.filePath_of_class?_eq_some hsymbol]
    exact .ofClass hsymbol (SourceUnit.editAt?_of_class? hsymbol hplace)
  · obtain ⟨a, ha, hedit⟩ := List.mem_filterMap.mp hvirtual
    split at hedit
    · cases hedit
    · next hown =>
      obtain ⟨place, hplace, rfl⟩ := Option.map_eq_some_iff.mp hedit
      obtain ⟨before, declaring, further, hsplit, _, hmethod, _⟩ :=
        mem_actionMethods (mem_assign ha).1
      obtain ⟨bases, hchain, hbases⟩ := Model.chain_ancestry (Model.ofFiles files) d
      have hdeclaring : declaring ∈ (Model.ofFiles files).classes := by
        refine List.forall_mem_cons.mpr ⟨hclass, hbases⟩ declaring ?_
        rw [hchain, List.drop_one, List.tail_cons] at hsplit
        rw [hsplit]
        exact List.mem_append_right _ List.mem_cons_self
      obtain ⟨f, hf, u, hu, hunit⟩ := (hdeclared declaring hdeclaring).methods _ hmethod
      refine ⟨f, hf, u, hu, ?_⟩
      rw [SourceUnit.filePath_of_method?_eq_some hunit]
      refine .ofMethod ha ?_ hunit ((SourceUnit.editAt?_of_method? hunit).trans hplace)
      simp only [Bool.or_eq_true, not_or, bne_iff_ne, ne_eq, not_not] at hown
      exact hown.1

end Controller

/-! ### What is inserted -/

theorem Model.exists_of_lookup_sources {path : String} {content : Bytes}
    (h : (ofFiles files).sources.lookup path = some content) :
    ∃ f ∈ files, f.filePath = path ∧ f.content = content := by
  have hfold : ∀ sources : List (String × Bytes),
      (files.foldl (fun sources f => upsert f.filePath (fun _ => f.content) sources)
          sources).lookup path = some content →
        sources.lookup path = some content ∨
          ∃ f ∈ files, f.filePath = path ∧ f.content = content := by
    clear h
    induction files with
    | nil => exact fun sources h => .inl h
    | cons f rest ih =>
        intro sources h
        rw [List.foldl_cons] at h
        rcases ih _ h with hhere | ⟨g, hg, hpath, hcontent⟩
        · rw [lookup_upsert] at hhere
          split at hhere
          · next hpath =>
            exact .inr ⟨f, List.mem_cons_self, hpath.symm, Option.some.inj hhere⟩
          · exact .inl hhere
        · exact .inr ⟨g, List.mem_cons_of_mem _ hg, hpath, hcontent⟩
  exact (hfold [] h).resolve_left (by simp)

namespace Links

variable {l : Links}

/-- An edited source is the content under its path with the edits for the path. -/
theorem of_mem_rewrites {rewrites : List SourceRewrite} (h : l.rewrites = .ok rewrites)
    {r : SourceRewrite} (hr : r ∈ rewrites) :
    ∃ path edits content, (path, edits) ∈ l.edits ∧ l.model.sources.lookup path = some content ∧
      r = ⟨l.inProject path, SourceEdit.applyAll content edits⟩ := by
  obtain ⟨⟨path, edits⟩, hmem, hrewrite⟩ := exists_of_mem_mapM h hr
  dsimp only at hrewrite
  split at hrewrite
  · next content hcontent =>
    cases hrewrite
    exact ⟨path, edits, content, hmem, hcontent, rfl⟩
  · cases hrewrite

/-- What is read from a source whose tree covers its tokens has the offsets of these tokens, all of
them different, into the very bytes. Every edit of a run is one for a declaration, at its offset,
and an edited source is the source with its edits inserted at their offsets. -/
theorem edits_hit_tokens {g : Grammar} {sources : List (String × Bytes)}
    (hnodup : (sources.map Prod.fst).Nodup) (hcovers : ∀ s ∈ sources, (g s.2).Covers s.2)
    (hmodel : l.model = Model.ofFiles (sources.map fun s => Source.read g s.2 s.1)) :
    (∀ s ∈ sources, (Source.read g s.2 s.1).content = s.2 ∧
      HitTokens s.2 (Source.read g s.2 s.1).units) ∧
    (∀ c ∈ l.controllers, ∀ e ∈ c.edits, ∃ s ∈ sources,
      ∃ u ∈ (Source.read g s.2 s.1).units, c.Edits e u) ∧
    ∀ rewrites, l.rewrites = .ok rewrites → ∀ r ∈ rewrites, ∃ s ∈ sources,
      r.path = l.inProject s.1 ∧ ∃ edits, SourceEdit.Splices s.2 edits r.content ∧
        ∀ e ∈ edits, ∃ c ∈ l.controllers, ∃ u ∈ (Source.read g s.2 s.1).units, c.Edits e u := by
  have hhit : ∀ s ∈ sources, HitTokens s.2 (Source.read g s.2 s.1).units :=
    fun s hs => Source.hitTokens_read (hcovers s hs) s.1
  have hedits : ∀ c ∈ l.controllers, ∀ e ∈ c.edits, ∃ s ∈ sources, e.filePath = s.1 ∧
      ∃ u ∈ (Source.read g s.2 s.1).units, c.Edits e u := by
    intro c hc e he
    rw [controllers, hmodel] at hc
    obtain ⟨f, hf, u, hu, hedit⟩ := Controller.exists_edits hc he
    obtain ⟨s, hs, rfl⟩ := List.mem_map.mp hf
    refine ⟨s, hs, ?_, u, hu, hedit⟩
    rw [← Source.filePath_of_mem_read hu]
    cases hedit <;> rfl
  refine ⟨fun s hs => ⟨rfl, hhit s hs⟩, fun c hc e he => ?_, ?_⟩
  · obtain ⟨s, hs, -, hunit⟩ := hedits c hc e he
    exact ⟨s, hs, hunit⟩
  · intro rewrites hrewrites r hr
    obtain ⟨path, edits, content, hgroup, hlookup, rfl⟩ := of_mem_rewrites hrewrites hr
    rw [hmodel] at hlookup
    obtain ⟨f, hf, rfl, rfl⟩ := Model.exists_of_lookup_sources hlookup
    obtain ⟨s, hs, rfl⟩ := List.mem_map.mp hf
    have hfor : ∀ e ∈ edits, ∃ c ∈ l.controllers, ∃ u ∈ (Source.read g s.2 s.1).units,
        c.Edits e u := by
      intro e he
      obtain ⟨hmem, hpath⟩ := (mem_group_iff hgroup).mp he
      obtain ⟨c, hc, he⟩ := List.mem_flatMap.mp hmem
      obtain ⟨other, hother, hsame, u, hu, hedit⟩ := hedits c hc e he
      obtain rfl := List.inj_on_of_nodup_map hnodup hother hs (hsame.symm.trans hpath)
      exact ⟨c, hc, u, hu, hedit⟩
    refine ⟨s, hs, rfl, edits, SourceEdit.splices_applyAll_of_inRange fun e he => ?_, hfor⟩
    obtain ⟨c, hc, u, hu, hedit⟩ := hfor e he
    have hbounds := (hhit s hs).within u hu
    cases hedit with
    | ofClass _ hplace | ofMethod _ _ _ hplace =>
        have := hbounds _ hplace
        exact ⟨Int.natCast_nonneg _, by simp only [Int.ofNat_le]; omega⟩

def markedFront : Bytes :=
  [0xEF, 0xBB, 0xBF] ++ Utf8.encode "// " ++ [0xFF] ++ Utf8.encode "\r\n"

def markedSource : String × Bytes :=
  ("A.cs", markedFront ++ Phrase.source (Phrase.controllerOf "HomeController"))

def markedGrammar : Grammar := fun bytes =>
  .mk { kind := "compilation_unit", start := 3, stop := bytes.length }
    (.mk { kind := "comment", start := 3, stop := 7 } [] ::
      Phrase.treesOf markedFront.length (Phrase.controllerOf "HomeController"))

theorem covers_markedSource : (markedGrammar markedSource.2).Covers markedSource.2 := by
  constructor <;> decide +kernel

def markedLinks : Links :=
  ⟨{}, Model.ofFiles ([markedSource].map fun s => Source.read markedGrammar s.2 s.1), ""⟩

theorem edits_hit_tokens_marked :
    markedLinks.controllers.flatMap (·.edits) =
        [⟨"A.cs", 16, "partial "⟩, ⟨"A.cs", 44, "virtual "⟩] ∧
      ∀ c ∈ markedLinks.controllers, ∀ e ∈ c.edits, ∃ s ∈ [markedSource],
        ∃ u ∈ (Source.read markedGrammar s.2 s.1).units,
          u.IsAt s.2 ∧ u.editAt? = some e.offset.toNat := by
  obtain ⟨hread, hedits, -⟩ := @edits_hit_tokens markedLinks markedGrammar [markedSource]
    (List.nodup_singleton _) (List.forall_mem_singleton.mpr covers_markedSource) rfl
  refine ⟨by decide +kernel, fun c hc e he => ?_⟩
  obtain ⟨s, hs, u, hu, hedit⟩ := hedits c hc e he
  refine ⟨s, hs, u, hu, (hread s hs).2.isAt u hu, ?_⟩
  cases hedit with
  | ofClass _ hplace | ofMethod _ _ _ hplace => exact hplace

end Links

end RouteLinks
