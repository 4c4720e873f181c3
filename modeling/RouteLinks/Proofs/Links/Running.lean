import RouteLinks.Links.Run
import RouteLinks.Proofs.Files.Growth
/-!
# Runs over a tree

A run that succeeds has brought paths to their contents, first those beside the sources and then the
one at the root. Of the files of one place the last is there after that, and elsewhere there are the
files that were there before.
-/

namespace RouteLinks

namespace FileTree

variable {t t' u : FileTree} {files : List (String × Bytes)} {s : Settings} {projectRoot : String}

def persistAll? (t : FileTree) : List (String × Bytes) → Option FileTree
  | [] => some t
  | (path, content) :: rest =>
    (t.persist path content).2.bind fun _ => (t.persist path content).1.persistAll? rest

theorem persistAll?_cons_eq_some_iff {file : String × Bytes} :
    t.persistAll? (file :: files) = some t' ↔
      ∃ u done, t.persist file.1 file.2 = (u, some done) ∧ u.persistAll? files = some t' := by
  rw [persistAll?]
  rcases t.persist file.1 file.2 with ⟨u, done⟩
  cases done <;> simp

theorem run_writeFile (path : String) (content : Bytes) (t : FileTree) :
    (writeFile path content).run t =
      ((t.persist path content).2.isSome, (t.persist path content).1) := by
  rfl

theorem run_writeAll_cons_eq_ok_iff {path : String} {content : Bytes} :
    ((storage s projectRoot).writeAll ((path, content) :: files)).run.run t = (.ok (), t') ↔
      ∃ u done, t.persist path content = (u, some done) ∧
        ((storage s projectRoot).writeAll files).run.run u = (.ok (), t') := by
  rw [Storage.writeAll, ExceptT.run_bind]
  show StateT.run ((Except.ok <$> writeFile path content) >>= _) t = _ ↔ _
  rw [StateT.run_bind, StateT.run_map, run_writeFile]
  rcases t.persist path content with ⟨u, done⟩
  cases done with
  | none =>
      constructor
      · intro h
        cases h
      · rintro ⟨u', done, h, _⟩
        cases h
  | some done =>
      constructor
      · intro h
        exact ⟨u, done, rfl, h⟩
      · rintro ⟨u', done', h, hrest⟩
        cases h
        exact hrest

theorem run_writeAll_eq_ok_iff :
    ((storage s projectRoot).writeAll files).run.run t = (.ok (), t') ↔
      t.persistAll? files = some t' := by
  induction files generalizing t with
  | nil =>
      show (Except.ok (), t) = (Except.ok (), t') ↔ some t = some t'
      constructor
      · intro h
        exact congrArg some (Prod.mk.inj h).2
      · intro h
        exact congrArg _ (Option.some.inj h)
  | cons file rest ih =>
      obtain ⟨path, content⟩ := file
      simp only [run_writeAll_cons_eq_ok_iff, persistAll?_cons_eq_some_iff, ih]

theorem run_bind_eq_ok_iff {α β : Type} {x : ExceptT RunError (StateM FileTree) α}
    {f : α → ExceptT RunError (StateM FileTree) β} {b : β} :
    (x >>= f).run.run t = (.ok b, t') ↔
      ∃ a u, x.run.run t = (.ok a, u) ∧ (f a).run.run u = (.ok b, t') := by
  rw [ExceptT.run_bind, StateT.run_bind]
  rcases x.run.run t with ⟨result, u⟩
  cases result with
  | error e =>
      constructor
      · intro h
        cases h
      · rintro ⟨a, u', h, _⟩
        cases h
  | ok a =>
      constructor
      · intro h
        exact ⟨a, u, rfl, h⟩
      · rintro ⟨a', u', h, hrest⟩
        cases h
        exact hrest
/-! ### What is there afterwards -/

/-- A tree after paths have been brought to their contents. -/
structure PersistedAll (t t' : FileTree) (files : List (String × Bytes)) : Prop where
  grows : t.Grows t'
  /-- The files that no path leads to are those that were there. -/
  elsewhere : ∀ other old, (∀ f ∈ files, t'.find? f.1 ≠ some other) →
    (t'.get? other = some (.file old) ↔ t.get? other = some (.file old))
  /-- Every path leads to a file, which has the content that one of the paths there was brought
  to. -/
  last : ∀ f ∈ files, isFileName (Path.baseName f.1) = true ∧
    ∃ f' ∈ files, t'.find? f'.1 = t'.find? f.1 ∧ t'.read? f.1 = some f'.2

theorem persistedAll_of_persistAll? (hroot : t.hasDirectory [] = true)
    (hnames : ∀ f ∈ files, Source.isHandWritten (Path.baseName f.1) = false)
    (h : t.persistAll? files = some t') : t.PersistedAll t' files := by
  induction files generalizing t with
  | nil =>
      cases h
      exact ⟨.refl t', fun _ _ _ => .rfl, fun f hf => by cases hf⟩
  | cons file rest ih =>
      obtain ⟨path, content⟩ := file
      obtain ⟨u, done, hpersist, h⟩ := persistAll?_cons_eq_some_iff.mp h
      have hfirst := persisted_of_persist hroot (hnames _ List.mem_cons_self) hpersist
      have hrest := ih (hfirst.grows.directory [] hroot)
        (fun f hf => hnames f (List.mem_cons_of_mem _ hf)) h
      obtain ⟨hname, hread⟩ := holds_iff.mp hfirst.holds
      obtain ⟨place, hfind, hplace⟩ := read?_eq_some_iff.mp hread
      have hfind' : t'.find? path = some place := hrest.grows.find?_eq_some hfind
      refine ⟨hfirst.grows.trans hrest.grows, ?_, ?_⟩
      · intro other old hnone
        have hother : u.find? path ≠ some other := by
          intro hsame
          exact hnone _ List.mem_cons_self (hrest.grows.find?_eq_some hsame)
        rw [hrest.elsewhere other old fun f hf => hnone f (List.mem_cons_of_mem _ hf)]
        exact hfirst.elsewhere other old hother
      · intro f hf
        rcases List.mem_cons.mp hf with rfl | hf
        · refine ⟨hname, ?_⟩
          -- Of the files at this place the last is there; it may be this one.
          by_cases hlater : ∃ f ∈ rest, t'.find? f.1 = some place
          · obtain ⟨f, hf, hsame⟩ := hlater
            obtain ⟨_, f', hf', hfind'', hlast⟩ := hrest.last f hf
            refine ⟨f', List.mem_cons_of_mem _ hf', ?_, ?_⟩
            · rw [hfind'', hsame, hfind']
            · rw [read?, hfind', ← hsame]
              exact hlast
          · have hnone : ∀ f ∈ rest, t'.find? f.1 ≠ some place :=
              fun f hf hsame => hlater ⟨f, hf, hsame⟩
            exact ⟨_, List.mem_cons_self, rfl, read?_eq_some_iff.mpr
              ⟨place, hfind', (hrest.elsewhere place content hnone).mpr hplace⟩⟩
        · obtain ⟨hname', f', hf', hlast⟩ := hrest.last f hf
          exact ⟨hname', f', List.mem_cons_of_mem _ hf', hlast⟩

/-- All paths have their contents if and only if no two paths to one place have different ones. -/
theorem PersistedAll.holds_iff (h : t.PersistedAll t' files) :
    (∀ f ∈ files, t'.holds f.1 f.2 = true) ↔
      ∀ f ∈ files, ∀ f' ∈ files, t'.find? f.1 = t'.find? f'.1 → f.2 = f'.2 := by
  constructor
  · intro hholds f hf f' hf' hsame
    have hread := (FileTree.holds_iff.mp (hholds f hf)).2
    have hread' := (FileTree.holds_iff.mp (hholds f' hf')).2
    rw [read?, hsame] at hread
    rw [read?, hread] at hread'
    exact Option.some.inj hread'
  · intro hsame f hf
    obtain ⟨hname, f', hf', hfind, hread⟩ := h.last f hf
    rw [hsame f hf f' hf' hfind.symm]
    exact FileTree.holds_iff.mpr ⟨hname, hread⟩

theorem persistAll?_append (t : FileTree) (files more : List (String × Bytes)) :
    t.persistAll? (files ++ more) = (t.persistAll? files).bind (·.persistAll? more) := by
  induction files generalizing t with
  | nil => rfl
  | cons file rest ih =>
      obtain ⟨path, content⟩ := file
      rw [List.cons_append, persistAll?, persistAll?, Option.bind_assoc]
      congr 1
      funext done
      exact ih _

/-- Nothing is written where every path has its content. -/
theorem persistAll?_of_holds (h : ∀ f ∈ files, t.holds f.1 f.2 = true) :
    t.persistAll? files = some t := by
  induction files with
  | nil => rfl
  | cons file rest ih =>
      obtain ⟨path, content⟩ := file
      have hpersist : t.persist path content = (t, some false) :=
        if_pos (h _ List.mem_cons_self)
      exact persistAll?_cons_eq_some_iff.mpr
        ⟨t, false, hpersist, ih fun f hf => h f (List.mem_cons_of_mem _ hf)⟩

end FileTree

/-! ### The parts of a run -/

namespace Links

open FileTree

variable {grammar : Grammar} {t t' : FileTree} {s : Settings} {projectRoot : String}
  {g : Generation}

def ofTree (grammar : Grammar) (s : Settings) (projectRoot : String) (t : FileTree) : Links :=
  ⟨s, Model.ofProject grammar t projectRoot, projectRoot⟩

/-- A run that leaves sources alone: the files beside the sources, then, with the static files as
they are by now, the file at the root. -/
theorem runInTree_eq_ok_iff (hoff : s.rewritesSources = false) :
    runInTree grammar s projectRoot true t = (.ok g, t') ↔
      ∃ u rewrites, (ofTree grammar s projectRoot t).rewrites = .ok rewrites ∧
        t.persistAll? ((ofTree grammar s projectRoot t).sourceFiles.map GeneratedFile.output) =
          some u ∧
        u.persistAll? [((ofTree grammar s projectRoot t).aggregateFile
          (StaticFiles.node? u s projectRoot)).output] = some t' ∧
        g = (ofTree grammar s projectRoot t).generation (StaticFiles.node? u s projectRoot)
          rewrites := by
  generalize hl : ofTree grammar s projectRoot t = l
  have hrun : runInTree grammar s projectRoot true t =
      (l.run (FileTree.storage s projectRoot) true).run.run t := by rw [← hl]; rfl
  have hsettings : l.settings.rewritesSources = false := by rw [← hl]; exact hoff
  have hstatic : ∀ u, (liftM (FileTree.storage s projectRoot).staticLinks :
      ExceptT RunError (StateM FileTree) (Option Node)).run.run u =
        (.ok (StaticFiles.node? u s projectRoot), u) := fun u => rfl
  rw [hrun, Links.run]
  simp only [if_true, hsettings, Bool.false_eq_true, if_false]
  constructor
  · intro h
    obtain ⟨_, u, hunits, h⟩ := run_bind_eq_ok_iff.mp h
    obtain ⟨staticLinks, v, hlinks, h⟩ := run_bind_eq_ok_iff.mp h
    rw [hstatic] at hlinks
    cases hlinks
    obtain ⟨_, w, haggregate, h⟩ := run_bind_eq_ok_iff.mp h
    cases hrewrites : l.rewrites with
    | error path =>
        rw [hrewrites] at h
        cases h
    | ok rewrites =>
        rw [hrewrites] at h
        cases h
        exact ⟨u, rewrites, rfl, run_writeAll_eq_ok_iff.mp hunits,
          run_writeAll_eq_ok_iff.mp haggregate, rfl⟩
  · rintro ⟨u, rewrites, hrewrites, hunits, haggregate, rfl⟩
    refine run_bind_eq_ok_iff.mpr ⟨(), u, run_writeAll_eq_ok_iff.mpr hunits, ?_⟩
    refine run_bind_eq_ok_iff.mpr ⟨_, u, hstatic u, ?_⟩
    refine run_bind_eq_ok_iff.mpr ⟨(), t', run_writeAll_eq_ok_iff.mpr haggregate, ?_⟩
    rw [hrewrites]
    rfl

end Links

end RouteLinks
