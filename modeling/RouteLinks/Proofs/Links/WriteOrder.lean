import RouteLinks.Proofs.Links.Paths
/-!
# The order of writes

A run is looked at from the file system that it writes to. Any file system will do: it answers each
call from the calls so far, and it obeys, refuses or raises an error of its own. What a run is meant
to call for is one list, the generated files first and the edited sources last, and it gets as far
as the first call that is not obeyed. Only the last part of the list has calls for sources. So a
source is touched only when everything generated is in its place.
-/

namespace RouteLinks

/-- A path and the content that it is to be brought to. -/
abbrev Call := String × Bytes

variable {ε : Type}

/-- What a file system answers to the last of some calls: whether it obeys, or an error. -/
abbrev Answers (ε : Type) := List Call → Except ε Bool

/-- A file system that keeps record of the calls. It answers from the record, and static files are
what the calls have made of them. -/
def Storage.recording (answer : Answers ε) (links : List Call → Option Node) :
    Storage (ExceptT ε (StateM (List Call))) where
  write path content := do
    modify (· ++ [(path, content)])
    ExceptT.mk (return answer (← get))
  staticLinks := return links (← get)

/-! ### Calls one after another -/

/-- How something ends that makes calls: an error of the file system, or one of the run, or a
result. -/
abbrev Ending (ε α : Type) := Except ε (Except RunError α)

def runAfter {α : Type} (before : List Call)
    (x : ExceptT RunError (ExceptT ε (StateM (List Call))) α) : Ending ε α × List Call :=
  x.run.run.run before

theorem runAfter_bind {α β : Type} (before : List Call)
    (x : ExceptT RunError (ExceptT ε (StateM (List Call))) α)
    (f : α → ExceptT RunError (ExceptT ε (StateM (List Call))) β) :
    runAfter before (x >>= f) =
      match runAfter before x with
      | (.ok (.ok a), after) => runAfter after (f a)
      | (.ok (.error e), after) => (.ok (.error e), after)
      | (.error e, after) => (.error e, after) := by
  rw [runAfter, ExceptT.run_bind, ExceptT.run_bind, StateT.run_bind, runAfter]
  rcases x.run.run.run before with ⟨_ | _ | a, after⟩ <;> rfl

/-- The first calls of a list are obeyed, each after those before it. -/
def Answers.Obeys (answer : Answers ε) (calls : List Call) (n : Nat) : Prop :=
  ∀ k < n, answer (calls.take (k + 1)) = .ok true

def outcome (answer : Answers ε) (before : List Call) : List Call → Ending ε Unit × List Call
  | [] => (.ok (.ok ()), before)
  | call :: rest =>
    match answer (before ++ [call]) with
    | .ok true => outcome answer (before ++ [call]) rest
    | .ok false => (.ok (.error (.cannotWrite call.1)), before ++ [call])
    | .error e => (.error e, before ++ [call])

variable {answer : Answers ε} {links : List Call → Option Node}

theorem runAfter_writeAll (calls before : List Call) :
    runAfter before ((Storage.recording answer links).writeAll calls) =
      outcome answer before calls := by
  induction calls generalizing before with
  | nil => rfl
  | cons call rest ih =>
      obtain ⟨path, content⟩ := call
      have hwrite : runAfter before (liftM ((Storage.recording answer links).write path content) :
          ExceptT RunError (ExceptT ε (StateM (List Call))) Bool) =
            ((answer (before ++ [(path, content)])).map .ok, before ++ [(path, content)]) := by
        have hrun : ((Storage.recording answer links).write path content).run.run before =
          (answer (before ++ [(path, content)]), before ++ [(path, content)]) := rfl
        show (Except.ok <$> (Storage.recording answer links).write path content).run.run before = _
        rw [ExceptT.run_map, StateT.run_map, hrun]
        rfl
      rw [Storage.writeAll, runAfter_bind, hwrite, outcome]
      cases answer (before ++ [(path, content)]) with
      | error e => rfl
      | ok done =>
          cases done with
          | false => rfl
          | true => exact ih _

theorem outcome_append (before calls more : List Call) :
    outcome answer before (calls ++ more) =
      match outcome answer before calls with
      | (.ok (.ok _), after) => outcome answer after more
      | ended => ended := by
  induction calls generalizing before with
  | nil => rfl
  | cons call rest ih =>
      rw [List.cons_append, outcome, outcome]
      rcases answer (before ++ [call]) with e | _ | _
      · rfl
      · rfl
      · exact ih _

theorem outcome_of_obeyed {calls before : List Call}
    (h : ∀ k < calls.length, answer (before ++ calls.take (k + 1)) = .ok true) :
    outcome answer before calls = (.ok (.ok ()), before ++ calls) := by
  induction calls generalizing before with
  | nil => rw [outcome, List.append_nil]
  | cons call rest ih =>
      have hfirst := h 0 (Nat.zero_lt_succ _)
      rw [List.take_succ_cons, List.take_zero] at hfirst
      rw [outcome, hfirst]
      dsimp only
      rw [ih, List.append_assoc, List.singleton_append]
      intro k hk
      rw [List.append_assoc, List.singleton_append, ← List.take_succ_cons]
      exact h (k + 1) (Nat.succ_lt_succ hk)

theorem snd_outcome_of_ok {calls before after : List Call}
    (h : outcome answer before calls = (.ok (.ok ()), after)) : after = before ++ calls := by
  induction calls generalizing before with
  | nil =>
      obtain ⟨-, rfl⟩ := Prod.mk.inj h
      exact (List.append_nil _).symm
  | cons call rest ih =>
      rw [outcome] at h
      split at h
      · rw [ih h, List.append_assoc, List.singleton_append]
      · cases h
      · cases h

theorem outcome_of_first {calls before : List Call} {k : Nat} (hk : k < calls.length)
    (h : ∀ j < k, answer (before ++ calls.take (j + 1)) = .ok true) :
    outcome answer before calls =
      match answer (before ++ calls.take (k + 1)) with
      | .ok true => outcome answer (before ++ calls.take (k + 1)) (calls.drop (k + 1))
      | .ok false => (.ok (.error (.cannotWrite calls[k].1)), before ++ calls.take (k + 1))
      | .error e => (.error e, before ++ calls.take (k + 1)) := by
  have hobeyed : outcome answer before (calls.take k) = (.ok (.ok ()), before ++ calls.take k) := by
    apply outcome_of_obeyed
    intro j hj
    rw [List.length_take, Nat.min_eq_left (Nat.le_of_lt hk)] at hj
    rw [List.take_take, Nat.min_eq_left hj]
    exact h j hj
  conv_lhs => rw [← List.take_append_drop k calls, outcome_append, hobeyed,
    List.drop_eq_getElem_cons hk]
  dsimp only
  rw [outcome, List.append_assoc, List.take_append_getElem hk]

/-- The calls that are made are the first ones, and all but the last of them are obeyed. -/
theorem exists_take_outcome (answer : Answers ε) (before calls : List Call) :
    ∃ n, (outcome answer before calls).2 = before ++ calls.take n ∧
      ∀ k, k + 1 < n → k < calls.length → answer (before ++ calls.take (k + 1)) = .ok true := by
  induction calls generalizing before with
  | nil => exact ⟨0, by simp [outcome], by simp⟩
  | cons call rest ih =>
      rw [outcome]
      have hstops : ∃ n, before ++ [call] = before ++ (call :: rest).take n ∧ ∀ k, k + 1 < n →
          k < (call :: rest).length →
            answer (before ++ (call :: rest).take (k + 1)) = .ok true :=
        ⟨1, rfl, fun k hk => absurd hk (by omega)⟩
      cases hcall : answer (before ++ [call]) with
      | error e => exact hstops
      | ok done =>
          cases done with
          | false => exact hstops
          | true =>
              obtain ⟨n, hrecord, hobeyed⟩ := ih (before ++ [call])
              refine ⟨n + 1, ?_, fun k hk hlength => ?_⟩
              · rw [List.take_succ_cons]
                simpa using hrecord
              · cases k with
                | zero => exact hcall
                | succ k =>
                    have hprefix := hobeyed k (by omega) (by simpa using hlength)
                    rwa [List.append_assoc, List.singleton_append, ← List.take_succ_cons] at hprefix

/-! ### The calls of a run -/

/-- The calls that a run is meant to make: its files in order, and then the edited sources if
sources are rewritten. -/
def Generation.calls (g : Generation) (s : Settings) : List Call :=
  g.files.map GeneratedFile.output ++
    if s.rewritesSources then g.rewrites.map SourceRewrite.output else []

namespace Links

variable {l : Links}

def recorded (l : Links) (answer : Answers ε) (links : List Call → Option Node) (writes : Bool) :
    Ending ε Generation × List Call :=
  runAfter [] (l.run (Storage.recording answer links) writes)

/-- All that a run makes if it gets to its end. -/
def result (l : Links) (links : List Call → Option Node) (rewrites : List SourceRewrite) :
    Generation :=
  l.generation (links (l.sourceFiles.map GeneratedFile.output)) rewrites

theorem calls_result (l : Links) (links : List Call → Option Node)
    (rewrites : List SourceRewrite) :
    (l.result links rewrites).calls l.settings = l.sourceFiles.map GeneratedFile.output ++
      ([(l.aggregateFile (links (l.sourceFiles.map GeneratedFile.output))).output] ++
        if l.settings.rewritesSources then rewrites.map SourceRewrite.output else []) := by
  rw [Generation.calls, result, generation, List.map_append, List.append_assoc]
  rfl

/-- A run makes the calls that it is meant to make, as far as they are obeyed. -/
theorem recorded_eq {rewrites : List SourceRewrite} (hrewrites : l.rewrites = .ok rewrites) :
    l.recorded answer links true =
      ((outcome answer [] ((l.result links rewrites).calls l.settings)).1.map
          (·.map fun _ => l.result links rewrites),
        (outcome answer [] ((l.result links rewrites).calls l.settings)).2) := by
  have hstatic : ∀ before, runAfter before (liftM (Storage.recording answer links).staticLinks :
      ExceptT RunError (ExceptT ε (StateM (List Call))) (Option Node)) =
        (.ok (.ok (links before)), before) := fun _ => rfl
  rw [recorded, Links.run, calls_result, outcome_append]
  simp only [if_true]
  rw [runAfter_bind, runAfter_writeAll]
  rcases hunits : outcome answer [] (l.sourceFiles.map GeneratedFile.output) with ⟨_ | _ | _, after⟩
  · rfl
  · rfl
  obtain rfl := snd_outcome_of_ok hunits
  dsimp only
  rw [runAfter_bind, hstatic, outcome_append]
  dsimp only
  rw [runAfter_bind, runAfter_writeAll, List.nil_append]
  rcases hroot : outcome answer (l.sourceFiles.map GeneratedFile.output)
    [(l.aggregateFile (links (l.sourceFiles.map GeneratedFile.output))).output] with
      ⟨_ | _ | _, after⟩
  · rfl
  · rfl
  rw [hrewrites]
  dsimp only
  split
  · rw [runAfter_bind, runAfter_writeAll]
    rcases outcome answer after (rewrites.map SourceRewrite.output) with ⟨_ | _ | _, after⟩ <;> rfl
  · rfl

/-- How a run over the sources of a tree writes to a file system, where `g` is all that it makes if
it gets to its end. -/
structure WritesInOrder (answer : Answers ε) (links : List Call → Option Node) (l : Links)
    (t : FileTree) (g : Generation) : Prop where
  /-- If all calls are obeyed, all are made, in their order. -/
  done : answer.Obeys (g.calls l.settings) (g.calls l.settings).length →
    l.recorded answer links true = (.ok (.ok g), g.calls l.settings)
  /-- If a call raises an error, it is the last, and the error is that of the run. -/
  raised : ∀ k < (g.calls l.settings).length, answer.Obeys (g.calls l.settings) k →
    ∀ e, answer ((g.calls l.settings).take (k + 1)) = .error e →
      l.recorded answer links true = (.error e, (g.calls l.settings).take (k + 1))
  /-- If a call is refused, it is the last, and the error of the run has its path. -/
  refused : ∀ k (hk : k < (g.calls l.settings).length), answer.Obeys (g.calls l.settings) k →
    answer ((g.calls l.settings).take (k + 1)) = .ok false →
      l.recorded answer links true =
        (.ok (.error (.cannotWrite (g.calls l.settings)[k].1)), (g.calls l.settings).take (k + 1))
  /-- No generated file has the name of a source. -/
  apart : ∀ f ∈ g.files, ∀ source ∈ Source.paths t,
    Path.baseName f.path ≠ Path.baseName (l.inProject source)
  /-- What is edited is a source. -/
  edited : ∀ r ∈ g.rewrites, ∃ source ∈ Source.paths t, r.path = l.inProject source
  /-- A file with the name of a source is touched only if sources are rewritten, and after every
  generated file has been written. -/
  sourcesLast : ∀ call ∈ (l.recorded answer links true).2,
    (∃ source ∈ Source.paths t, Path.baseName call.1 = Path.baseName (l.inProject source)) →
      l.settings.rewritesSources = true ∧
        g.files.map GeneratedFile.output <+: (l.recorded answer links true).2 ∧
        answer.Obeys (g.files.map GeneratedFile.output) g.files.length
  /-- Without writing there are no calls. -/
  idle : ∃ g', l.recorded answer links false = (.ok (.ok g'), [])

theorem recorded_false {rewrites : List SourceRewrite} (hrewrites : l.rewrites = .ok rewrites) :
    l.recorded answer links false = (.ok (.ok (l.generation (links []) rewrites)), []) := by
  rw [recorded, Links.run, hrewrites]
  cases hrewriting : l.settings.rewritesSources
  all_goals
    simp only [Bool.false_eq_true, if_false, if_true]
    rfl

/-- Of calls for two kinds of files, one is made for the second kind only after all for the first
have been obeyed. -/
theorem prefix_of_mem_outcome {files edits : List Call} {call : Call}
    (hcall : call ∈ (outcome answer [] (files ++ edits)).2) (hnot : call ∉ files) :
    call ∈ edits ∧ files <+: (outcome answer [] (files ++ edits)).2 ∧
      answer.Obeys files files.length := by
  obtain ⟨n, hrecord, hobeyed⟩ := exists_take_outcome answer [] (files ++ edits)
  rw [hrecord, List.nil_append] at hcall ⊢
  have hlong : files.length < n := by
    by_contra hshort
    rw [List.take_append_of_le_length (Nat.le_of_not_lt hshort)] at hcall
    exact hnot (List.mem_of_mem_take hcall)
  refine ⟨(List.mem_append.mp (List.mem_of_mem_take hcall)).resolve_left hnot, ?_, fun k hk => ?_⟩
  · rw [List.take_append, List.take_of_length_le (Nat.le_of_lt hlong)]
    exact List.prefix_append files _
  · have hfirst := hobeyed k (by omega) (by rw [List.length_append]; omega)
    rwa [List.nil_append, List.take_append_of_le_length hk] at hfirst

/-- A run over the sources of a tree makes its calls in order, whatever the file system answers. -/
theorem writesInOrder_ofTree (g : Grammar) (s : Settings) (projectRoot : String) {t : FileTree}
    (hnamed : t.IsNamed) (answer : Answers ε) (links : List Call → Option Node) :
    ∃ rewrites, (⟨s, Model.ofTree g t, projectRoot⟩ : Links).rewrites = .ok rewrites ∧
      WritesInOrder answer links ⟨s, Model.ofTree g t, projectRoot⟩ t
        ((⟨s, Model.ofTree g t, projectRoot⟩ : Links).result links rewrites) := by
  generalize hl : (⟨s, Model.ofTree g t, projectRoot⟩ : Links) = l
  have htree : l.FromTree g t := ⟨by rw [← hl], hnamed⟩
  obtain ⟨rewrites, hrewrites, hpaths⟩ := htree.exists_rewrites
  have hrecorded : l.recorded answer links true = _ := recorded_eq hrewrites
  have hapart : ∀ f ∈ (l.result links rewrites).files, ∀ source ∈ Source.paths t,
      Path.baseName f.path ≠ Path.baseName (l.inProject source) := by
    intro f hf source hsource
    rw [inProject, Path.baseName_join]
    exact htree.baseName_ne (isHandWritten_of_mem_files hf) hsource
  refine ⟨rewrites, hrewrites, ?_⟩
  constructor
  case done =>
    intro hobeyed
    rw [hrecorded, outcome_of_obeyed fun k hk => hobeyed k hk, List.nil_append]
    rfl
  case raised =>
    intro k hk hobeyed e he
    rw [hrecorded, outcome_of_first hk fun j hj => hobeyed j hj, List.nil_append, he]
    rfl
  case refused =>
    intro k hk hobeyed hrefused
    rw [hrecorded, outcome_of_first hk fun j hj => hobeyed j hj, List.nil_append, hrefused]
    rfl
  case apart => exact hapart
  case edited =>
    intro r hr
    have hpath : r.path ∈ l.editedSources.map l.inProject := hpaths ▸ List.mem_map_of_mem hr
    obtain ⟨source, hedited, hsame⟩ := List.mem_map.mp hpath
    exact ⟨source, htree.mem_paths_of_mem_editedSources hedited, hsame.symm⟩
  case sourcesLast =>
    rw [hrecorded]
    rintro call hcall ⟨source, hsource, hsame⟩
    have hnot : call ∉ (l.result links rewrites).files.map GeneratedFile.output := by
      intro hfile
      obtain ⟨f, hf, rfl⟩ := List.mem_map.mp hfile
      exact hapart f hf source hsource hsame
    obtain ⟨hedit, hfirst, hobeyed⟩ := prefix_of_mem_outcome hcall hnot
    rw [List.length_map] at hobeyed
    refine ⟨?_, hfirst, hobeyed⟩
    by_contra hoff
    rw [if_neg hoff] at hedit
    cases hedit
  case idle => exact ⟨_, recorded_false hrewrites⟩

def fullDisk : Answers String := fun calls =>
  if calls.length < 2 then .ok true else .error "disk full"

/-- There is room for the file beside the source, and none for the one at the root. -/
theorem writesInOrder_full_disk : areaProject.IsNamed ∧
    ∃ rewrites, areaLinks.rewrites = .ok rewrites ∧
      WritesInOrder fullDisk (fun _ => none) areaLinks areaProject
        (areaLinks.result (fun _ => none) rewrites) ∧
      (areaLinks.recorded fullDisk (fun _ => none) true).1 = .error "disk full" := by
  have hruns : ∃ rewrites, areaLinks.rewrites = .ok rewrites ∧
      WritesInOrder fullDisk (fun _ => none) areaLinks areaProject
        (areaLinks.result (fun _ => none) rewrites) :=
    writesInOrder_ofTree _ splitSettings "" isNamed_areaProject fullDisk fun _ => none
  obtain ⟨rewrites, hrewrites, horder⟩ := hruns
  refine ⟨isNamed_areaProject, rewrites, hrewrites, horder, ?_⟩
  have hbeside : areaLinks.sourceFiles.length = 1 := by
    have hsources : areaLinks.splitSources = ["Areas/Links.cs"] := by decide +kernel
    have hpaths := congrArg List.length areaLinks.map_path_sourceFiles
    rwa [hsources, List.length_map] at hpaths
  have hlong : 1 < ((areaLinks.result (fun _ => none) rewrites).calls
      areaLinks.settings).length := by
    rw [calls_result]
    simp only [List.length_append, List.length_map, List.length_singleton, hbeside]
    omega
  have hlast := horder.raised 1 hlong ?_ "disk full" ?_
  · exact congrArg Prod.fst hlast
  · intro j hj
    rw [fullDisk, if_pos]
    rw [List.length_take]
    omega
  · rw [fullDisk, if_neg]
    rw [List.length_take]
    omega

end Links

end RouteLinks
