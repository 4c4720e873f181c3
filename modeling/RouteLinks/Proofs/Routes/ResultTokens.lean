import RouteLinks.Proofs.Source.TypeSpacing
import RouteLinks.Routes.ResultKind
/-!
# Tokens of result types

The result type of an action is read off its return type with all white space left out. Its tokens
are those of the return type without the task around it if the task was told as what the brackets
say it is, and if no two tokens are left that join.
-/

namespace RouteLinks

open Source

/-! ### The task around a type -/

def taskWord : TypeWord := plainWord "Task" (by decide) (by decide)

def taskName : TypeToken := .word taskWord

def taskNamespace : List TypeToken :=
  [plainName "System" (by decide) (by decide), .sign .point,
    plainName "Threading" (by decide) (by decide), .sign .point,
    plainName "Tasks" (by decide) (by decide), .sign .point]

/-- How a task begins: with its name, short or in full, and the opening of its arguments. -/
def taskOpenings : List (List TypeToken) :=
  let short := [taskName, .sign .less]
  [plainName "global" (by decide) (by decide) :: .sign .colons :: (taskNamespace ++ short),
    taskNamespace ++ short, short]

/-- Whether an open bracket of type arguments is closed by the last token, so many being open within
it. -/
def closesLast : Nat → List TypeToken → Bool
  | _, [] => false
  | 0, .sign .greater :: rest => rest.isEmpty
  | depth + 1, .sign .greater :: rest => closesLast depth rest
  | depth, .sign .less :: rest => closesLast (depth + 1) rest
  | depth, _ :: rest => closesLast depth rest

/-- What is in the task if the tokens are one with something in it. -/
def outerTask? (ts : List TypeToken) : Option (List TypeToken) :=
  taskOpenings.findSome? fun opening =>
    let inside := ts.drop opening.length
    if opening.isPrefixOf ts && closesLast 0 inside && 2 ≤ inside.length then some inside.dropLast
    else none

def withoutTask (ts : List TypeToken) : List TypeToken := (outerTask? ts).getD ts

/-- What closes an open bracket last ends in the closing one. -/
theorem exists_of_closesLast {depth : Nat} {ts : List TypeToken} (h : closesLast depth ts = true) :
    ∃ inside, ts = inside ++ [.sign .greater] := by
  have hcons : ∀ {t : TypeToken} {rest : List TypeToken},
      (∃ inside, rest = inside ++ [.sign .greater]) →
        ∃ inside, t :: rest = inside ++ [.sign .greater] :=
    fun {t _} ⟨inside, hrest⟩ => ⟨t :: inside, congrArg (t :: ·) hrest⟩
  induction depth, ts using closesLast.induct with
  | case1 => simp [closesLast] at h
  | case2 rest =>
      rw [closesLast, List.isEmpty_iff] at h
      exact ⟨[], by rw [h]; rfl⟩
  | case3 rest depth ih =>
      rw [closesLast] at h
      exact hcons (ih h)
  | case4 depth rest ih =>
      rw [closesLast] at h
      exact hcons (ih h)
  | case5 depth t rest hgreater hdeeper hless ih =>
      rw [closesLast.eq_5 _ _ _ hless hgreater hdeeper] at h
      exact hcons (ih h)

/-- A task is its opening, something in it, and the closing bracket. -/
theorem exists_of_outerTask? {ts inside : List TypeToken} (h : outerTask? ts = some inside) :
    ∃ opening ∈ taskOpenings, ts = opening ++ (inside ++ [.sign .greater]) ∧ inside ≠ [] := by
  obtain ⟨opening, hopening, htask⟩ := List.exists_of_findSome?_eq_some h
  refine ⟨opening, hopening, ?_⟩
  dsimp only at htask
  split at htask
  · next hall =>
    simp only [Bool.and_eq_true, decide_eq_true_eq] at hall
    obtain ⟨⟨hbegins, hcloses⟩, hlength⟩ := hall
    obtain ⟨rest, rfl⟩ := List.isPrefixOf_iff_prefix.mp hbegins
    rw [List.drop_left] at hcloses hlength htask
    obtain ⟨before, rfl⟩ := exists_of_closesLast hcloses
    obtain rfl := Option.some.inj htask
    rw [List.length_append, List.length_singleton] at hlength
    rw [List.dropLast_concat]
    exact ⟨rfl, List.ne_nil_of_length_pos (by omega)⟩
  · cases htask

/-! ### What is read -/

def taskStarts : List (List Char) :=
  ["global::System.Threading.Tasks.Task<".toList, "System.Threading.Tasks.Task<".toList,
    "Task<".toList]

theorem map_compact_taskOpenings : taskOpenings.map compact = taskStarts := by decide

/-- What is between a text and the bracket at the end, if it is something. -/
def argumentAfter? (start cs : List Char) : Option (List Char) :=
  if start.isPrefixOf cs then
    let inner := cs.drop start.length
    if inner.length ≥ 2 && inner.getLast? == some '>' then some inner.dropLast else none
  else none

theorem argumentAfter?_eq_some_iff {start cs inner : List Char} :
    argumentAfter? start cs = some inner ↔ cs = start ++ (inner ++ ['>']) ∧ inner ≠ [] := by
  unfold argumentAfter?
  constructor
  · intro h
    split at h
    · next hbegins =>
      obtain ⟨rest, rfl⟩ := List.isPrefixOf_iff_prefix.mp hbegins
      rw [List.drop_left] at h
      dsimp only at h
      split at h
      · next hall =>
        simp only [Bool.and_eq_true, decide_eq_true_eq, beq_iff_eq] at hall
        obtain ⟨before, rfl⟩ := List.getLast?_eq_some_iff.mp hall.2
        obtain rfl := Option.some.inj h
        have hlength := hall.1
        rw [List.length_append, List.length_singleton] at hlength
        rw [List.dropLast_concat]
        exact ⟨rfl, List.ne_nil_of_length_pos (by omega)⟩
      · cases h
    · cases h
  · rintro ⟨rfl, hne⟩
    have hpositive := List.length_pos_iff.mpr hne
    rw [if_pos (List.isPrefixOf_iff_prefix.mpr (List.prefix_append _ _)), List.drop_left]
    dsimp only
    rw [if_pos, List.dropLast_concat]
    simp only [List.getLast?_concat, List.length_append, List.length_singleton, beq_self_eq_true,
      Bool.and_true, decide_eq_true_eq]
    omega

/-- A text is read as a task if something is between one of the openings and the bracket at its
end. -/
theorem taskArgument?_eq_some_iff {cs inner : List Char} :
    taskArgument? cs = some inner ↔
      ∃ start ∈ taskStarts, cs = start ++ (inner ++ ['>']) ∧ inner ≠ [] := by
  have heither : taskArgument? cs =
      ((argumentAfter? "global::System.Threading.Tasks.Task<".toList cs).or
        (argumentAfter? "System.Threading.Tasks.Task<".toList cs)).or
          (argumentAfter? "Task<".toList cs) := rfl
  -- The openings begin with different letters.
  have hone : ∀ {start other xs ys : List Char}, start ∈ taskStarts → other ∈ taskStarts →
      argumentAfter? start cs = some xs → argumentAfter? other cs = some ys → start = other := by
    intro start other xs ys hstart hother hxs hys
    have hletters : ∀ start ∈ taskStarts, ∀ other ∈ taskStarts,
        start.head? = other.head? → start = other := by decide
    have hnonempty : ∀ start ∈ taskStarts, start ≠ [] := by decide
    refine hletters start hstart other hother ?_
    rw [← List.head?_append_of_ne_nil _ (hnonempty start hstart),
      ← (argumentAfter?_eq_some_iff.mp hxs).1, (argumentAfter?_eq_some_iff.mp hys).1,
      List.head?_append_of_ne_nil _ (hnonempty other hother)]
  simp only [← argumentAfter?_eq_some_iff]
  rw [heither]
  constructor
  · intro h
    rcases Option.or_eq_some_iff.mp h with h | ⟨-, h⟩
    · rcases Option.or_eq_some_iff.mp h with h | ⟨-, h⟩
      · exact ⟨_, by decide, h⟩
      · exact ⟨_, by decide, h⟩
    · exact ⟨_, by decide, h⟩
  · rintro ⟨start, hstart, h⟩
    have hnone : ∀ other ∈ taskStarts, other ≠ start → argumentAfter? other cs = none := by
      intro other hother hne
      cases hfound : argumentAfter? other cs with
      | none => rfl
      | some ys => exact absurd (hone hother hstart hfound h) hne
    simp only [taskStarts, List.mem_cons, List.not_mem_nil, or_false] at hstart
    rcases hstart with rfl | rfl | rfl
    · rw [h]
      rfl
    · rw [hnone _ (by decide) (by decide), h]
      rfl
    · rw [hnone _ (by decide) (by decide), hnone _ (by decide) (by decide), h]
      rfl

/-- The task that the brackets tell is always told. -/
theorem taskArgument?_of_outerTask? {ts inside : List TypeToken}
    (h : outerTask? ts = some inside) : taskArgument? (compact ts) = some (compact inside) := by
  obtain ⟨opening, hopening, rfl, hne⟩ := exists_of_outerTask? h
  rw [taskArgument?_eq_some_iff, ← map_compact_taskOpenings]
  refine ⟨compact opening, List.mem_map_of_mem hopening, ?_, ?_⟩
  · rw [compact_append, compact_append]
    rfl
  · obtain ⟨u, us, rfl⟩ := List.exists_cons_of_ne_nil hne
    simp [u.chars_ne_nil]

theorem length_lexemesOf_taskArgument_lt {ts : List TypeToken} {inner : List Char}
    (h : taskArgument? (compact ts) = some inner) :
    (lexemesOf (String.ofList inner)).length < ts.length := by
  obtain ⟨start, hstart, htext, -⟩ := taskArgument?_eq_some_iff.mp h
  have hopens : ∀ start ∈ taskStarts, start = start.dropLast ++ ['<'] := by decide
  rw [hopens start hstart, List.append_assoc, List.singleton_append] at htext
  obtain ⟨us, vs, rfl, -, hvs⟩ := exists_of_compact_eq (s := .less) rfl htext
  obtain ⟨ms, ns, rfl, rfl, -⟩ := exists_of_compact_eq (s := .greater) rfl hvs
  have hlength := length_lexemesOf_compact_le ms
  simp only [List.length_append, List.length_cons]
  omega

theorem ofBare?_eq_some {isAsync : Bool} {cs : List Char} {shape : ResultShape}
    (h : ResultShape.ofBare? isAsync cs = some shape) :
    shape.resultType = String.ofList cs ∧ shape.isAsync = isAsync := by
  unfold ResultShape.ofBare? at h
  dsimp only at h
  split at h
  · obtain rfl := Option.some.inj h
    exact ⟨rfl, rfl⟩
  · split at h
    · obtain rfl := Option.some.inj h
      exact ⟨rfl, rfl⟩
    · cases h

namespace ResultShape

variable {t : TypeText} {shape : ResultShape}

/-- A reader of the result type finds the tokens of the return type without the task around it if
and only if the task is the one that the brackets tell and no two of these tokens join. -/
theorem lexemesOf_resultType_iff (h : ofType? (some t.text) = some shape) :
    lexemesOf t.text = t.tokens.map TypeToken.lexeme ∧
      (lexemesOf shape.resultType = (withoutTask t.tokens).map TypeToken.lexeme ↔
        shape.isAsync = (outerTask? t.tokens).isSome ∧ Apart (withoutTask t.tokens)) := by
  refine ⟨t.lexemesOf_text, ?_⟩
  rw [ofType?, t.squeeze_text] at h
  cases htask : taskArgument? (compact t.tokens) with
  | none =>
      rw [htask] at h
      obtain ⟨htype, hasync⟩ := ofBare?_eq_some h
      have hnone : outerTask? t.tokens = none := by
        cases hinside : outerTask? t.tokens with
        | none => rfl
        | some inside => rw [taskArgument?_of_outerTask? hinside] at htask; cases htask
      rw [htype, hasync, withoutTask, hnone]
      exact lexemesOf_compact_iff.trans (by simp)
  | some inner =>
      rw [htask] at h
      obtain ⟨htype, hasync⟩ := ofBare?_eq_some h
      rw [htype, hasync, withoutTask]
      cases hinside : outerTask? t.tokens with
      | some inside =>
          obtain rfl : compact inside = inner :=
            Option.some.inj ((taskArgument?_of_outerTask? hinside).symm.trans htask)
          exact lexemesOf_compact_iff.trans (by simp)
      | none =>
          -- So the text begins as a task does, but the bracket at the end closes another one.
          refine iff_of_false (fun hsame => ?_) (by simp)
          have hlength := length_lexemesOf_taskArgument_lt htask
          rw [hsame, Option.getD_none, List.length_map] at hlength
          exact Nat.lt_irrefl _ hlength

def resultWord : TypeWord := plainWord "ActionResult" (by decide) (by decide)

def taskOfNumber : TypeText :=
  .ofSpaced
    [tight taskName, tight (.sign .less), loose (.word resultWord), tight (.sign .less),
      tight (.word numberWord), tight (.sign .greater), loose (.sign .greater)]
    (by decide)

/-- The spaces around a type argument are no loss. -/
theorem lexemesOf_resultType_number :
    taskOfNumber.text = "Task< ActionResult<int> >" ∧
      ofType? (some taskOfNumber.text) = some ⟨.generic, "ActionResult<int>", true⟩ ∧
      lexemesOf "ActionResult<int>" =
        (withoutTask taskOfNumber.tokens).map TypeToken.lexeme := by
  have hshape : ofType? (some taskOfNumber.text) = some ⟨.generic, "ActionResult<int>", true⟩ := by
    decide
  have htokens := (lexemesOf_resultType_iff hshape).2
  exact ⟨by decide, hshape, htokens.mpr ⟨by decide, by decide⟩⟩

def taskOfTuple : TypeText :=
  .ofSpaced
    [tight taskName, tight (.sign .less), tight (.word resultWord), tight (.sign .less),
      tight (.sign .openRound), tight (.word numberWord),
      loose (plainName "id" (by decide) (by decide)), tight (.sign .comma),
      loose (.word stringWord), loose (plainName "name" (by decide) (by decide)),
      tight (.sign .closeRound), tight (.sign .greater), tight (.sign .greater)]
    (by decide)

/-- Without spaces the type of an element of a tuple and its name make one word. -/
theorem lexemesOf_resultType_tuple :
    taskOfTuple.text = "Task<ActionResult<(int id, string name)>>" ∧
      lexemesOf taskOfTuple.text = taskOfTuple.tokens.map TypeToken.lexeme ∧
      ofType? (some taskOfTuple.text) =
        some ⟨.generic, "ActionResult<(intid,stringname)>", true⟩ ∧
      lexemesOf "ActionResult<(intid,stringname)>" ≠
        (withoutTask taskOfTuple.tokens).map TypeToken.lexeme := by
  have hcompact : "ActionResult<(intid,stringname)>" =
      String.ofList (compact (withoutTask taskOfTuple.tokens)) := by decide
  refine ⟨by decide, taskOfTuple.lexemesOf_text, by decide, ?_⟩
  rw [hcompact, Ne, lexemesOf_compact_iff]
  decide

end ResultShape

end RouteLinks
