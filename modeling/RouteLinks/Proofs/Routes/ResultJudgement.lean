import RouteLinks.Proofs.Routes.ResultTokens
import RouteLinks.Proofs.Routes.RouteName
import RouteLinks.Proofs.Source.TypeTree
/-!
# How return types are judged

The kind of an action is read off the text of its return type: what comes before the first bracket
of type arguments is cut at its last point. For a plain name, in a task or not, this finds the name
of the type. Where a type goes on behind type arguments it finds a name within the type, so that an
array of results is taken for such a result.
-/

namespace RouteLinks

open Source

/-! ### Replacing beside a separator -/

namespace Text

theorem isPrefixOf_append_cons {old xs ys : List Char} {c : Char} (hc : c ∉ old) :
    old.isPrefixOf (xs ++ c :: ys) = old.isPrefixOf xs := by
  rw [Bool.eq_iff_iff, List.isPrefixOf_iff_prefix, List.isPrefixOf_iff_prefix]
  constructor
  · intro h
    rcases List.prefix_or_prefix_of_prefix h (List.prefix_append xs (c :: ys)) with hshort | hlong
    · exact hshort
    · obtain ⟨more, rfl⟩ := hlong
      cases more with
      | nil => simp
      | cons d others =>
          obtain ⟨rfl, -⟩ := List.cons_prefix_cons.mp ((List.prefix_append_right_inj xs).mp h)
          exact absurd (by simp) hc
  · exact fun h => h.trans (List.prefix_append _ _)

theorem replace_append_cons {old new : List Char} {c : Char} (hc : c ∉ old) (xs ys : List Char) :
    replace old new (xs ++ c :: ys) = replace old new xs ++ c :: replace old new ys := by
  unfold replace
  split
  · rfl
  · next hne =>
    have hstep : ∀ skip ≤ xs.length, replace.go old new skip (xs ++ c :: ys) =
        replace.go old new skip xs ++ c :: replace.go old new 0 ys := by
      induction xs with
      | nil =>
          intro skip hskip
          obtain rfl := Nat.le_zero.mp hskip
          have hprefix : old.isPrefixOf (c :: ys) = false := by
            rw [← List.nil_append (c :: ys), isPrefixOf_append_cons hc]
            cases old with
            | nil => exact absurd rfl hne
            | cons => rfl
          rw [List.nil_append, replace.go, replace.go, hprefix]
          rfl
      | cons x rest ih =>
          intro skip hskip
          cases skip with
          | succ skip => exact ih skip (Nat.le_of_succ_le_succ hskip)
          | zero =>
              have hsame := @isPrefixOf_append_cons old (x :: rest) ys c hc
              rw [List.cons_append] at hsame ⊢
              rw [replace.go, replace.go, hsame]
              split
              · next hbegins =>
                have hlength := (List.isPrefixOf_iff_prefix.mp hbegins).length_le
                rw [List.length_cons] at hlength
                rw [ih _ (by omega), List.append_assoc]
              · rw [ih 0 (Nat.zero_le _), List.cons_append]
    exact hstep 0 (Nat.zero_le _)

end Text

/-! ### The name that decides -/

def unqualified (cs : List Char) : List Char :=
  Text.lastField '.' (Text.replace "global::".toList [] cs)

theorem Text.firstField_append_cons {separator : Char} {pre : List Char} (h : separator ∉ pre)
    (post : List Char) : firstField separator (pre ++ separator :: post) = pre := by
  rw [firstField, List.takeWhile_append_of_pos, List.takeWhile_cons_of_neg (by simp),
    List.append_nil]
  exact fun c hc => bne_iff_ne.mpr (by rintro rfl; exact h hc)

theorem bareTypeName_append {pre : List Char} (h : '<' ∉ pre) (post : List Char) :
    bareTypeName (pre ++ '<' :: post) = unqualified pre := by
  rw [bareTypeName, Text.firstField_append_cons h, unqualified]

theorem bareTypeName_of_not_mem {cs : List Char} (h : '<' ∉ cs) :
    bareTypeName cs = unqualified cs := by
  have hfirst : Text.firstField '<' cs = cs := by
    rw [Text.firstField, List.takeWhile_eq_self_iff]
    exact fun c hc => bne_iff_ne.mpr (by rintro rfl; exact h hc)
  rw [bareTypeName, hfirst, unqualified]

/-- Whether a text without type arguments, put behind whatever a bracket or a comma ends, is a name
does not depend on what that is: either a point comes later, or it is none. -/
theorem unqualified_behind {c : Char} (hc : c = '(' ∨ c = ',') (u v : List Char) {name : List Char}
    (hname : '(' ∉ name ∧ ',' ∉ name) :
    unqualified (u ++ c :: v) = name ↔ unqualified ('(' :: v) = name := by
  have hcut : ∀ (c : Char) (u : List Char), c = '(' ∨ c = ',' →
      unqualified (u ++ c :: v) = if '.' ∈ Text.replace "global::".toList [] v then unqualified v
        else Text.lastField '.' (Text.replace "global::".toList [] u) ++
          c :: Text.replace "global::".toList [] v := by
    intro c u hc
    have hother : c ∉ "global::".toList ∧ c ≠ '.' := by rcases hc with rfl | rfl <;> decide
    rw [unqualified, unqualified, Text.replace_append_cons hother.1]
    generalize Text.replace "global::".toList [] v = v'
    generalize Text.replace "global::".toList [] u = u'
    split
    · next hpoint =>
      obtain ⟨hlast, hwhole | ⟨before, hwhole⟩⟩ := Text.lastField_spec '.' v'
      · rw [← hwhole] at hlast
        exact absurd hpoint hlast
      · rw [hwhole, ← List.cons_append, ← List.append_assoc, Text.lastField_append_cons,
          Text.lastField_append_cons]
    · next hpoint => exact Text.lastField_append (by simp [hother.2.symm, hpoint])
  rw [hcut c u hc, ← List.nil_append ('(' :: v), hcut '(' [] (.inl rfl)]
  split
  · rfl
  · refine iff_of_false ?_ ?_
    · rintro rfl
      rcases hc with rfl | rfl
      · exact hname.1 (by simp)
      · exact hname.2 (by simp)
    · rintro rfl
      exact hname.1 (by simp)

def IsGeneric (cs : List Char) : Prop := unqualified cs = "ActionResult".toList

instance (cs : List Char) : Decidable (IsGeneric cs) := inferInstanceAs (Decidable (_ = _))

/-- What is known of the text that comes before a type: it is the one given, or that of a tuple up
to an element. -/
def StandsFor (front before : List Char) : Prop :=
  before = front ∨ (front = ['('] ∧ ∃ u c, before = u ++ [c] ∧ (c = '(' ∨ c = ','))

/-- What the text before the first type arguments of some tokens says. -/
def Opens (ts : List TypeToken) (front : List Char) : Option (List Char) → Prop
  | none => '<' ∉ compact ts
  | some text => ∃ pre post, compact ts = pre ++ '<' :: post ∧ '<' ∉ pre ∧
      ∀ before, StandsFor front before → (IsGeneric (before ++ pre) ↔ IsGeneric text)

namespace Opens

variable {ts us : List TypeToken} {front : List Char} {text? : Option (List Char)}

theorem append (h : Opens ts front text?) (hus : text? = none → '<' ∉ compact us) :
    Opens (ts ++ us) front text? := by
  cases text? with
  | none =>
      rw [Opens, compact_append, List.mem_append, not_or]
      exact ⟨h, hus rfl⟩
  | some text =>
      obtain ⟨pre, post, hcompact, hless, hgeneric⟩ := h
      exact ⟨pre, post ++ compact us, by rw [compact_append, hcompact]; simp, hless, hgeneric⟩

theorem behind (h : Opens us ['('] text?) {t : TypeToken} {c : Char} (ht : t.chars = [c])
    (hc : c = '(' ∨ c = ',') (hts : '<' ∉ compact ts) : Opens (ts ++ t :: us) front text? := by
  have hother : '<' ≠ c := by rcases hc with rfl | rfl <;> decide
  cases text? with
  | none =>
      rw [Opens] at h
      rw [Opens, compact_append, compact_cons, ht]
      simp [hts, hother, h]
  | some text =>
      obtain ⟨pre, post, hcompact, hless, hgeneric⟩ := h
      refine ⟨compact ts ++ c :: pre, post, ?_, by simp [hts, hother, hless], fun before _ => ?_⟩
      · rw [compact_append, compact_cons, ht, hcompact]
        simp
      · rw [← hgeneric (before ++ compact ts ++ [c]) (.inr ⟨rfl, _, c, rfl, hc⟩)]
        simp

end Opens

theorem isGeneric_behind {front before : List Char} (h : StandsFor front before)
    (pre : List Char) : IsGeneric (before ++ pre) ↔ IsGeneric (front ++ pre) := by
  rcases h with rfl | ⟨rfl, u, c, rfl, hc⟩
  · exact Iff.rfl
  · rw [List.append_assoc, List.singleton_append]
    exact unqualified_behind hc u pre (by decide)

mutual

theorem opens_type (front : List Char) :
    (T : TypeTree) → Opens T.tokens front (T.opened? front)
  | .named alias? path => by
    rw [TypeTree.opened?, TypeTree.tokens]
    cases hpath : path.opened? (front ++ compact (aliasTokens alias?)) with
    | none =>
        rw [Option.map_none, Opens, compact_append, List.mem_append, not_or]
        exact ⟨less_not_mem_alias alias?, TypePath.less_not_mem_of_opened? hpath⟩
    | some opened =>
        obtain ⟨text, types, rest?⟩ := opened
        obtain ⟨pre, hcompact, hless, rfl⟩ := TypePath.compact_of_opened? hpath
        refine ⟨compact (aliasTokens alias?) ++ pre,
          compact types.tokens ++ '>' :: TypePath.behind rest?, ?_, ?_, fun before hbefore => ?_⟩
        · rw [compact_append, hcompact, List.append_assoc]
        · simp [less_not_mem_alias, hless]
        · rw [List.append_assoc]
          exact isGeneric_behind hbefore _
  | .array element rank => by
    rw [TypeTree.opened?, TypeTree.tokens, List.append_assoc]
    refine (opens_type front element).append fun _ => not_mem_compact (s := .less) rfl ?_
    simp
  | .nullable element => by
    rw [TypeTree.opened?, TypeTree.tokens]
    exact (opens_type front element).append fun _ => by decide
  | .tuple elements => by
    rw [TypeTree.opened?, TypeTree.tokens, ← List.nil_append (_ :: _)]
    refine .behind ((opens_elements elements).append fun _ => by decide) rfl (.inl rfl) (by simp)

theorem opens_elements : (es : TupleElements) → Opens es.tokens ['('] es.opened?
  | .one type name? => by
    rw [TupleElements.opened?, TupleElements.tokens]
    exact (opens_type ['('] type).append fun _ => less_not_mem_elementName name?
  | .more type name? rest => by
    have htype := opens_type ['('] type
    rw [TupleElements.opened?, TupleElements.tokens]
    cases hopened : type.opened? ['('] with
    | some text =>
        rw [hopened] at htype
        rw [Option.some_or, List.append_assoc]
        exact htype.append nofun
    | none =>
        rw [hopened] at htype
        rw [Option.none_or]
        refine .behind (opens_elements rest) rfl (.inr rfl) ?_
        rw [compact_append, List.mem_append, not_or]
        exact ⟨htype, less_not_mem_elementName name?⟩

end

/-! ### Kinds of types -/

def ResultKind.ofTypeName? (name : String) (hasArguments : Bool) : Option ResultKind :=
  if name == "JsonResult" && !hasArguments then some .data
  else if name == "ActionResult" || (name == "IActionResult" && !hasArguments) then some .generic
  else none

def taskTexts : List (List Char) :=
  ["global::System.Threading.Tasks.Task".toList, "System.Threading.Tasks.Task".toList,
    "Task".toList]

/-- What a type is a task of. -/
def Source.TypeTree.task? : TypeTree → Option TypeTree
  | .named alias? path =>
    match path.opened? (compact (aliasTokens alias?)) with
    | some (name, .one type, none) => if taskTexts.contains name then some type else none
    | _ => none
  | _ => none

/-- What is read as in a task: what is between the first bracket of type arguments and one at the
end, if the name of a task is before it. -/
def Source.TypeTree.inside? : TypeTree → Option (List TypeToken)
  | .named alias? path =>
    match path.opened? (compact (aliasTokens alias?)) with
    | none => none
    | some (name, types, rest?) =>
      if taskTexts.contains name then TypePath.inner? types rest? else none
  | _ => none

def Source.TypeTree.result (T : TypeTree) : TypeTree := T.task?.getD T

/-- The kind that is to stand for a type. It is told by the name of the type, without arguments but
for `ActionResult`; an array, a nullable or a tuple has none. -/
def Source.TypeTree.kind? (T : TypeTree) : Option ResultKind :=
  match T.result with
  | .named _ path => ResultKind.ofTypeName? path.lastName.name path.hasArguments
  | _ => none

def Source.TypeTree.bareKind? : TypeTree → Option ResultKind
  | .named alias? path =>
    let text := compact (TypeTree.named alias? path).tokens
    ResultKind.ofTypeName? (String.ofList (unqualified text)) false
  | _ => none

/-- The kind that is read off the text of a type, for which no task is left out. Where the type has
type arguments anywhere, it is judged by the name before the first of them. -/
def Source.TypeTree.judged (T : TypeTree) : Option ResultKind :=
  match T.opened? [] with
  | some text => if IsGeneric text then some .generic else none
  | none => T.bareKind?

def textKind? (cs : List Char) : Option ResultKind :=
  ResultKind.ofTypeName? (String.ofList (bareTypeName cs)) (cs.contains '<')

/-- The kind that is read off the text of a type, what is read as in a task being judged as it
stands. -/
def Source.TypeTree.read (T : TypeTree) : Option ResultKind :=
  match T.inside? with
  | none => T.judged
  | some ts => textKind? (compact ts)

/-- Whether a type is read as a task only if it is one: the class of tasks has one type parameter
and no types in it. -/
def Source.TypeTree.TaskIsRead (T : TypeTree) : Prop := T.inside? = T.task?.map TypeTree.tokens

instance (T : TypeTree) : Decidable T.TaskIsRead := inferInstanceAs (Decidable (_ = _))

/-- Whether a type is a name of which the last part alone may have arguments, written without marks
and escapes, and without an alias but the global one. -/
def Source.TypeTree.IsPlain : TypeTree → Prop
  | .named alias? path =>
    (∀ w ∈ alias?, w.marked = false ∧ w.name = "global") ∧ path.IsPlain
  | _ => False

def Source.TypeTree.element? : TypeTree → Option TypeTree
  | .array element _ | .nullable element => some element
  | _ => none

/-! ### Judging by the text -/

theorem map_kind_ofBare? (isAsync : Bool) (cs : List Char) :
    (ResultShape.ofBare? isAsync cs).map (·.kind) = textKind? cs := by
  unfold ResultShape.ofBare? textKind? ResultKind.ofTypeName?
  dsimp only
  split
  · rfl
  · split <;> rfl

theorem ofTypeName?_eq_none {cs : List Char} {c : Char} (hc : c ∈ cs) (hsign : c.isAlpha = false)
    (hasArguments : Bool) : ResultKind.ofTypeName? (String.ofList cs) hasArguments = none := by
  have hname : ∀ name ∈ ["JsonResult", "ActionResult", "IActionResult"],
      (String.ofList cs == name) = false := by
    intro name hmem
    rw [beq_eq_false_iff_ne]
    rintro rfl
    have hletters : ∀ name ∈ ["JsonResult", "ActionResult", "IActionResult"],
        name.toList.all Char.isAlpha = true := by decide
    have halpha := List.all_eq_true.mp (hletters _ hmem) c (by rwa [String.toList_ofList])
    rw [hsign] at halpha
    cases halpha
  simp [ResultKind.ofTypeName?, hname]

theorem ofTypeName?_true (cs : List Char) :
    ResultKind.ofTypeName? (String.ofList (unqualified cs)) true =
      if IsGeneric cs then some .generic else none := by
  have hname : (String.ofList (unqualified cs) == "ActionResult") = true ↔ IsGeneric cs := by
    rw [beq_iff_eq, IsGeneric, ← String.toList_inj, String.toList_ofList]
  simp [ResultKind.ofTypeName?, ← hname]

theorem mem_unqualified_concat {c : Char} (hc : c ∉ "global::".toList) (hpoint : c ≠ '.')
    (cs : List Char) : c ∈ unqualified (cs ++ [c]) := by
  rw [unqualified, Text.replace_append_cons hc]
  have hnil : Text.replace "global::".toList [] [] = [] := by decide
  rw [hnil, Text.lastField_append (by simpa using hpoint.symm)]
  simp

/-- The text of a type, for which no task is left out, is judged as the type. -/
theorem textKind?_compact (T : TypeTree) : textKind? (compact T.tokens) = T.judged := by
  have hopens := opens_type [] T
  rw [textKind?, TypeTree.judged]
  cases hopened : T.opened? [] with
  | some text =>
      rw [hopened] at hopens
      obtain ⟨pre, post, hcompact, hless, hgeneric⟩ := hopens
      have hiff := hgeneric [] (.inl rfl)
      have harguments : (pre ++ '<' :: post).contains '<' = true := by simp
      rw [hcompact, bareTypeName_append hless, harguments]
      exact (ofTypeName?_true pre).trans (if_congr hiff rfl rfl)
  | none =>
      rw [hopened] at hopens
      have hless : (compact T.tokens).contains '<' = false := by
        rw [Bool.eq_false_iff]
        exact fun h => hopens (List.contains_iff_mem.mp h)
      rw [bareTypeName_of_not_mem hopens, hless]
      cases T with
      | named alias? path => rfl
      | array element rank =>
          rw [TypeTree.tokens, compact_append]
          exact ofTypeName?_eq_none (mem_unqualified_concat (c := ']') (by decide) (by decide) _)
            (by decide) false
      | nullable element =>
          rw [TypeTree.tokens, compact_append]
          exact ofTypeName?_eq_none (mem_unqualified_concat (c := '?') (by decide) (by decide) _)
            (by decide) false
      | tuple elements =>
          rw [TypeTree.tokens, compact_cons, compact_append, ← List.append_assoc]
          exact ofTypeName?_eq_none (mem_unqualified_concat (c := ')') (by decide) (by decide) _)
            (by decide) false

/-! ### Tasks -/

theorem taskStarts_eq : taskStarts = taskTexts.map (· ++ ['<']) := by decide

theorem exists_of_taskArgument? {T : TypeTree} {inner : List Char}
    (h : taskArgument? (compact T.tokens) = some inner) :
    ∃ alias? path name types rest?, T = .named alias? path ∧
      path.opened? (compact (aliasTokens alias?)) = some (name, types, rest?) ∧
      name ∈ taskTexts := by
  obtain ⟨start, hstart, htext, -⟩ := taskArgument?_eq_some_iff.mp h
  rw [taskStarts_eq, List.mem_map] at hstart
  obtain ⟨taskText, htask, rfl⟩ := hstart
  have hend : (compact T.tokens).getLast? = some '>' := by
    rw [htext, ← List.append_assoc, List.getLast?_concat]
  have hother : ∀ (ts : List TypeToken) (s : TypeSign) (c : Char), s.chars = [c] → c ≠ '>' →
      (compact (ts ++ [.sign s])).getLast? ≠ some '>' := by
    intro ts s c hs hc
    simp [TypeToken.chars, hs, hc]
  cases T with
  | array element rank => exact absurd hend (hother _ .closeSquare ']' rfl (by decide))
  | nullable element => exact absurd hend (hother _ .question '?' rfl (by decide))
  | tuple elements =>
      rw [TypeTree.tokens, ← List.cons_append] at hend
      exact absurd hend (hother _ .closeRound ')' rfl (by decide))
  | named alias? path =>
      have hless : '<' ∉ taskText := by
        have hall : ∀ text ∈ taskTexts, '<' ∉ text := by decide
        exact hall taskText htask
      rw [TypeTree.tokens, compact_append] at htext
      cases hopened : path.opened? (compact (aliasTokens alias?)) with
      | none =>
          have hnone : '<' ∉ compact (aliasTokens alias?) ++ compact path.tokens := by
            rw [List.mem_append, not_or]
            exact ⟨less_not_mem_alias alias?, TypePath.less_not_mem_of_opened? hopened⟩
          exact absurd (by rw [htext]; simp) hnone
      | some opened =>
          obtain ⟨name, types, rest?⟩ := opened
          obtain ⟨pre, hcompact, hpre, rfl⟩ := TypePath.compact_of_opened? hopened
          refine ⟨alias?, path, _, types, rest?, rfl, hopened, ?_⟩
          -- Both are what is before the first bracket.
          have hfirst := congrArg (Text.firstField '<') htext
          rw [hcompact, ← List.append_assoc, List.append_assoc taskText,
            List.singleton_append, Text.firstField_append_cons hless,
            Text.firstField_append_cons (by simp [less_not_mem_alias, hpre])] at hfirst
          rwa [hfirst]

/-- Behind the name of a task everything up to a bracket at the end is read as in it. -/
theorem taskArgument?_of_mem_taskTexts {alias? : Option TypeWord} {path : TypePath}
    {name : List Char} {types : TypeList} {rest? : Option TypePath}
    (hopened : path.opened? (compact (aliasTokens alias?)) = some (name, types, rest?))
    (hname : name ∈ taskTexts) :
    taskArgument? (compact (TypeTree.named alias? path).tokens) =
      (TypePath.inner? types rest?).map compact := by
  obtain ⟨pre, hcompact, -, rfl⟩ := TypePath.compact_of_opened? hopened
  have htext : compact (TypeTree.named alias? path).tokens =
      (compact (aliasTokens alias?) ++ pre ++ ['<']) ++
        (compact types.tokens ++ '>' :: TypePath.behind rest?) := by
    rw [TypeTree.tokens, compact_append, hcompact]
    simp
  rw [htext]
  cases hinner : TypePath.inner? types rest? with
  | some ts =>
      obtain ⟨hend, hne⟩ := TypePath.compact_of_inner? hinner
      rw [hend, Option.map_some, taskArgument?_eq_some_iff, taskStarts_eq]
      exact ⟨_, List.mem_map_of_mem hname, rfl, hne⟩
  | none =>
      rw [Option.map_none, Option.eq_none_iff_forall_ne_some]
      intro inner htold
      obtain ⟨start, -, hsame, -⟩ := taskArgument?_eq_some_iff.mp htold
      refine TypePath.getLast?_of_inner? hinner ?_
      have hlast := congrArg List.getLast? hsame
      rw [← List.append_assoc start, List.getLast?_concat,
        List.getLast?_append_of_ne_nil _ (by simp)] at hlast
      exact hlast

/-- What the text of a type is read as a task of. -/
theorem taskArgument?_compact (T : TypeTree) :
    taskArgument? (compact T.tokens) = T.inside?.map compact := by
  by_cases hnamed : ∃ alias? path name types rest?, T = .named alias? path ∧
      path.opened? (compact (aliasTokens alias?)) = some (name, types, rest?) ∧ name ∈ taskTexts
  · obtain ⟨alias?, path, name, types, rest?, rfl, hopened, hname⟩ := hnamed
    rw [taskArgument?_of_mem_taskTexts hopened hname, TypeTree.inside?, hopened]
    dsimp only
    rw [if_pos (List.contains_iff_mem.mpr hname)]
  · have hnone : taskArgument? (compact T.tokens) = none := by
      rw [Option.eq_none_iff_forall_ne_some]
      exact fun inner htold => hnamed (exists_of_taskArgument? htold)
    rw [hnone]
    cases T with
    | named alias? path =>
        rw [TypeTree.inside?]
        cases hopened : path.opened? (compact (aliasTokens alias?)) with
        | none => rfl
        | some opened =>
            obtain ⟨name, types, rest?⟩ := opened
            have hname : name ∉ taskTexts := fun hmem =>
              hnamed ⟨alias?, path, name, types, rest?, rfl, hopened, hmem⟩
            dsimp only
            rw [if_neg (by rwa [List.contains_iff_mem])]
            rfl
    | array element rank => rfl
    | nullable element => rfl
    | tuple elements => rfl

/-! ### Plain names -/

theorem unqualified_nameText {alias? : Option TypeWord} {path : TypePath}
    (h : (TypeTree.named alias? path).IsPlain) :
    unqualified (compact (aliasTokens alias?) ++ path.nameText) = path.lastName.name.toList := by
  obtain ⟨halias, hpath⟩ := h
  have hcolon := path.colon_not_mem_nameText
  have hreplace : Text.replace "global::".toList []
      (compact (aliasTokens alias?) ++ path.nameText) = path.nameText := by
    cases alias? with
    | none => exact Text.replace_of_not_mem (c := ':') (by decide) hcolon
    | some w =>
        obtain ⟨hmarked, hname⟩ := halias w rfl
        have hglobal : compact (aliasTokens (some w)) = "global::".toList := by
          simp [aliasTokens, TypeToken.chars, TypeWord.chars, hmarked, hname, TypeSign.chars]
        rw [hglobal]
        exact Text.replace_append (c := ':') (by decide) hcolon
  rw [unqualified, hreplace, TypePath.lastField_nameText hpath]

theorem judged_of_isPlain {alias? : Option TypeWord} {path : TypePath}
    (h : (TypeTree.named alias? path).IsPlain) :
    (TypeTree.named alias? path).judged =
      ResultKind.ofTypeName? path.lastName.name path.hasArguments := by
  have hname := unqualified_nameText h
  have hopened : (TypeTree.named alias? path).opened? [] =
      if path.hasArguments then some (compact (aliasTokens alias?) ++ path.nameText) else none :=
    TypePath.opened?_of_isPlain h.2
  rw [TypeTree.judged, hopened]
  cases harguments : path.hasArguments with
  | true =>
      simp only [if_true]
      rw [← ofTypeName?_true, hname, String.ofList_toList]
  | false =>
      have hcompact : compact (TypeTree.named alias? path).tokens =
          compact (aliasTokens alias?) ++ path.nameText := by
        rw [TypeTree.tokens, compact_append, TypePath.compact_of_isPlain h.2 harguments]
      simp only [Bool.false_eq_true, if_false]
      rw [TypeTree.bareKind?, hcompact, hname, String.ofList_toList]

/-- An array or a nullable is judged as its element if that has type arguments. -/
theorem judged_of_element? {T E : TypeTree} (h : T.element? = some E) :
    T.judged = if (E.opened? []).isSome then E.judged else none := by
  have hopened : T.opened? [] = E.opened? [] ∧ T.bareKind? = none := by
    cases T with
    | named alias? path => cases h
    | array element rank => cases h; exact ⟨rfl, rfl⟩
    | nullable element => cases h; exact ⟨rfl, rfl⟩
    | tuple elements => cases h
  rw [TypeTree.judged, TypeTree.judged, hopened.1, hopened.2]
  cases E.opened? [] <;> rfl

theorem read_of_taskIsRead {T : TypeTree} (h : T.TaskIsRead) : T.read = T.result.judged := by
  rw [TypeTree.read, h, TypeTree.result]
  cases T.task? with
  | none => rfl
  | some A => exact textKind?_compact A

namespace ResultShape

/-- The kind of an action is read off its return type however that is spaced. It is the kind that is
to stand for the type if that is, in a task or not, a plain name. For an array or a nullable it is
that, none, if and only if not both the element has type arguments and it would get a kind by
itself. -/
theorem map_kind_ofType? {T : TypeTree} {t : TypeText} (ht : t.tokens = T.tokens) :
    (ofType? (some t.text)).map (·.kind) = T.read ∧
      (T.TaskIsRead →
        (T.result.IsPlain → T.read = T.kind?) ∧
          ∀ E, T.result.element? = some E →
            (T.read = T.kind? ↔ ¬((E.opened? []).isSome ∧ E.judged.isSome))) := by
  refine ⟨?_, fun htask => ⟨fun hplain => ?_, fun E hE => ?_⟩⟩
  · rw [ofType?, t.squeeze_text, ht, taskArgument?_compact, TypeTree.read]
    cases T.inside? with
    | none => exact (map_kind_ofBare? false _).trans (textKind?_compact T)
    | some ts => exact map_kind_ofBare? true _
  · rw [read_of_taskIsRead htask, TypeTree.kind?]
    cases hresult : T.result with
    | named alias? path =>
        rw [hresult] at hplain
        exact judged_of_isPlain hplain
    | array element rank => rw [hresult] at hplain; cases hplain
    | nullable element => rw [hresult] at hplain; cases hplain
    | tuple elements => rw [hresult] at hplain; cases hplain
  · have hkind : T.kind? = none := by
      rw [TypeTree.kind?]
      cases hresult : T.result <;> first | rfl | (rw [hresult] at hE; cases hE)
    rw [hkind, read_of_taskIsRead htask, judged_of_element? hE]
    cases (E.opened? []).isSome <;> simp

def resultOfNumber : TypeTree :=
  .named none (.last resultWord (.some (.one (.named none (.last numberWord .none)))))

/-- A task of it gets the kind that stands for it. -/
theorem map_kind_ofType?_task :
    let T := TypeTree.named none (.last taskWord (.some (.one resultOfNumber)))
    taskOfNumber.tokens = T.tokens ∧
      (ofType? (some taskOfNumber.text)).map (·.kind) = T.kind? ∧ T.kind? = some .generic := by
  intro T
  have htokens : taskOfNumber.tokens = T.tokens := by decide
  have hplain : T.result.IsPlain := ⟨nofun, rfl, by decide⟩
  obtain ⟨hread, hright⟩ := map_kind_ofType? htokens
  exact ⟨htokens, hread.trans ((hright (by decide)).1 hplain), by decide⟩

/-- An array of it, which is to have no kind, gets the same. -/
theorem map_kind_ofType?_array :
    (resultOfNumber.array 0).kind? = none ∧
      ofType? (some "ActionResult<int>[]") = some ⟨.generic, "ActionResult<int>[]", false⟩ ∧
      String.ofList (compact (resultOfNumber.array 0).tokens) = "ActionResult<int>[]" := by
  decide

end ResultShape

end RouteLinks
