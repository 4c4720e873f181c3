import RouteLinks.Proofs.Emit.Pragma
import RouteLinks.Proofs.Links.Describing
import RouteLinks.Proofs.Symbols.Sample
import RouteLinks.Proofs.Text.Ascii
import RouteLinks.Proofs.Text.Fields
/-!
# Route names from attributes

An attribute gives an action its route name as a regular literal, and the generated half has the
route name as a regular literal again. The attribute may be written with the ending, with a
namespace, and with blanks around the literal. But the reader of attributes knows no escapes: it
takes the characters up to the next quote, so a route name comes through exactly if it has no
character that the literal escapes. It knows no marks of verbatim identifiers either: in a namespace
that has one, the name of the attribute ends there.
-/

namespace RouteLinks

/-! ### Text up to a character -/

theorem Text.takeWhile_append_cons {p : Char → Bool} {c : Char} (hc : p c = false)
    (xs ys : List Char) : (xs ++ c :: ys).takeWhile p = xs.takeWhile p := by
  rw [List.takeWhile_append, List.takeWhile_cons_of_neg (by simp [hc]), List.append_nil]
  split
  · next hall => exact (List.takeWhile_prefix p).eq_of_length hall |>.symm
  · rfl

theorem Text.takeWhile_congr {p q : Char → Bool} {xs : List Char} (h : ∀ c ∈ xs, p c = q c) :
    xs.takeWhile p = xs.takeWhile q := by
  induction xs with
  | nil => rfl
  | cons c rest ih =>
      obtain ⟨hc, hrest⟩ := List.forall_mem_cons.mp h
      rw [List.takeWhile_cons, List.takeWhile_cons, hc, ih hrest]

/-! ### Replacing -/

theorem Text.replace_go_of_not_mem {c : Char} {old new xs : List Char} (hold : c ∈ old)
    (hxs : c ∉ xs) : replace.go old new 0 xs = xs := by
  induction xs with
  | nil => rfl
  | cons first rest ih =>
      have hprefix : old.isPrefixOf (first :: rest) = false := by
        rw [Bool.eq_false_iff]
        exact fun hprefix => hxs ((List.isPrefixOf_iff_prefix.mp hprefix).subset hold)
      rw [replace.go, hprefix, ih (fun hmem => hxs (List.mem_cons_of_mem _ hmem))]
      rfl

theorem Text.replace_of_not_mem {c : Char} {old new xs : List Char} (hold : c ∈ old)
    (hxs : c ∉ xs) : replace old new xs = xs := by
  rw [replace, if_neg (by simpa using List.ne_nil_of_mem hold), replace_go_of_not_mem hold hxs]

theorem Text.replace_go_append (old new xs ys : List Char) :
    replace.go old new xs.length (xs ++ ys) = replace.go old new 0 ys := by
  induction xs with
  | nil => rfl
  | cons c rest ih =>
      rw [List.length_cons, List.cons_append, replace.go]
      exact ih

theorem Text.replace_append {c first : Char} {old xs : List Char} (hold : c ∈ first :: old)
    (hxs : c ∉ xs) : replace (first :: old) [] (first :: old ++ xs) = xs := by
  have hprefix : (first :: old).isPrefixOf (first :: old ++ xs) = true :=
    List.isPrefixOf_iff_prefix.mpr (List.prefix_append _ _)
  rw [replace, if_neg (by simp), List.cons_append, replace.go, ← List.cons_append, if_pos hprefix]
  exact (replace_go_append (first :: old) [] old xs).trans (replace_go_of_not_mem hold hxs)

namespace Quoted

variable {cs : List Char}

theorem length_le_length_escape (cs : List Char) : cs.length ≤ (escape cs).length := by
  induction cs with
  | nil => exact Nat.le_refl _
  | cons c rest ih =>
      rw [escape]
      split <;> simp only [List.length_cons] <;> omega

/-- A text is its own escaped form if it has nothing to escape. -/
theorem escape_eq_self_iff : escape cs = cs ↔ '"' ∉ cs ∧ '\\' ∉ cs := by
  induction cs with
  | nil => simp [escape]
  | cons c rest ih =>
      rw [escape, List.mem_cons, List.mem_cons]
      split
      · next hspecial =>
        refine iff_of_false (fun hsame => ?_) fun hplain => ?_
        · have hlength := congrArg List.length hsame
          have hle := length_le_length_escape rest
          simp only [List.length_cons] at hlength
          omega
        · rcases Bool.or_eq_true_iff.mp hspecial with hslash | hquote
          · exact hplain.2 (.inl (beq_iff_eq.mp hslash).symm)
          · exact hplain.1 (.inl (beq_iff_eq.mp hquote).symm)
      · next hplain =>
        rw [List.cons.injEq, and_iff_right rfl, ih]
        simp only [Bool.or_eq_true, beq_iff_eq, not_or] at hplain
        have hslash : '\\' ≠ c := fun hsame => hplain.1 hsame.symm
        have hquote : '"' ≠ c := fun hsame => hplain.2 hsame.symm
        simp [hslash, hquote]

theorem mem_of_mem_escape {c : Char} (h : c ∈ escape cs) : c ∈ cs ∨ c = '\\' := by
  induction cs with
  | nil => cases h
  | cons first rest ih =>
      rw [List.mem_cons]
      rw [escape] at h
      split at h <;> simp only [List.mem_cons] at h <;> tauto

/-- What is read of a literal up to the first quote in it. -/
def untilQuote (cs : List Char) : List Char := (escape cs).takeWhile (· != '"')

/-- Up to the first quote the literal has the text itself only if there is nothing to escape. -/
theorem untilQuote_eq_self_iff : untilQuote cs = cs ↔ '"' ∉ cs ∧ '\\' ∉ cs := by
  have hwhole (hquote : '"' ∉ cs) : untilQuote cs = escape cs := by
    rw [untilQuote, List.takeWhile_eq_self_iff]
    intro c hc
    rw [bne_iff_ne]
    rintro rfl
    exact (mem_of_mem_escape hc).elim hquote (by decide)
  constructor
  · intro hsame
    have hquote : '"' ∉ cs := by
      rw [← hsame]
      exact fun hmem => absurd (List.mem_takeWhile_imp hmem) (by decide)
    rw [hwhole hquote] at hsame
    exact escape_eq_self_iff.mp hsame
  · intro hplain
    rw [hwhole hplain.1]
    exact escape_eq_self_iff.mpr hplain

theorem untilQuote_ne_nil (hcs : cs ≠ []) : untilQuote cs ≠ [] := by
  cases cs with
  | nil => exact absurd rfl hcs
  | cons c rest =>
      rw [untilQuote, escape]
      split
      · exact List.cons_ne_nil _ _
      · next hplain =>
        simp only [Bool.or_eq_true, beq_iff_eq, not_or] at hplain
        rw [List.takeWhile_cons_of_pos (by simpa using hplain.2)]
        exact List.cons_ne_nil _ _

theorem regular_inj {s t : String} : regular s = regular t ↔ s = t := by
  refine ⟨fun hsame => ?_, congrArg regular⟩
  have hvalues := congrArg Literal.value hsame
  rwa [Literal.value_regular, Literal.value_regular, Except.ok.injEq, RouteValue.text.injEq]
    at hvalues

end Quoted

/-! ### Qualified names -/

namespace Attribute

def qualified (qualifiers : List String) (name : String) : String :=
  qualifiers.foldr (fun part rest => part ++ "." ++ rest) name

/-- What can be part of a qualified name, as far as it matters here: there is no punctuation in it,
and no blank. All identifiers are so, whatever letters and marks they have. -/
def IsPart (part : String) : Prop :=
  ∀ c ∈ part.toList, c ≠ '.' ∧ c ≠ ':' ∧ c ≠ '(' ∧ Text.isBlank c = false

instance (part : String) : Decidable (IsPart part) :=
  decidable_of_iff (part.toList.all fun c =>
      decide (c ≠ '.' ∧ c ≠ ':' ∧ c ≠ '(' ∧ Text.isBlank c = false))
    (by simp only [IsPart, List.all_eq_true, decide_eq_true_eq])

/-- The part of a qualified name that is taken for the name: the name itself, unless there is
something in a qualifier that is not of a word. Then nothing from there on is read. -/
def lastPart (name : String) : List String → List Char
  | [] => name.toList
  | part :: rest =>
    if part.toList.all Unicode.isWord then lastPart name rest
    else part.toList.takeWhile Unicode.isWord

variable {name : String} {qualifiers : List String} {xs ys : List Char}

theorem toList_qualified_cons (part : String) (rest : List String) (name : String) :
    (qualified (part :: rest) name).toList =
      part.toList ++ '.' :: (qualified rest name).toList := by
  simp [qualified]

theorem isPart_of_all_isWord (h : name.toList.all Unicode.isWord = true) : IsPart name := by
  intro c hc
  have hword := List.all_eq_true.mp h c hc
  refine ⟨?_, ?_, ?_, ?_⟩
  iterate 3
    rintro rfl
    exact absurd hword (by decide)
  rw [Bool.eq_false_iff]
  intro hblank
  exact Bool.false_ne_true ((Unicode.isWord_of_isBlank hblank).symm.trans hword)

theorem mem_qualified (hparts : ∀ part ∈ qualifiers, IsPart part) (hname : IsPart name) {c : Char}
    (h : c ∈ (qualified qualifiers name).toList) :
    c ≠ ':' ∧ c ≠ '(' ∧ Text.isBlank c = false := by
  induction qualifiers with
  | nil => exact (hname c h).2
  | cons part rest ih =>
      obtain ⟨hpart, hrest⟩ := List.forall_mem_cons.mp hparts
      rw [toList_qualified_cons, List.mem_append, List.mem_cons] at h
      rcases h with hc | rfl | hc
      · exact (hpart c hc).2
      · decide
      · exact ih hrest hc

theorem isNameChar_eq_isWord {part : String} (h : IsPart part) {c : Char} (hc : c ∈ part.toList) :
    isNameChar c = Unicode.isWord c := by
  obtain ⟨hdot, hcolon, _, _⟩ := h c hc
  rw [isNameChar, beq_eq_false_iff_ne.mpr hdot, beq_eq_false_iff_ne.mpr hcolon, Bool.or_false,
    Bool.or_false]

theorem lastField_takeWhile_qualified (hname : name.toList.all Unicode.isWord = true)
    (hparts : ∀ part ∈ qualifiers, IsPart part) :
    Text.lastField '.' ((qualified qualifiers name).toList.takeWhile isNameChar) =
      lastPart name qualifiers := by
  induction qualifiers with
  | nil =>
      have hpart := isPart_of_all_isWord hname
      have hwhole : name.toList.takeWhile isNameChar = name.toList := by
        rw [List.takeWhile_eq_self_iff]
        exact fun c hc => (isNameChar_eq_isWord hpart hc).trans (List.all_eq_true.mp hname c hc)
      exact (congrArg _ hwhole).trans
        (Text.lastField_of_not_mem fun hdot => (hpart '.' hdot).1 rfl)
  | cons part rest ih =>
      obtain ⟨hpart, hrest⟩ := List.forall_mem_cons.mp hparts
      have hread : part.toList.takeWhile isNameChar = part.toList.takeWhile Unicode.isWord :=
        Text.takeWhile_congr fun c hc => isNameChar_eq_isWord hpart hc
      rw [toList_qualified_cons, List.takeWhile_append, hread, lastPart]
      by_cases hword : part.toList.all Unicode.isWord = true
      · have hwhole : part.toList.takeWhile Unicode.isWord = part.toList :=
          List.takeWhile_eq_self_iff.mpr (List.all_eq_true.mp hword)
        rw [if_pos (congrArg List.length hwhole), if_pos hword,
          List.takeWhile_cons_of_pos (by decide), Text.lastField_append_cons]
        exact ih hrest
      · -- the qualifier is cut, and there is no point in what is left
        have hcut : (part.toList.takeWhile Unicode.isWord).length ≠ part.toList.length := by
          intro hlength
          have hwhole := (List.takeWhile_prefix Unicode.isWord).eq_of_length hlength
          exact hword (List.all_eq_true.mpr (List.takeWhile_eq_self_iff.mp hwhole))
        rw [if_neg hcut, if_neg hword]
        exact Text.lastField_of_not_mem fun hdot =>
          (hpart '.' ((List.takeWhile_prefix _).subset hdot)).1 rfl

/-! ### Names -/

theorem dropEnding_append (front ending : String) :
    dropEnding (front ++ ending) ending = front := by
  have hends : endsWith (front ++ ending) ending = true := by
    rw [endsWith, String.toList_append]
    exact List.isSuffixOf_iff_suffix.mpr (List.suffix_append _ _)
  rw [dropEnding, if_pos hends, String.toList_append, List.length_append, Nat.add_sub_cancel,
    List.take_left', String.ofList_toList]
  rfl

theorem shortened_eq_iff {s : String} :
    (if s == "Attribute" then s else dropEnding s "Attribute") = "ActionName" ↔
      s ∈ ["ActionName", "ActionNameAttribute"] := by
  constructor
  · intro h
    split at h
    · exact h ▸ List.mem_cons_self
    · by_cases hends : endsWith s "Attribute" = true
      · obtain ⟨front, hfront⟩ := List.isSuffixOf_iff_suffix.mp hends
        have hs : s = String.ofList front ++ "Attribute" := by
          rw [← String.toList_inj, String.toList_append, String.toList_ofList, hfront]
        rw [hs, dropEnding_append] at h
        rw [hs, h]
        decide
      · rw [dropEnding, if_neg hends] at h
        exact h ▸ List.mem_cons_self
  · intro h
    rcases List.mem_cons.mp h with rfl | h
    · decide
    · obtain rfl := List.mem_singleton.mp h
      decide

/-- What comes before the parenthesis is taken for a name that is qualified, without `global::`. -/
theorem name_eq (hname : name.toList.all Unicode.isWord = true)
    (hparts : ∀ part ∈ qualifiers, IsPart part) {isGlobal : Bool} {a : Attribute}
    (ha : a.toList = '[' :: ((if isGlobal then "global::".toList else []) ++
      (qualified qualifiers name).toList ++ '(' :: xs)) :
    a.name = (let short := String.ofList (lastPart name qualifiers)
      if short == "Attribute" then short else dropEnding short "Attribute") := by
  have hchars {c : Char} (hc : c ∈ (qualified qualifiers name).toList) :=
    mem_qualified hparts (isPart_of_all_isWord hname) hc
  have hcolon : ':' ∉ (qualified qualifiers name).toList.takeWhile isNameChar :=
    fun hmem => (hchars ((List.takeWhile_prefix _).subset hmem)).1 rfl
  have hhead : ∀ c ∈ ((if isGlobal then "global::".toList else []) ++
      (qualified qualifiers name).toList ++ '(' :: xs).head?, Text.isBlank c = false := by
    intro c hc
    cases isGlobal with
    | true =>
        obtain rfl : 'g' = c := Option.some.inj hc
        decide
    | false =>
        cases hpath : (qualified qualifiers name).toList with
        | nil =>
            rw [hpath] at hc
            obtain rfl : '(' = c := Option.some.inj hc
            decide
        | cons first rest =>
            rw [hpath] at hc
            obtain rfl : first = c := Option.some.inj hc
            exact (hchars (hpath ▸ List.mem_cons_self)).2.2
  have htrim := Text.trimStart_append (List.forall_mem_nil (Text.isBlank · = true)) hhead
  rw [List.nil_append] at htrim
  have hwritten : writtenName a.toList = (if isGlobal then "global::".toList else []) ++
      (qualified qualifiers name).toList.takeWhile isNameChar := by
    rw [ha, writtenName, htrim, Text.takeWhile_append_cons (by decide),
      List.takeWhile_append_of_pos]
    cases isGlobal with
    | true => exact forall_mem_of_all (by decide)
    | false => exact List.forall_mem_nil _
  have hplain : Text.replace "global::".toList [] (writtenName a.toList) =
      (qualified qualifiers name).toList.takeWhile isNameChar := by
    rw [hwritten]
    cases isGlobal with
    | true => exact Text.replace_append (c := ':') (by decide) hcolon
    | false => exact Text.replace_of_not_mem (c := ':') (by decide) hcolon
  rw [Attribute.name, hplain, lastField_takeWhile_qualified hname hparts]

/-! ### Arguments -/

theorem findString?_append (h : '(' ∉ xs) :
    findString? (xs ++ '(' :: ys) = (stringAfterParen? ys).or (findString? ys) := by
  induction xs with
  | nil =>
      rw [List.nil_append, findString?, if_pos (by rfl)]
      cases stringAfterParen? ys <;> rfl
  | cons c rest ih =>
      rw [List.mem_cons, not_or] at h
      rw [List.cons_append, findString?, if_neg (by simpa using Ne.symm h.1), ih h.2]

/-- Of a literal as much is read as there is up to the first quote. -/
theorem stringAfterParen?_literal {before : List Char}
    (hbefore : ∀ c ∈ before, Text.isBlank c = true) (cs more : List Char) :
    stringAfterParen? (before ++ '"' :: (Quoted.escape cs ++ '"' :: more)) =
      some (Quoted.untilQuote cs) := by
  have hhead : ∀ c ∈ ('"' :: (Quoted.escape cs ++ '"' :: more)).head?, Text.isBlank c = false := by
    rintro c hc
    obtain rfl := Option.some.inj hc
    decide
  have hclosed : (Quoted.escape cs ++ '"' :: more).contains '"' = true := by simp
  rw [stringAfterParen?, Text.trimStart_append hbefore hhead]
  show (if (Quoted.escape cs ++ '"' :: more).contains '"' then _ else none) = _
  rw [if_pos hclosed, Text.takeWhile_append_cons (by rfl), Quoted.untilQuote]

end Attribute

/-! ### Route names -/

/-- How an attribute for a route name may be written. -/
structure RouteNameAttribute where
  /-- Whether the name begins with `global::`. -/
  isGlobal : Bool
  qualifiers : List String
  /-- Whether the name has its ending. -/
  isFull : Bool
  /-- What stands before and after the literal. -/
  before : String
  after : String
  isPart : ∀ part ∈ qualifiers, Attribute.IsPart part
  isBlank : ∀ c ∈ before.toList ++ after.toList, Text.isBlank c = true

namespace RouteNameAttribute

def name (x : RouteNameAttribute) : String :=
  if x.isFull then "ActionNameAttribute" else "ActionName"

def text (x : RouteNameAttribute) (s : String) : Attribute :=
  "[" ++ (if x.isGlobal then "global::" else "") ++ Attribute.qualified x.qualifiers x.name ++
    "(" ++ x.before ++ Quoted.regular s ++ x.after ++ ")]"

/-- Whether the attribute is taken for one that gives a route name. So it is where all qualifiers
are words. -/
def IsRead (x : RouteNameAttribute) : Prop :=
  String.ofList (Attribute.lastPart x.name x.qualifiers) ∈ ["ActionName", "ActionNameAttribute"]

instance (x : RouteNameAttribute) : Decidable x.IsRead := inferInstanceAs (Decidable (_ ∈ _))

variable {x : RouteNameAttribute} {s : String}

theorem toList_text (x : RouteNameAttribute) (s : String) :
    (x.text s).toList = '[' :: ((if x.isGlobal then "global::".toList else []) ++
      (Attribute.qualified x.qualifiers x.name).toList ++ '(' :: (x.before.toList ++
        '"' :: (Quoted.escape s.toList ++ '"' :: (x.after.toList ++ [')', ']'])))) := by
  cases hglobal : x.isGlobal <;> simp [text, hglobal, Quoted.toList_regular]

theorem all_isWord_name (x : RouteNameAttribute) : x.name.toList.all Unicode.isWord = true := by
  rw [name]
  split <;> decide

theorem name_text_eq_iff : (x.text s).name = "ActionName" ↔ x.IsRead := by
  rw [Attribute.name_eq x.all_isWord_name x.isPart (x.toList_text s), IsRead]
  exact Attribute.shortened_eq_iff

theorem stringArgument?_text :
    (x.text s).stringArgument? = some (String.ofList (Quoted.untilQuote s.toList)) := by
  have hopen : '(' ∉ '[' :: ((if x.isGlobal then "global::".toList else []) ++
      (Attribute.qualified x.qualifiers x.name).toList) := by
    rw [List.mem_cons, List.mem_append, not_or, not_or]
    refine ⟨by decide, by split <;> decide, fun hmem => ?_⟩
    have hpart := Attribute.isPart_of_all_isWord x.all_isWord_name
    exact (Attribute.mem_qualified x.isPart hpart hmem).2.1 rfl
  rw [Attribute.stringArgument?, toList_text, ← List.cons_append,
    Attribute.findString?_append hopen,
    Attribute.stringAfterParen?_literal fun c hc => x.isBlank c (List.mem_append_left _ hc)]
  rfl

theorem routeNameOf_of_isRead {m : Method} (hs : s ≠ "") (hread : x.IsRead)
    (hmem : x.text s ∈ m.attributes)
    (honly : ∀ other ∈ m.attributes, other.name = "ActionName" → other = x.text s) :
    Controller.routeNameOf m = String.ofList (Quoted.untilQuote s.toList) := by
  have hname : (x.text s).name = "ActionName" := name_text_eq_iff.mpr hread
  have hfound : m.findAttribute? "ActionName" = some (x.text s) := by
    cases hfind : m.findAttribute? "ActionName" with
    | none =>
        rw [Method.findAttribute?, List.find?_eq_none] at hfind
        have hother := hfind _ hmem
        rw [hname, BEq.rfl] at hother
        exact absurd rfl hother
    | some other =>
        have hother := List.find?_some hfind
        rw [beq_iff_eq] at hother
        rw [honly other (List.mem_of_find?_eq_some hfind) hother]
  have hne : (String.ofList (Quoted.untilQuote s.toList)).isEmpty = false := by
    rw [Bool.eq_false_iff, ne_eq, String.isEmpty_iff, ← String.toList_eq_nil_iff,
      String.toList_ofList]
    exact Quoted.untilQuote_ne_nil fun hnil => hs (String.toList_eq_nil_iff.mp hnil)
  rw [Controller.routeNameOf, hfound, Option.bind_some, stringArgument?_text]
  dsimp only
  rw [hne, if_neg Bool.false_ne_true]

theorem routeNameOf_of_not_isRead {m : Method} (hread : ¬x.IsRead)
    (honly : ∀ other ∈ m.attributes, other.name = "ActionName" → other = x.text s) :
    Controller.routeNameOf m = m.name := by
  have hfound : m.findAttribute? "ActionName" = none := by
    rw [Method.findAttribute?, List.find?_eq_none]
    intro other hother hname
    rw [beq_iff_eq] at hname
    rw [honly other hother hname, name_text_eq_iff] at hname
    exact hread hname
  rw [Controller.routeNameOf, hfound]
  rfl

/-- The route name of an action comes through an attribute if this is read and there is nothing to
escape; if it is not read, the action has the name of its method. The constant of the first action
of a name has the literal of the attribute exactly if the route name has come through. -/
theorem routeName_eq_iff {m : Model} {c : Controller} {a : Action} (x : RouteNameAttribute)
    (hc : c ∈ Controller.all m) (ha : a ∈ c.actions) (hs : s ≠ "")
    (hmem : x.text s ∈ a.method.attributes)
    (honly : ∀ other ∈ a.method.attributes, other.name = "ActionName" → other = x.text s) :
    (a.routeName = s ↔
        if x.IsRead then '"' ∉ s.toList ∧ '\\' ∉ s.toList else a.name = s) ∧
      (c.actions.find? (·.name == a.name) = some a →
        (c.actionNameConstants.find? (·.1 == a.name) = some (a.name, Quoted.regular s) ↔
          a.routeName = s)) := by
  have hname : a.routeName = Controller.routeNameOf a.method := by
    obtain ⟨symbol, _, rfl⟩ := Controller.mem_all.mp hc
    exact (Controller.mem_assign ha).2.2.1
  constructor
  · rw [hname]
    by_cases hread : x.IsRead
    · rw [if_pos hread, routeNameOf_of_isRead hs hread hmem honly, ← String.toList_inj,
        String.toList_ofList]
      exact Quoted.untilQuote_eq_self_iff
    · rw [if_neg hread, routeNameOf_of_not_isRead hread honly]
      rfl
  · intro hfirst
    rw [c.find?_actionNameConstants (· == a.name), hfirst, Option.map_some, Option.some.injEq,
      Prod.mk.injEq, and_iff_right rfl]
    exact Quoted.regular_inj

def spaced : RouteNameAttribute where
  isGlobal := true
  qualifiers := ["Web", "Mvc"]
  isFull := true
  before := " "
  after := " "
  isPart := by decide
  isBlank := forall_mem_of_all (by decide)

def bare : RouteNameAttribute where
  isGlobal := false
  qualifiers := []
  isFull := false
  before := ""
  after := ""
  isPart := by decide
  isBlank := forall_mem_of_all (by decide)

def namingFile : SourceFile :=
  .home [("Item", { MethodHead.action with attributes := [spaced.text "by-id"] }),
    ("Path", { MethodHead.action with attributes := [bare.text "a\\b"] })]

theorem routeName_eq_spaced :
    ∃ c ∈ Controller.all (Model.ofFiles [namingFile]), ∃ a ∈ c.actions,
      a.method.attributes = [spaced.text "by-id"] ∧
      (a.routeName = "by-id" ↔
        if spaced.IsRead then '"' ∉ "by-id".toList ∧ '\\' ∉ "by-id".toList else a.name = "by-id") ∧
      (c.actions.find? (·.name == a.name) = some a →
        (c.actionNameConstants.find? (·.1 == a.name) = some (a.name, Quoted.regular "by-id") ↔
          a.routeName = "by-id")) := by
  have hfound : ∃ c ∈ Controller.all (Model.ofFiles [namingFile]), ∃ a ∈ c.actions,
      a.method.attributes = [spaced.text "by-id"] := by
    decide
  obtain ⟨c, hc, a, ha, hattributes⟩ := hfound
  refine ⟨c, hc, a, ha, hattributes, routeName_eq_iff spaced hc ha (by decide) ?_ ?_⟩
  · rw [hattributes]
    exact List.mem_cons_self
  · rw [hattributes]
    exact fun other hother _ => List.mem_singleton.mp hother

/-- A backslash in a route name comes out twice. -/
theorem routeName_ne_backslash :
    ∃ c ∈ Controller.all (Model.ofFiles [namingFile]), ∃ a ∈ c.actions,
      a.method.attributes = ["[ActionName(" ++ Quoted.regular "a\\b" ++ ")]"] ∧
      a.routeName = "a\\\\b" ∧ a.routeName ≠ "a\\b" ∧
      c.actionNameConstants.find? (·.1 == a.name) =
        some (a.name, Quoted.regular "a\\\\b") := by
  decide

end RouteNameAttribute

end RouteLinks
