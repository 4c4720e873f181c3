import RouteLinks.Proofs.Source.TypeTokens
/-!
# Trees of types

A type is a qualified name, each part of which may have type arguments, or an array, a nullable or a
tuple of types. Its tokens are written one after the other; the first bracket of type arguments
among them belongs to the first part of a name that has arguments.
-/

namespace RouteLinks.Source

mutual

/-- A type. A name may begin with an alias of a namespace; the rank of an array is the number of its
commas. -/
inductive TypeTree where
  | named (alias? : Option TypeWord) (path : TypePath)
  | array (element : TypeTree) (rank : Nat)
  | nullable (element : TypeTree)
  | tuple (elements : TupleElements)

/-- The parts of a name, with their type arguments. -/
inductive TypePath where
  | last (name : TypeWord) (arguments : TypeArguments)
  | dotted (name : TypeWord) (arguments : TypeArguments) (rest : TypePath)

inductive TypeArguments where
  | none
  | some (types : TypeList)

inductive TypeList where
  | one (type : TypeTree)
  | more (type : TypeTree) (rest : TypeList)

/-- The elements of a tuple, which may have names. -/
inductive TupleElements where
  | one (type : TypeTree) (name? : Option TypeWord)
  | more (type : TypeTree) (name? : Option TypeWord) (rest : TupleElements)

end

/-- The tokens of an alias, with the sign behind it. -/
def aliasTokens : Option TypeWord → List TypeToken
  | none => []
  | some w => [.word w, .sign .colons]

def elementName : Option TypeWord → List TypeToken
  | none => []
  | some w => [.word w]

mutual

def TypeTree.tokens : TypeTree → List TypeToken
  | .named alias? path => aliasTokens alias? ++ path.tokens
  | .array element rank =>
    element.tokens ++ (.sign .openSquare :: List.replicate rank (.sign .comma)) ++
      [.sign .closeSquare]
  | .nullable element => element.tokens ++ [.sign .question]
  | .tuple elements => .sign .openRound :: (elements.tokens ++ [.sign .closeRound])

def TypePath.tokens : TypePath → List TypeToken
  | .last name arguments => .word name :: arguments.tokens
  | .dotted name arguments rest => .word name :: (arguments.tokens ++ .sign .point :: rest.tokens)

def TypeArguments.tokens : TypeArguments → List TypeToken
  | .none => []
  | .some types => .sign .less :: (types.tokens ++ [.sign .greater])

def TypeList.tokens : TypeList → List TypeToken
  | .one type => type.tokens
  | .more type rest => type.tokens ++ .sign .comma :: rest.tokens

def TupleElements.tokens : TupleElements → List TypeToken
  | .one type name? => type.tokens ++ elementName name?
  | .more type name? rest => type.tokens ++ elementName name? ++ .sign .comma :: rest.tokens

end

/-! ### The first type arguments -/

/-- The text of a name before its first type arguments, with these and what of the name is behind
them. -/
def TypePath.opened? (before : List Char) :
    TypePath → Option (List Char × TypeList × Option TypePath)
  | .last _ .none => none
  | .last name (.some types) => some (before ++ name.chars, types, none)
  | .dotted name .none rest => rest.opened? (before ++ name.chars ++ ['.'])
  | .dotted name (.some types) rest => some (before ++ name.chars, types, some rest)

mutual

/-- The text before the first type arguments of a type. Of a tuple only what its element has of it
is kept, behind a bracket. -/
def TypeTree.opened? (front : List Char) : TypeTree → Option (List Char)
  | .named alias? path =>
    (path.opened? (front ++ compact (aliasTokens alias?))).map fun (text, _, _) => text
  | .array element _ => element.opened? front
  | .nullable element => element.opened? front
  | .tuple elements => elements.opened?

def TupleElements.opened? : TupleElements → Option (List Char)
  | .one type _ => type.opened? ['(']
  | .more type _ rest => (type.opened? ['(']).or rest.opened?

end

theorem less_not_mem_word (w : TypeWord) : '<' ∉ w.chars := by
  intro h
  cases TypeToken.eq_sign_of_mem (t := .word w) (s := .less) rfl h

theorem less_not_mem_alias (alias? : Option TypeWord) : '<' ∉ compact (aliasTokens alias?) := by
  refine not_mem_compact (s := .less) rfl ?_
  cases alias? <;> simp [aliasTokens]

theorem less_not_mem_elementName (name? : Option TypeWord) : '<' ∉ compact (elementName name?) := by
  refine not_mem_compact (s := .less) rfl ?_
  cases name? <;> simp [elementName]

namespace TypePath

/-- The text of what is behind the type arguments of a part. -/
def behind : Option TypePath → List Char
  | none => []
  | some rest => '.' :: compact rest.tokens

theorem compact_of_opened? {before text : List Char} {types : TypeList} {rest? : Option TypePath} :
    {path : TypePath} → path.opened? before = some (text, types, rest?) →
      ∃ pre, compact path.tokens = pre ++ '<' :: (compact types.tokens ++ '>' :: behind rest?) ∧
        '<' ∉ pre ∧ text = before ++ pre
  | .last name (.some _), h => by
    obtain ⟨rfl, rfl, rfl⟩ := Option.some.inj h
    refine ⟨name.chars, ?_, less_not_mem_word name, rfl⟩
    simp [tokens, TypeArguments.tokens, TypeToken.chars, TypeSign.chars, behind]
  | .dotted name .none rest, h => by
    rw [opened?] at h
    obtain ⟨pre, hcompact, hless, rfl⟩ := compact_of_opened? h
    refine ⟨name.chars ++ '.' :: pre, ?_, ?_, by simp⟩
    · simp [tokens, TypeArguments.tokens, TypeToken.chars, TypeSign.chars, hcompact]
    · simp [less_not_mem_word, hless]
  | .dotted name (.some _) rest, h => by
    obtain ⟨rfl, rfl, rfl⟩ := Option.some.inj h
    refine ⟨name.chars, ?_, less_not_mem_word name, rfl⟩
    simp [tokens, TypeArguments.tokens, TypeToken.chars, TypeSign.chars, behind]

theorem less_not_mem_of_opened? {before : List Char} :
    {path : TypePath} → path.opened? before = none → '<' ∉ compact path.tokens
  | .last name .none, _ => by
    simp [tokens, TypeArguments.tokens, TypeToken.chars, less_not_mem_word]
  | .dotted name .none rest, h => by
    rw [opened?] at h
    have hrest := less_not_mem_of_opened? h
    simp [tokens, TypeArguments.tokens, TypeToken.chars, TypeSign.chars, less_not_mem_word, hrest]

/-- The tokens of a name before the bracket at its end, if it ends in one. -/
def closed? : TypePath → Option (List TypeToken)
  | .last _ .none => none
  | .last name (.some types) => some (.word name :: .sign .less :: types.tokens)
  | .dotted name arguments rest =>
    rest.closed?.map fun ts => .word name :: (arguments.tokens ++ .sign .point :: ts)

theorem tokens_of_closed? {ts : List TypeToken} :
    {path : TypePath} → path.closed? = some ts → path.tokens = ts ++ [.sign .greater]
  | .last _ (.some _), h => by
    obtain rfl := Option.some.inj h
    simp [tokens, TypeArguments.tokens]
  | .dotted _ _ _, h => by
    obtain ⟨ts, hrest, rfl⟩ := Option.map_eq_some_iff.mp h
    simp [tokens, tokens_of_closed? hrest]

theorem getLast?_of_closed? : {path : TypePath} → path.closed? = none →
    (compact path.tokens).getLast? ≠ some '>'
  | .last name .none, _ => by
    intro hlast
    have hmem : '>' ∈ name.chars := by
      simpa [tokens, TypeArguments.tokens, TypeToken.chars] using List.mem_of_getLast? hlast
    cases TypeToken.eq_sign_of_mem (t := .word name) (s := .greater) rfl hmem
  | .dotted name arguments rest, h => by
    have hrest := getLast?_of_closed? (Option.map_eq_none_iff.mp h)
    have hcompact : compact (TypePath.dotted name arguments rest).tokens =
        (name.chars ++ compact arguments.tokens ++ ['.']) ++ compact rest.tokens := by
      simp [tokens, TypeToken.chars, TypeSign.chars]
    rw [hcompact, List.getLast?_append]
    cases hlast : (compact rest.tokens).getLast? with
    | none => simp
    | some c => rwa [hlast] at hrest

end TypePath

theorem TypePath.tokens_ne_nil (path : TypePath) : path.tokens ≠ [] := by
  cases path <;> simp [tokens]

theorem TypeTree.compact_tokens_ne_nil (T : TypeTree) : compact T.tokens ≠ [] := by
  have hne : T.tokens ≠ [] := by cases T <;> simp [tokens, TypePath.tokens_ne_nil]
  obtain ⟨t, ts, htokens⟩ := List.exists_cons_of_ne_nil hne
  simp [htokens, t.chars_ne_nil]

theorem TypeList.compact_tokens_ne_nil (types : TypeList) : compact types.tokens ≠ [] := by
  cases types <;> simp [tokens, TypeTree.compact_tokens_ne_nil]

/-- The tokens between the bracket before some type arguments and one at the end of the name. -/
def TypePath.inner? (types : TypeList) : Option TypePath → Option (List TypeToken)
  | none => some types.tokens
  | some rest => rest.closed?.map fun ts => types.tokens ++ .sign .greater :: .sign .point :: ts

theorem TypePath.compact_of_inner? {types : TypeList} {rest? : Option TypePath}
    {ts : List TypeToken} (h : inner? types rest? = some ts) :
    compact types.tokens ++ '>' :: behind rest? = compact ts ++ ['>'] ∧ compact ts ≠ [] := by
  cases rest? with
  | none =>
      obtain rfl := Option.some.inj h
      exact ⟨rfl, types.compact_tokens_ne_nil⟩
  | some rest =>
      obtain ⟨ts, hclosed, rfl⟩ := Option.map_eq_some_iff.mp h
      rw [behind, tokens_of_closed? hclosed]
      simp [TypeToken.chars, TypeSign.chars]

theorem TypePath.getLast?_of_inner? {types : TypeList} {rest? : Option TypePath}
    (h : inner? types rest? = none) :
    (compact types.tokens ++ '>' :: behind rest?).getLast? ≠ some '>' := by
  cases rest? with
  | none => cases h
  | some rest =>
      have hlast := getLast?_of_closed? (Option.map_eq_none_iff.mp h)
      have hsplit : compact types.tokens ++ '>' :: behind (some rest) =
          (compact types.tokens ++ ['>', '.']) ++ compact rest.tokens := by simp [behind]
      rw [hsplit, List.getLast?_append]
      cases hrest : (compact rest.tokens).getLast? with
      | none => simp
      | some c => rwa [hrest] at hlast

/-! ### Plain names -/

/-- A name that is written without a mark and without escapes. -/
def TypeWord.IsPlain (w : TypeWord) : Prop := w.marked = false ∧ '\\' ∉ w.name.toList

theorem TypeWord.IsPlain.chars_eq {w : TypeWord} (h : w.IsPlain) : w.chars = w.name.toList := by
  simp [TypeWord.chars, h.1]

namespace TypePath

/-- Whether all parts of a name are plain and only the last one has arguments, if any. -/
def IsPlain : TypePath → Prop
  | .last name _ => name.IsPlain
  | .dotted name .none rest => name.IsPlain ∧ rest.IsPlain
  | .dotted _ (.some _) _ => False

def lastName : TypePath → TypeWord
  | .last name _ => name
  | .dotted _ _ rest => rest.lastName

def hasArguments : TypePath → Bool
  | .last _ .none => false
  | .last _ (.some _) => true
  | .dotted _ _ rest => rest.hasArguments

def nameText : TypePath → List Char
  | .last name _ => name.chars
  | .dotted name _ rest => name.chars ++ '.' :: rest.nameText

theorem opened?_of_isPlain {before : List Char} : {path : TypePath} → path.IsPlain →
    (path.opened? before).map (fun (text, _, _) => text) =
      if path.hasArguments then some (before ++ path.nameText) else none
  | .last _ .none, _ => rfl
  | .last _ (.some _), _ => rfl
  | .dotted name .none rest, h => by
    rw [opened?, opened?_of_isPlain h.2, hasArguments, nameText, List.append_assoc,
      List.append_assoc, List.singleton_append]

theorem compact_of_isPlain : {path : TypePath} → path.IsPlain → path.hasArguments = false →
    compact path.tokens = path.nameText
  | .last name .none, _, _ => List.append_nil _
  | .dotted name .none rest, h, harguments => by
    rw [tokens, compact_cons, compact_append, compact_cons, compact_of_isPlain h.2 harguments]
    rfl

theorem lastField_nameText : {path : TypePath} → path.IsPlain →
    Text.lastField '.' path.nameText = path.lastName.name.toList
  | .last name _, h => by
    rw [nameText, Text.lastField_of_not_mem (name.not_mem_chars (by decide) (by decide)),
      TypeWord.IsPlain.chars_eq h, lastName]
  | .dotted name .none rest, h => by
    rw [nameText, Text.lastField_append_cons, lastField_nameText h.2, lastName]

theorem colon_not_mem_nameText : (path : TypePath) → ':' ∉ path.nameText
  | .last name _ => name.not_mem_chars (by decide) (by decide)
  | .dotted name _ rest => by
    have hname := name.not_mem_chars (c := ':') (by decide) (by decide)
    simp [nameText, hname, colon_not_mem_nameText rest]

end TypePath

end RouteLinks.Source
