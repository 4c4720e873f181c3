import RouteLinks.Order
import RouteLinks.Parser.Fault
import RouteLinks.Parser.TypeName
import RouteLinks.Source.SyntaxTree
/-!
# Nodes of declarations

Declarations are cut into their parts, and each part becomes a node. What is read no further, such
as a type or a name, is a node without children.
-/

namespace RouteLinks.Parser

open Source

/-- A source being parsed, with the places of its comments. -/
structure Input where
  bytes : Bytes
  comments : List Span

def rowOf (bytes : Bytes) (offset : Nat) : Nat := (bytes.take offset).count 10

namespace Input

variable (s : Input)

def infoOf (kind : String) (span : Span) : NodeInfo :=
  { kind, start := span.start, stop := span.stop
    startRow := rowOf s.bytes span.start, endRow := rowOf s.bytes span.stop }

def leaf (kind : String) (span : Span) (field : Option String := none) : SyntaxNode :=
  .mk { s.infoOf kind span with field } []

def sign (kind : String) (t : Tree) : SyntaxNode :=
  .mk { s.infoOf kind ⟨t.start, t.stop⟩ with isNamed := false } []

/-- Something that is missing at a place. -/
def missing (place : Nat) : SyntaxNode :=
  .mk { s.infoOf ";" ⟨place, place⟩ with isNamed := false, isMissing := true, hasError := true } []

/-- A node with children. Comments in it that are in no child are children too. -/
def node (kind : String) (span : Span) (children : List SyntaxNode)
    (field : Option String := none) : SyntaxNode :=
  let comments := s.comments.filter fun c =>
    c.within span && !children.any fun child => c.within ⟨child.start, child.stop⟩
  let all := children ++ comments.map fun c => s.leaf "comment" c
  .mk { s.infoOf kind span with field, hasError := children.any (·.info.hasError) }
    (sortBy (fun a b => decide (a.start < b.start)) all)

/-- A node without children for some trees, if there are any. -/
def part (kind : String) (trees : List Tree) (field : Option String := none) : List SyntaxNode :=
  ((spanOf? trees).map fun span => s.leaf kind span field).toList

end Input

/-! ### Modifiers and attributes -/

def modifierWords : List String :=
  ["abstract", "const", "extern", "fixed", "internal", "new", "override", "private", "protected",
    "public", "readonly", "sealed", "static", "unsafe", "virtual", "volatile"]

/-- Words that modify a declaration if something of it follows. -/
def contextualModifiers : List String := ["async", "file", "partial", "required"]

/-- Whether a contextual word in front of these items modifies what follows. -/
def continuesDeclaration : List Tree → Bool
  | t :: rest =>
    t.word?.isSome || (t.isGroup "(" && ((rest.head?.bind Tree.word?).isSome))
  | [] => false

/-- The modifiers at the beginning, and the rest. -/
def readModifiers : List Tree → List Tree × List Tree
  | [] => ([], [])
  | t :: rest =>
    match t.word? with
    | some w =>
      if modifierWords.contains w ||
          (contextualModifiers.contains w && continuesDeclaration rest) then
        let (more, rest) := readModifiers rest
        (t :: more, rest)
      else ([], t :: rest)
    | none => ([], t :: rest)

/-- An attribute list without its target. -/
def withoutTarget : List Tree → List Tree
  | target :: colon :: rest =>
    if target.word?.isSome && colon.isSymbol ":" then rest else target :: colon :: rest
  | trees => trees

/-- Whether an attribute list speaks of the whole assembly or module. -/
def isGlobalAttribute (t : Tree) : Bool :=
  match t.inside? "[" with
  | some (target :: colon :: _) =>
    (target.isWord "assembly" || target.isWord "module") && colon.isSymbol ":"
  | _ => false

/-- The attribute lists at the beginning, and the rest. -/
def readAttributeLists (trees : List Tree) : List Tree × List Tree :=
  (trees.takeWhile (·.isGroup "["), trees.dropWhile (·.isGroup "["))

def attributeList (s : Input) (t : Tree) : SyntaxNode :=
  let parts := splitAtCommas 0 (withoutTarget ((t.inside? "[").getD []))
  s.node "attribute_list" ⟨t.start, t.stop⟩ (parts.flatMap fun trees => s.part "attribute" trees)

/-- The attribute lists and modifiers of a declaration. -/
def frontNodes (s : Input) (lists modifiers : List Tree) : List SyntaxNode :=
  lists.map (attributeList s) ++ modifiers.flatMap fun t => s.part "modifier" [t]

/-! ### Parameters -/

/-- The modifiers of a parameter, and the rest. `scoped` belongs to the type unless a reference
follows. -/
def readParameterModifiers : List Tree → List Tree × List Tree
  | [] => ([], [])
  | t :: rest =>
    let next := (rest.head?.bind Tree.word?).getD ""
    if ["this", "ref", "out", "in", "readonly"].any (t.isWord ·) ||
        (t.isWord "scoped" && ["ref", "out", "in", "this", "scoped"].contains next) then
      let (more, rest) := readParameterModifiers rest
      (t :: more, rest)
    else ([], t :: rest)

/-- A type and the name behind it. -/
def typeAndName (s : Input) (trees : List Tree) : List SyntaxNode :=
  let named := (trees.getLast?.map fun last => last.word?.isSome).getD false
  let type := if named then trees.dropLast else trees
  s.part "type" type (some "type") ++
    s.part "identifier" (trees.drop type.length) (some "name")

/-- A parameter, or the parts of one that takes all further arguments. -/
def parameterNodes (s : Input) (trees : List Tree) : List SyntaxNode :=
  let (lists, rest) := readAttributeLists trees
  match rest with
  | [] => lists.map (attributeList s)
  | t :: more =>
    if t.isWord "params" then
      lists.map (attributeList s) ++ s.sign "params" t :: typeAndName s more
    else if t.isWord "__arglist" && more.isEmpty then [s.sign "__arglist" t]
    else
      let declared := rest.takeWhile (!·.isSymbol "=")
      let assigned := rest.drop declared.length
      let (modifiers, core) := readParameterModifiers declared
      let value := match assigned with
        | equals :: value => s.sign "=" equals :: s.part "expression" value
        | [] => []
      let children := frontNodes s lists modifiers ++ typeAndName s core ++ value
      ((spanOf? trees).map fun span => s.node "parameter" span children).toList

def parameterList (s : Input) (t : Tree) (field : Option String := none) : SyntaxNode :=
  s.node "parameter_list" ⟨t.start, t.stop⟩
    ((splitAtCommas 0 ((t.inside? "(").getD [])).flatMap (parameterNodes s)) field

/-! ### Methods and constructors -/

/-- The places where the body of a member is broken: in its braces, or behind the arrow. -/
def bodyFaults (trees : List Tree) : List Nat :=
  match trees.dropWhile (fun t => !(t.isGroup "\x7b" || t.isSymbol "=>")) with
  | t :: rest => if t.isGroup "\x7b" then faults t else faultsOfTrees false [t] rest
  | [] => []

/-- A method or constructor, if a parameter list follows a name. A member whose name follows its
modifiers directly has no return type and is a constructor. -/
def memberNode? (s : Input) (trees : List Tree) : Option SyntaxNode := do
  let span ← spanOf? trees
  let (lists, rest) := readAttributeLists trees
  let (modifiers, rest) := readModifiers rest
  let front := frontNodes s lists modifiers
  match rest with
  | name :: list :: body =>
    if name.isName && list.isGroup "(" then
      return s.node "constructor_declaration" span <|
        front ++ s.part "identifier" [name] (some "name") ++
          parameterList s list (some "parameters") :: (bodyFaults body).map s.missing
  | _ => pure ()
  if (rest.head?.map (·.isWord "record")).getD false then none
  let after ← afterType? rest
  let name ← readQualifiedName? after.length after
  match name.rest with
  | list :: body =>
    guard (list.isGroup "(")
    return s.node "method_declaration" span <|
      front ++ s.part "type" (rest.take (rest.length - after.length)) (some "returns") ++
        s.part "identifier" [.leaf name.last] (some "name") ++
        s.part "type_parameter_list" name.arguments (some "type_parameters") ++
        parameterList s list (some "parameters") :: (bodyFaults body).map s.missing
  | [] => none

/-! ### Classes -/

/-- The base list at the beginning, and the rest. It goes on to the constraints or the body. -/
def readBaseList : List Tree → Option (Tree × List Tree) × List Tree
  | t :: rest =>
    if t.isSymbol ":" then
      let isEnd (u : Tree) : Bool := u.isWord "where" || u.isGroup "\x7b" || u.isSymbol ";"
      (some (t, rest.takeWhile (!isEnd ·)), rest.dropWhile (!isEnd ·))
    else (none, t :: rest)
  | [] => (none, [])

/-- The types of a base list, and the arguments for a constructor by themselves. -/
def baseParts (entry : List Tree) : List (List Tree) :=
  match entry.getLast? with
  | some last => if last.isGroup "(" && 1 < entry.length then [entry.dropLast, [last]] else [entry]
  | none => []

def baseList (s : Input) (colon : Tree) (trees : List Tree) : SyntaxNode :=
  let types := ((splitAtCommas 0 trees).flatMap baseParts).flatMap fun part => s.part "type" part
  let stop := (types.getLast?.map (·.stop)).getD colon.stop
  s.node "base_list" ⟨colon.start, stop⟩ (s.sign ":" colon :: types)

/-- A class declaration, cut into its parts. -/
structure ClassParts where
  lists : List Tree
  modifiers : List Tree
  keyword : Tree
  name : Token
  typeParameters : List Tree
  parameters : Option Tree
  /-- The colon of the base list, and what it names. -/
  bases : Option (Tree × List Tree)
  body : Option Tree
  /-- All items of the declaration. -/
  whole : List Tree
  rest : List Tree

/-- The class declaration at the beginning. It ends with its body and a semicolon after it, or with
a semicolon alone. -/
def readClass? (trees : List Tree) : Option ClassParts :=
  let (lists, rest) := readAttributeLists trees
  let (modifiers, rest) := readModifiers rest
  match rest with
  | keyword :: .leaf name :: rest =>
    if keyword.isWord "class" && (Tree.leaf name).isName then
      let afterTypes := skipTypeArguments rest
      let typeParameters := rest.take (rest.length - afterTypes.length)
      let parameters := afterTypes.head?.filter (·.isGroup "(")
      let (bases, afterBases) := readBaseList (afterTypes.drop parameters.toList.length)
      let isEnd (t : Tree) : Bool := t.isGroup "\x7b" || t.isSymbol ";"
      let finish (body : Option Tree) (after : List Tree) : ClassParts :=
        { lists, modifiers, keyword, name, typeParameters, parameters, bases, body
          whole := trees.take (trees.length - after.length)
          rest := after }
      match afterBases.dropWhile (!isEnd ·) with
      | t :: after =>
        if t.isGroup "\x7b" then
          match after with
          | u :: more => some (finish (some t) (if u.isSymbol ";" then more else after))
          | [] => some (finish (some t) [])
        else some (finish none after)
      | [] => some (finish none [])
    else none
  | _ => none

/-- The node of a class declaration, whose body has a node already. -/
def classNode (s : Input) (parts : ClassParts) (body : Option SyntaxNode) : SyntaxNode :=
  let span := (spanOf? parts.whole).getD ⟨0, 0⟩
  s.node "class_declaration" span <|
    frontNodes s parts.lists parts.modifiers ++ s.sign "class" parts.keyword ::
      s.part "identifier" [.leaf parts.name] (some "name") ++
      s.part "type_parameter_list" parts.typeParameters ++
      (parts.parameters.map fun t => parameterList s t).toList ++
      (parts.bases.map fun (colon, trees) => baseList s colon trees).toList ++ body.toList

/-! ### Other declarations -/

/-- The items up to the end of a declaration that is not a class: a semicolon, or braces unless a
value is being given. -/
def declarationEnd (givesValue : Bool) : List Tree → List Tree × List Tree
  | [] => ([], [])
  | t :: rest =>
    if t.isSymbol ";" then ([t], rest)
    else
      let next := (rest.head?.map (·.isSymbol "=")).getD false
      if t.isGroup "\x7b" && !givesValue && !next then ([t], rest)
      else
        let (more, rest) := declarationEnd (givesValue || t.isSymbol "=" || t.isSymbol "=>") rest
        (t :: more, rest)

/-- Whether a type other than a class is declared here. -/
def beginsType : List Tree → Bool
  | t :: next :: rest =>
    t.isWord "struct" || t.isWord "interface" || (t.isWord "record" && next.word?.isSome) ||
      ((t.isWord "ref" || t.isWord "partial") && beginsType (next :: rest))
  | _ => false

/-- The members of a type other than a class, if a declaration is that of one. -/
def otherTypeBody? (trees : List Tree) : Option (List Tree) :=
  if beginsType (readModifiers (readAttributeLists trees).2).2 then
    trees.findSome? (·.inside? "\x7b")
  else none

end RouteLinks.Parser
