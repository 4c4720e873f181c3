import RouteLinks.Parser.Tree
import RouteLinks.Text.Identifier
/-!
# Types and names

Where a type or a qualified name ends, which of the items of a level belong to type arguments, and
so which commas of a level separate anything.
-/

namespace RouteLinks.Parser

open Source

def builtinTypes : List String :=
  ["bool", "byte", "char", "decimal", "double", "float", "int", "long", "object", "sbyte", "short",
    "string", "uint", "ulong", "ushort", "void"]

def Tree.isName (t : Tree) : Bool := (t.word?.map (!Identifier.reserved.contains ·)).getD false

/-- The items after the `>` that ends type arguments; `depth` counts those that are open besides.
None if something is met that cannot stand in type arguments. -/
def afterTypeArguments? (depth : Nat) : List Tree → Option (List Tree)
  | [] => none
  | t :: rest =>
    if t.isSymbol "<" then afterTypeArguments? (depth + 1) rest
    else if t.isSymbol ">" then
      match depth with
      | 0 => some rest
      | d + 1 => afterTypeArguments? d rest
    else if t.word?.isSome || t.isGroup "(" || t.isGroup "[" ||
        [".", "::", ",", "?", "*"].any (t.isSymbol ·) then
      afterTypeArguments? depth rest
    else none

/-- The items after type arguments, if there are any here. -/
def skipTypeArguments : List Tree → List Tree
  | [] => []
  | t :: rest => if t.isSymbol "<" then (afterTypeArguments? 0 rest).getD (t :: rest) else t :: rest

/-- The items after the marks of arrays, nullable types and pointers. -/
def skipTypeSuffixes : List Tree → List Tree
  | [] => []
  | t :: rest =>
    if t.isSymbol "?" || t.isSymbol "*" || t.isGroup "[" then skipTypeSuffixes rest else t :: rest

/-- A qualified name: its last part, the type arguments of that part, and the rest. -/
structure QualifiedName where
  last : Token
  arguments : List Tree
  rest : List Tree

def readQualifiedName? (fuel : Nat) (trees : List Tree) : Option QualifiedName :=
  match fuel, trees with
  | fuel + 1, .leaf token :: rest =>
    if !(Tree.leaf token).isName then none
    else
      let after := skipTypeArguments rest
      let arguments := rest.take (rest.length - after.length)
      match after with
      | t :: more =>
        if t.isSymbol "." || t.isSymbol "::" then
          (readQualifiedName? fuel more).or (some ⟨token, arguments, after⟩)
        else some ⟨token, arguments, after⟩
      | [] => some ⟨token, arguments, after⟩
  | _, _ => none

def afterType? (trees : List Tree) : Option (List Tree) :=
  match trees with
  | [] => none
  | t :: rest =>
    if t.isWord "ref" || t.isWord "readonly" then afterType? rest
    else if t.isWord "scoped" && (rest.head?.map fun n => n.word?.isSome).getD false &&
        (afterType? rest).any (fun after => (after.head?.map Tree.isName).getD false) then
      afterType? rest
    else if t.isGroup "(" then some (skipTypeSuffixes rest)
    else if t.isWord "delegate" then
      match rest with
      | star :: more =>
        if star.isSymbol "*" then
          let more := match more with
            | w :: tail => if w.isName then (match tail with
                | c :: tail' => if c.isGroup "[" then tail' else tail
                | [] => tail) else more
            | [] => more
          let after := skipTypeArguments more
          if after.length < more.length then some (skipTypeSuffixes after) else none
        else none
      | [] => none
    else
      match t.word? with
      | some w =>
        if builtinTypes.contains w then some (skipTypeSuffixes rest)
        else (readQualifiedName? trees.length trees).map fun n => skipTypeSuffixes n.rest
      | none => none

/-- The parts between the commas of a level. A comma in type arguments separates nothing; `skip`
counts the items of type arguments that are still to come. -/
def splitAtCommas (skip : Nat) : List Tree → List (List Tree)
  | [] => [[]]
  | t :: rest =>
    let onto (parts : List (List Tree)) : List (List Tree) :=
      match parts with
      | [] => [[t]]
      | first :: others => (t :: first) :: others
    match skip with
    | n + 1 => onto (splitAtCommas n rest)
    | 0 =>
      if t.isSymbol "," then [] :: splitAtCommas 0 rest
      else if t.isSymbol "<" then
        match afterTypeArguments? 0 rest with
        | some after => onto (splitAtCommas (rest.length - after.length) rest)
        | none => onto (splitAtCommas 0 rest)
      else onto (splitAtCommas 0 rest)

end RouteLinks.Parser
