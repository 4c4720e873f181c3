import RouteLinks.Source.SyntaxTree
import RouteLinks.Symbols.Attribute
/-!
# Heads of declarations

What the heads of declarations are made of besides base and parameter lists: modifiers, attributes,
type parameters, and the texts of directives and signatures.
-/

namespace RouteLinks.Source

def nameOf? (bytes : Bytes) (n : SyntaxNode) : Option String :=
  ((n.field? "name").map (·.rawText bytes)).filter (!·.isEmpty)

def modifiersOf (bytes : Bytes) (n : SyntaxNode) : List String :=
  (n.children.filter (·.kind == "modifier")).map (·.text bytes)

def attributesOf (bytes : Bytes) (n : SyntaxNode) : List Attribute :=
  (n.children.filter (·.kind == "attribute_list")).flatMap fun list =>
    (list.namedChildren.filter (·.kind == "attribute")).map fun n =>
      "[" ++ n.text bytes ++ "]"

/-- The names between the angle brackets of type parameters. -/
def namesInBrackets (text : String) : List String :=
  let inner := if beginsWith text "<" && endsWith text ">" then
    (text.toList.drop 1).dropLast else text.toList
  ((Text.fields ',' inner).map Text.trim).filterMap fun name =>
    if name.isEmpty then none else some (String.ofList name)

def typeParameterNames (bytes : Bytes) (list : Option SyntaxNode) : List String :=
  match list with
  | some list => namesInBrackets (list.text bytes)
  | none => []

/-- What a directive brings into scope: the namespace, if it is neither a static nor an alias
directive. -/
def usingTarget? (text : String) : Option String :=
  let cs := Text.trim text.toList
  let ws := Text.words (Text.dropEndWhile (· == ';') cs)
  let ws :=
    match ws with | first :: rest => if first == "global".toList then rest else ws | [] => ws
  match ws with
  | [first, target] =>
    if first == "using".toList && !cs.contains '=' then
      some (String.ofList (Text.replace "global::".toList [] target))
    else none
  | _ => none

/-- The signature of a class: the first line, up to the brace. -/
def classSignature (text : String) : String :=
  let line := Text.trimEnd (Text.firstField '\n' text.toList)
  String.ofList (Text.trimEnd (Text.dropEndWhile (fun c => c == ' ' || c == '\x7b') line))

/-- The text before the body of a member; `depth` counts open parentheses. None if no body
begins. -/
def beforeBody? (depth : Int) : List Char → Option (List Char)
  | [] => none
  | c :: rest =>
    let go (d : Int) := (beforeBody? d rest).map (c :: ·)
    if c == '(' then go (depth + 1)
    else if c == ')' then go (depth - 1)
    else
      let isEnd := c == '\x7b' || c == ';' || (c == '=' && rest.head? == some '>')
      if depth == 0 && isEnd then some [] else go depth

/-- The signature of a method or constructor: what precedes the body, on one line. -/
def memberSignature (text : String) : String :=
  match beforeBody? 0 text.toList with
  | some head => " ".intercalate ((Text.words head).map String.ofList)
  | none => String.ofList (Text.trimEnd (Text.firstField '\n' text.toList))

end RouteLinks.Source
