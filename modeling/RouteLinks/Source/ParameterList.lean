import RouteLinks.Source.SyntaxTree
import RouteLinks.Symbols.Parameter
/-!
# Parameter lists

A parameter is a node of the list, but for one that takes all further arguments: its keyword, type
and name stand in the list itself and are gathered there. Older grammars have a node for such a
parameter too, without fields.
-/

namespace RouteLinks.Source

def parameterWords : List String := ["ref", "out", "in", "this", "params", "scoped", "readonly"]

/-- The words of a text that modify a parameter. -/
def modifyingWords (text : String) : List String :=
  ((Text.words text.toList).map String.ofList).filter parameterWords.contains

def isRestParameter (n : SyntaxNode) : Bool := n.kind == "parameter_array"

def parameterName? (n : SyntaxNode) : Option SyntaxNode :=
  let last := if isRestParameter n then
    (n.namedChildren.filter (·.kind == "identifier")).getLast? else none
  last.or (n.field? "name")

def parameterType? (n : SyntaxNode) : Option SyntaxNode :=
  let first := if isRestParameter n then
    n.namedChildren.find? fun child => ["array_type", "nullable_type"].contains child.kind else none
  (n.field? "type").or first

/-- The default of a parameter: a node of its own, or what follows the sign. -/
def parameterDefault? (bytes : Bytes) (n : SyntaxNode) : Option String :=
  match (n.field? "default_value").or (n.child? "equals_value_clause") with
  | some clause =>
    some (String.ofList (Text.trim ((clause.text bytes).toList.dropWhile (· == '='))))
  | none =>
    (n.child? "=").bind fun equals =>
      let text := trim (sliceText bytes equals.stop n.stop)
      if text.isEmpty then none else some text

/-- The children in front of the type, or of the name if there is no type. -/
def beforeType (n : SyntaxNode) : List SyntaxNode :=
  match (parameterType? n).or (parameterName? n) with
  | some boundary => n.children.takeWhile (·.start < boundary.start)
  | none => n.children

/-- The modifiers of a parameter: such words of whatever stands between the attributes and the
type. -/
def parameterModifiers (bytes : Bytes) (n : SyntaxNode) : List String :=
  let words := ((beforeType n).filter (·.kind != "attribute_list")).flatMap fun child =>
    modifyingWords (child.text bytes)
  if isRestParameter n && !words.contains "params" then words ++ ["params"] else words

def readParameter (bytes : Bytes) (n : SyntaxNode) : Parameter where
  name := ((parameterName? n).map (·.text bytes)).getD "?"
  type := (parameterType? n).map (·.text bytes)
  default := parameterDefault? bytes n
  modifiers := parameterModifiers bytes n

/-- The parameters of a list. After the word `params` whatever is named counts as the type, and the
next identifier as the name: `rest` is the type found so far, none before the word. -/
def readParametersFrom (bytes : Bytes) (rest : Option (Option String)) :
    List SyntaxNode → List Parameter
  | [] => []
  | n :: more =>
    match rest with
    | some (some type) =>
      if n.kind == "identifier" then
        { name := n.text bytes, type := some type, modifiers := ["params"] } ::
          readParametersFrom bytes none more
      else readParametersFrom bytes rest more
    | some none =>
      if n.info.isNamed && n.kind != "attribute_list" then
        readParametersFrom bytes (some (some (n.text bytes))) more
      else readParametersFrom bytes rest more
    | none =>
      if n.kind == "params" then readParametersFrom bytes (some none) more
      else if n.kind == "__arglist" then
        { name := "__arglist", type := none } :: readParametersFrom bytes none more
      else if n.kind == "parameter" || n.kind == "parameter_array" then
        readParameter bytes n :: readParametersFrom bytes none more
      else readParametersFrom bytes none more

def readParameters (bytes : Bytes) (list : Option SyntaxNode) : List Parameter :=
  match list with
  | some list => readParametersFrom bytes none list.children
  | none => []

end RouteLinks.Source
