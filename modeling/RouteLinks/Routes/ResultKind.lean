import RouteLinks.Text.Basic
/-!
# Result kinds

An action gets a link only if its return type can be replaced by one of two generated result
classes. Which one, and with what declared type, is read off the text of the return type.
-/

namespace RouteLinks

/-- The two shapes of a generated result. -/
inductive ResultKind where
  | generic
  | data
  deriving DecidableEq, Repr

def ResultKind.name : ResultKind → String
  | .generic => "generic"
  | .data => "data"

def ResultKind.ofName? : String → Option ResultKind
  | "generic" => some .generic
  | "data" => some .data
  | _ => none

/-- The generated class that carries a result of this kind. -/
def ResultKind.className : ResultKind → String
  | .generic => "LinkedActionResult"
  | .data => "LinkedJsonResult"

/-- The framework class that the generated class derives from. -/
def ResultKind.baseName : ResultKind → String
  | .generic => "ActionResult"
  | .data => "JsonResult"

/-- How the result of an action is represented: the kind, the declared type without the task around
it, and whether there was a task. -/
structure ResultShape where
  kind : ResultKind
  resultType : String
  isAsync : Bool
  deriving DecidableEq, Repr

/-- What stands in `Task<…>`, the task being written by its short or its full name. -/
def taskArgument? (cs : List Char) : Option (List Char) :=
  let named (start : String) : Option (List Char) :=
    if start.toList.isPrefixOf cs then
      let inner := cs.drop start.toList.length
      if inner.length ≥ 2 && inner.getLast? == some '>' then some inner.dropLast else none
    else none
  ((named "global::System.Threading.Tasks.Task<").or (named "System.Threading.Tasks.Task<")).or
    (named "Task<")

/-- A type name without arguments and qualifiers. -/
def bareTypeName (cs : List Char) : List Char :=
  Text.lastField '.' (Text.replace "global::".toList [] (Text.firstField '<' cs))

/-- The shape of a type from which the blanks have been taken out and, if `isAsync`, the task. -/
def ResultShape.ofBare? (isAsync : Bool) (cs : List Char) : Option ResultShape :=
  let bare := String.ofList (bareTypeName cs)
  let hasArguments := cs.contains '<'
  if bare == "JsonResult" && !hasArguments then some ⟨.data, String.ofList cs, isAsync⟩
  else if bare == "ActionResult" || (bare == "IActionResult" && !hasArguments) then
    some ⟨.generic, String.ofList cs, isAsync⟩
  else none

/-- The shape of a return type, none if no generated result can stand in for it. -/
def ResultShape.ofType? (returnType : Option String) : Option ResultShape :=
  match returnType with
  | none => none
  | some type =>
    let cs := Text.squeeze type.toList
    match taskArgument? cs with
    | some inner => ResultShape.ofBare? true inner
    | none => ResultShape.ofBare? false cs

end RouteLinks
