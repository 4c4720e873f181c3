import RouteLinks.Emit.Node
import RouteLinks.Routes.Controller
/-!
# Overrides of actions

An action is overridden by a method that does not run it. The override makes a result with the route
identity, adds the values of the parameters, offers the result to a hook, and answers with it. Its
statements are built as values and written out at the end, so that what an override does can be read
off without its text.
-/

namespace RouteLinks

def generatedMark : String := "[GeneratedCode(\"LinkForge\", \"1.0\"), DebuggerNonUserCode]"

/-- The attribute that keeps a method from being an action. -/
def nonActionMark : String := "[NonAction]"

/-- The member through which the names of actions are reached. -/
def actionNamesMember : String := "ActionNames"

/-- An expression of generated code. -/
inductive Expression where
  | identifier (name : String)
  | member (object name : String)
  | text (s : String)
  deriving DecidableEq, Repr

/-- A statement of generated code. -/
inductive Statement where
  /-- Declares a variable that holds a new object. -/
  | create (target className : String) (arguments : List Expression)
  | addRouteValue (target key : String) (value : Expression)
  | call (function : String) (arguments : List Expression)
  | answer (target : String)
  /-- Answers with a finished task of a type. -/
  | answerTask (type target : String)
  deriving DecidableEq, Repr

def Expression.render : Expression → String
  | .identifier name => name
  | .member object name => object ++ "." ++ name
  | .text s => Quoted.regular s

def renderArguments (arguments : List Expression) : String :=
  ", ".intercalate (arguments.map Expression.render)

def Statement.render : Statement → String
  | .create target className arguments =>
    "var " ++ target ++ " = new " ++ className ++ "(" ++ renderArguments arguments ++ ");"
  | .addRouteValue target key value =>
    target ++ ".RouteValueDictionary.Add(" ++ Quoted.regular key ++ ", " ++ value.render ++ ");"
  | .call function arguments => function ++ "(" ++ renderArguments arguments ++ ");"
  | .answer target => "return " ++ target ++ ";"
  | .answerTask type target => "return Task.FromResult<" ++ type ++ ">(" ++ target ++ ");"

namespace Action

/-- The variable of an override that holds the result. -/
def resultVariable : String := "callInfo"

/-- The hook that is offered the result of an action. -/
def hookName (a : Action) : String := a.memberName ++ "Override"

/-- The route identity, as an override passes it on. -/
def identityArguments (a : Action) : List Expression :=
  let identity : List Expression :=
    [.identifier "Area", .identifier "Name", .member actionNamesMember a.name]
  match a.protocol with
  | some protocol => if protocol.isEmpty then identity else identity ++ [.text protocol]
  | none => identity

def overrideBody (a : Action) : List Statement :=
  let parameters := a.parameters.map fun p => Expression.identifier p.name
  let values := a.parameters.map fun p =>
    Statement.addRouteValue resultVariable p.routeKey (.identifier p.name)
  .create resultVariable a.shape.kind.className a.identityArguments :: values ++
    [.call a.hookName (.identifier resultVariable :: parameters),
      if a.shape.isAsync then .answerTask a.shape.resultType resultVariable
      else .answer resultVariable]

def hookDeclaration (a : Action) : Node :=
  let result := a.shape.kind.className ++ " " ++ resultVariable
  let parameters := a.parameters.map fun p => p.type.getD "None" ++ " " ++ p.name
  .raw (nonActionMark ++ "\npartial void " ++ a.hookName ++ "(" ++
    ", ".intercalate (result :: parameters) ++ ");")

def overrideDeclaration (a : Action) : Node :=
  .method
    ("public override " ++ a.returnType ++ " " ++ a.name ++ "(" ++
      ", ".intercalate (a.parameters.map Parameter.render) ++ ")")
    (a.overrideBody.map Statement.render) [nonActionMark, generatedMark]

end Action

end RouteLinks
