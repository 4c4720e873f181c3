import RouteLinks.Routes.Action
import RouteLinks.Routes.Edit
import RouteLinks.Routes.Numbering
import RouteLinks.Symbols.Discovery
/-!
# Controllers with their actions

For one controller, all that is generated from it is decided here: its area, its actions with their
member names, what is left out and why, and the edits that make its source partial and its actions
overridable. The model is only read.

A controller also has the actions of those ancestors that are controllers of the same run. A method
of a base counts once for each signature, and not at all if the controller itself has an action of
that signature.
-/

namespace RouteLinks

/-- The protocol of a controller or action that asks for a secure connection. -/
def secureProtocol : String := "https"

/-- A controller, ready for generation. -/
structure Controller where
  symbol : Class
  name : String
  area : String
  actions : List Action := []
  diagnostics : List Diagnostic := []
  edits : List SourceEdit := []
  /-- The direct base, if that is a controller of the run too. -/
  baseController : Option String := none
  protocol : Option String := none
  usings : List String := []
  deriving DecidableEq, Repr

/-- Why a method of a controller gets no link though it looks like an action. -/
inductive ActionObstacle where
  | parameters (problems : List (String × Parameter.Obstacle))
  | isSealed
  | returnType (type : Option String)
  deriving DecidableEq, Repr

def ActionObstacle.kind : ActionObstacle → DiagnosticKind
  | .parameters _ => .unsupportedParameter
  | _ => .unsupportedMethod

def ActionObstacle.message : ActionObstacle → String
  | .parameters problems =>
    "excluded from generated links: " ++
      "; ".intercalate (problems.map fun (name, o) => "parameter '" ++ name ++ "' " ++ o.message)
  | .isSealed => "excluded from generated links: method is sealed"
  | .returnType type =>
    "excluded from generated links: return type '" ++ type.getD "None" ++
      "' has no result descriptor"

/-- What becomes of a method. -/
inductive Routing where
  | action (shape : ResultShape)
  | excluded (reason : ActionObstacle)
  | other
  deriving DecidableEq, Repr

/-- The parameters that keep a method from being overridden. -/
def Method.problems (m : Method) : List (String × Parameter.Obstacle) :=
  m.parameters.filterMap fun p => p.obstacle?.map fun o => (p.name, o)

/-- What becomes of a method, where `inherited` has the signatures of the controllers above its
class. An override of something else belongs to the framework. -/
def Method.routing (inherited : List Signature) (m : Method) : Routing :=
  if !m.isPublic || m.isStatic || m.isGeneric then .other
  else if m.hasAttribute "NonAction" then .other
  else if m.modifiers.contains "override" && !inherited.contains m.signature then .other
  else if !m.problems.isEmpty then .excluded (.parameters m.problems)
  else if m.modifiers.contains "sealed" then .excluded .isSealed
  else
    match ResultShape.ofType? m.returnType with
    | some shape => .action shape
    | none => .excluded (.returnType m.returnType)

def Method.isAction (inherited : List Signature) (m : Method) : Bool :=
  match m.routing inherited with
  | .action _ => true
  | _ => false

/-- The report on a method that is left out. -/
def Method.diagnostic? (owner : Class) (inherited : List Signature) (m : Method) :
    Option Diagnostic :=
  match m.routing inherited with
  | .excluded reason =>
    some
      { kind := reason.kind, subject := owner.name ++ "." ++ m.name, message := reason.message
        filePath := some m.filePath, line := m.startLine }
  | _ => none

namespace Controller

/-- The signatures that the controllers among some classes declare. -/
def signatures (run : List String) (bases : List Class) : List Signature :=
  (bases.filter fun b => run.contains b.qualifiedName).flatMap fun b =>
    b.methods.map Method.signature

/-- The actions of a base whose signatures have not been seen, with the signatures seen after it. -/
def newActions (inherited : List Signature) (seen : List Signature) :
    List Method → List Method × List Signature
  | [] => ([], seen)
  | m :: rest =>
    if seen.contains m.signature then newActions inherited seen rest
    else
      let (actions, seen) := newActions inherited (m.signature :: seen) rest
      (if m.isAction inherited then m :: actions else actions, seen)

/-- The actions that come from bases, the nearest base first. -/
def inheritedActions (run : List String) (seen : List Signature) : List Class → List Method
  | [] => []
  | base :: further =>
    if run.contains base.qualifiedName then
      let (actions, seen) := newActions (signatures run further) seen base.methods
      actions ++ inheritedActions run seen further
    else inheritedActions run seen further

/-- The methods of a controller that get links: its own first, then those of its bases. -/
def actionMethods (run : List String) (symbol : Class) (bases : List Class) : List Method :=
  let own := symbol.methods.filter (·.isAction (signatures run bases))
  own ++ inheritedActions run (own.map Method.signature) bases

def routeNameOf (m : Method) : String :=
  match (m.findAttribute? "ActionName").bind Attribute.stringArgument? with
  | some name => if name.isEmpty then m.name else name
  | none => m.name

/-- The action that a method is, under its member name. -/
def actionOf? (protocol : Option String) (m : Method) (member : String × Nat) : Option Action :=
  (ResultShape.ofType? m.returnType).map fun shape =>
    { method := m
      memberName := member.1
      routeName := routeNameOf m
      shape
      protocol := if m.hasAttribute "RequireHttps" then some secureProtocol else protocol
      overloadIndex := member.2 }

def assign (protocol : Option String) (methods : List Method) : List Action :=
  (methods.zip (Numbering.assignAll [] [] (methods.map (·.name)))).filterMap fun (m, member) =>
    actionOf? protocol m member

/-- The edits that make a class partial and its own actions overridable. -/
def editsFor (symbol : Class) (actions : List Action) : List SourceEdit :=
  let partialEdit := symbol.partialAt.map fun (place : Nat) =>
    SourceEdit.mk symbol.filePath place "partial "
  let virtualEdit? (a : Action) : Option SourceEdit :=
    if a.declaringClass != symbol.qualifiedName || a.method.isOverridable then none
    else
      a.method.returnTypeAt.map fun (place : Nat) =>
        SourceEdit.mk a.method.filePath place "virtual "
  partialEdit.toList ++ actions.filterMap virtualEdit?

/-- The namespaces that the generated code needs: those of the class, and those of every base that
an action comes from. -/
def usingsFor (symbol : Class) (bases : List Class) (actions : List Action) : List String :=
  let used := bases.filter fun b => actions.any (·.declaringClass == b.qualifiedName)
  let added := (used.flatMap fun b => b.scope :: b.usings).filter fun name =>
    !name.isEmpty && name != symbol.scope
  mergeUnique symbol.usings added

/-- A class as a controller of a run, which is given by the qualified names of its controllers. -/
def ofClass (m : Model) (run : List String) (symbol : Class) : Controller :=
  let chain := (m.ancestry symbol).chain
  let bases := chain.drop 1
  let protocol := if chain.any (·.hasAttribute "RequireHttps") then some secureProtocol else none
  let inherited := signatures run bases
  let actions := assign protocol (actionMethods run symbol bases)
  { symbol
    name := RouteLinks.routeName symbol.name
    area := Area.ofNamespace symbol.scope
    actions
    diagnostics := symbol.methods.filterMap (Method.diagnostic? symbol inherited)
    edits := editsFor symbol actions
    baseController := (bases.head?.map Class.qualifiedName).filter run.contains
    protocol
    usings := usingsFor symbol bases actions }

def all (m : Model) : List Controller :=
  let found := m.controllers
  found.map (ofClass m (found.map Class.qualifiedName))

def scope (c : Controller) : String := c.symbol.scope

def className (c : Controller) : String := c.symbol.name

def qualifiedName (c : Controller) : String := c.symbol.qualifiedName

def filePath (c : Controller) : String := c.symbol.filePath

def isAbstract (c : Controller) : Bool := c.symbol.isAbstract

/-- The name of the generated class that stands for the controller. -/
def companionName (c : Controller) : String := "Linked" ++ c.className

/-- The name of the generated class with its namespace. -/
def companionQualifiedName (c : Controller) : String := qualify c.scope c.companionName

def ownActions (c : Controller) : List Action :=
  c.actions.filter (·.declaringClass == c.qualifiedName)

/-- The names of the arguments that a description has in any case. -/
def reservedNames : List String := ["self", "member_name"]

/-- The descriptor that a call of a member stands for. -/
def describe (c : Controller) (member : String) (args : List RouteValue)
    (named : List (String × RouteValue)) : Except CallError Descriptor :=
  match named.find? fun (key, _) => reservedNames.contains key with
  | some (key, _) => .error (.reservedArgument "RewrittenHandler" key)
  | none =>
    match c.actions.find? (·.memberName == member) with
    | some action => action.describe c.area c.name args named
    | none => .error (.unknownMember c.className member)

end Controller

end RouteLinks
