import RouteLinks.Links.Companion
import RouteLinks.Proofs.Links.Dictionary
import RouteLinks.Proofs.Routes.Literal
/-!
# What an override answers with

The statements of an override are carried out as the compiler reads them. A name means a parameter
if there is one, and a member of the class otherwise; a verbatim name is the same name. The
members are the constants of the generated half, which stand there as literals and are read back
from these. A result class stores the route identity that its constructor is given, and its
dictionary takes every key once. Hooks have no body, so a call of one does nothing.
-/

namespace RouteLinks

/-- A name as the compiler compares names: without the mark of a verbatim identifier. -/
def bareName (name : String) : String :=
  match name.toList with
  | '@' :: rest => String.ofList rest
  | _ => name

theorem routeKey_eq (p : Parameter) : p.routeKey = bareName p.name := by
  rfl

def ResultKind.ofClassName? (className : String) : Option ResultKind :=
  [ResultKind.generic, ResultKind.data].find? (·.className == className)

@[simp] theorem ResultKind.ofClassName?_className (kind : ResultKind) :
    ofClassName? kind.className = some kind := by
  cases kind <;> decide

namespace Descriptor

/-- What the constructor of a result class makes of its arguments; the protocol may be left out. -/
def construct? (kind : ResultKind) : List RouteValue → Option Descriptor
  | [.text area, .text controller, .text action] =>
    some (.ofIdentity kind (some area) controller action none)
  | [.text area, .text controller, .text action, .text protocol] =>
    some (.ofIdentity kind (some area) controller action (some protocol))
  | _ => none

/-- The keys of the dictionary of a result. It has those of the identity from the beginning. -/
def dictionaryKeys (d : Descriptor) : List String := (d.identity ++ d.parameters).map Prod.fst

def put? (fold : Char → Char) (d : Descriptor) (key : String) (value : RouteValue) :
    Option Descriptor :=
  (addKey? fold d.dictionaryKeys key).map fun _ =>
    { d with parameters := d.parameters ++ [(key, value)] }

end Descriptor

inductive Meaning where
  | value (v : RouteValue)
  /-- An object with text constants, each with its literal. -/
  | constants (literals : List (String × String))

/-- What an override sees while it is carried out. -/
structure Frame where
  parameters : List (String × RouteValue)
  members : List (String × Meaning)
  locals : List (String × Descriptor) := []

namespace Frame

def meaning? (f : Frame) (name : String) : Option Meaning :=
  ((f.parameters.lookup (bareName name)).map Meaning.value).or (f.members.lookup (bareName name))

def eval? (f : Frame) : Expression → Option RouteValue
  | .identifier name =>
    match f.meaning? name with
    | some (.value v) => some v
    | _ => none
  | .member object name =>
    match f.meaning? object with
    | some (.constants literals) =>
      (literals.find? (bareName ·.1 == bareName name)).bind fun entry =>
        (Literal.value entry.2).toOption
    | _ => none
  | .text s => (Literal.value (Expression.text s).render).toOption

theorem eval?_text (f : Frame) (s : String) : f.eval? (.text s) = some (.text s) :=
  congrArg Except.toOption (Literal.value_regular s)

/-- Carries out a statement that does not answer. No variable has the name of a parameter. -/
def exec? (fold : Char → Char) (f : Frame) : Statement → Option Frame
  | .create target className arguments =>
    if (f.parameters.lookup target).isSome || (f.locals.lookup target).isSome then none
    else do
      let kind ← ResultKind.ofClassName? className
      let d ← Descriptor.construct? kind (← arguments.mapM f.eval?)
      some { f with locals := (target, d) :: f.locals }
  | .addRouteValue target key value => do
    let d ← Descriptor.put? fold (← f.locals.lookup target) key (← f.eval? value)
    some { f with locals := (target, d) :: f.locals }
  | _ => some f

def answer? (fold : Char → Char) (f : Frame) : List Statement → Option Descriptor
  | [] => none
  | .answer target :: _ => f.locals.lookup target
  | .answerTask _ target :: _ => f.locals.lookup target
  | s :: rest => (f.exec? fold s).bind fun next => next.answer? fold rest

end Frame

namespace Controller

/-- The constants of the generated half through which overrides know the route identity, each with
its literal. -/
def identityConstants (c : Controller) : List (String × String) :=
  [("Area", Quoted.regular c.area), ("Name", Quoted.regular c.name)]

def actionNameConstants (c : Controller) : List (String × String) :=
  c.actionNames.map fun (name, value) => (name, Quoted.regular value)

def membersForOverrides (c : Controller) : List (String × Meaning) :=
  c.identityConstants.filterMap (fun (name, literal) =>
      (Literal.value literal).toOption.map fun v => (name, .value v)) ++
    [(actionNamesMember, .constants c.actionNameConstants)]

/-- What the override of an action sees when it is called with some arguments. -/
def frameOf (c : Controller) (a : Action) (args : List RouteValue) : Frame :=
  { parameters := (a.parameters.map Parameter.routeKey).zip args
    members := c.membersForOverrides }

/-- What the override of an action answers with when it is called with some arguments. -/
def answerOf? (fold : Char → Char) (c : Controller) (a : Action) (args : List RouteValue) :
    Option Descriptor :=
  (c.frameOf a args).answer? fold a.overrideBody

end Controller

end RouteLinks
