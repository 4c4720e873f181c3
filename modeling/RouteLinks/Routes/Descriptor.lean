import RouteLinks.Order
import RouteLinks.Routes.ResultKind
import RouteLinks.Routes.Value
import RouteLinks.Unicode.LetterCase
/-!
# Result descriptors

A generated action does not run: it answers with a descriptor of the route to the action. A
descriptor has an identity (area, controller, action, protocol) and the values of the parameters, in
the order in which they were added. The identity occupies three route keys in any letter case; a
parameter can neither take one of them nor use a key twice.
-/

namespace RouteLinks

def identityKeys : List String := ["area", "controller", "action"]

/-- Whether a key belongs to the identity, in any letter case. -/
def isIdentityKey (key : String) : Bool := identityKeys.contains (Unicode.toLower key)

/-- What an action answers with. -/
structure Descriptor where
  kind : ResultKind
  area : String
  controller : String
  action : String
  protocol : Option String
  parameters : List (String × RouteValue) := []

/-- Why a route value is refused. -/
inductive RouteValueError where
  | replacesIdentity (key : String)
  | duplicate (key : String)
  deriving DecidableEq, Repr

def RouteValueError.message : RouteValueError → String
  | .replacesIdentity key => "Route value '" ++ key ++ "' would replace the route identity"
  | .duplicate key => "Duplicate route value '" ++ key ++ "'"

namespace Descriptor

/-- Gives the descriptor a route identity; the parameters it had are dropped. -/
def attach (d : Descriptor) (area : Option String) (controller action : String)
    (protocol : Option String) : Descriptor :=
  { d with area := area.getD "", controller, action, protocol, parameters := [] }

def ofIdentity (kind : ResultKind) (area : Option String) (controller action : String)
    (protocol : Option String) : Descriptor :=
  ⟨kind, area.getD "", controller, action, protocol, []⟩

def hasKey (d : Descriptor) (key : String) : Bool := d.parameters.any (·.1 == key)

def add (d : Descriptor) (key : String) (value : RouteValue) : Except RouteValueError Descriptor :=
  if isIdentityKey key then .error (.replacesIdentity key)
  else if d.hasKey key then .error (.duplicate key)
  else .ok { d with parameters := d.parameters ++ [(key, value)] }

def identity (d : Descriptor) : List (String × RouteValue) :=
  [("area", .text d.area), ("controller", .text d.controller), ("action", .text d.action)]

/-- All route values: the identity first, then the parameters. A parameter under a key that is
there already would take the place of its value. -/
def routeValues (d : Descriptor) : List (String × RouteValue) :=
  d.parameters.foldl (fun values (key, value) => upsert key (fun _ => value) values) d.identity

/-- Whether two lists of parameters agree in keys, values and order. -/
def sameParameters : List (String × RouteValue) → List (String × RouteValue) → Bool
  | [], [] => true
  | (k, x) :: xs, (l, y) :: ys => k == l && x.same y && sameParameters xs ys
  | _, _ => false

/-- Whether two descriptors stand for the same link. -/
def same (d e : Descriptor) : Bool :=
  d.kind == e.kind && d.area == e.area && d.controller == e.controller && d.action == e.action &&
    d.protocol == e.protocol && sameParameters d.parameters e.parameters

/-- The parameters as they are shown in messages. -/
def displayParameters (parameters : List (String × RouteValue)) :
    Except Decimal.LimitError String := do
  let shown ← parameters.mapM fun (k, v) => do return Quoted.display k ++ ": " ++ (← v.display)
  return "\x7b" ++ ", ".intercalate shown ++ "\x7d"

def display (d : Descriptor) : Except Decimal.LimitError String := do
  let protocol := match d.protocol with | some p => Quoted.display p | none => "None"
  return "ResultDescriptor(" ++ d.kind.name ++ ", area=" ++ Quoted.display d.area ++ ", handler=" ++
    Quoted.display d.controller ++ ", method=" ++ Quoted.display d.action ++ ", protocol=" ++
    protocol ++ ", parameters=" ++ (← displayParameters d.parameters) ++ ")"

end Descriptor

end RouteLinks
