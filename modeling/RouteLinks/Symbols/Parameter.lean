import RouteLinks.Routes.Descriptor
/-!
# Parameters

A parameter of a method as it is declared. A generated override repeats the declaration, so a
parameter has a rendered form; and it becomes a route value, so it has a key. Some parameters allow
neither.
-/

namespace RouteLinks

/-- A declared parameter. -/
structure Parameter where
  name : String
  type : Option String
  default : Option String := none
  modifiers : List String := []
  deriving DecidableEq, Repr

namespace Parameter

/-- The type, if one is written. -/
def type? (p : Parameter) : Option String := p.type.filter (!·.isEmpty)

/-- The key of the route value: the name without the mark of a verbatim identifier. -/
def routeKey (p : Parameter) : String :=
  match p.name.toList with
  | '@' :: rest => String.ofList rest
  | _ => p.name

/-- The declaration in an override: the same, but for `this`. -/
def render (p : Parameter) : String :=
  let declared := match p.type? with | some type => type ++ " " ++ p.name | none => p.name
  let text := " ".intercalate (p.modifiers.filter (· != "this") ++ [declared])
  match p.default with
  | some value => text ++ " = " ++ value
  | none => text

/-- Why a parameter cannot be part of a generated override. -/
inductive Obstacle where
  | noType
  | pointer (type : String)
  | byReference (modifier : String)
  | identityKey (key : String)
  deriving DecidableEq, Repr

def Obstacle.message : Obstacle → String
  | .noType => "has no declared type"
  | .pointer type => "uses the pointer type " ++ type
  | .byReference modifier => "is passed by reference (" ++ modifier ++ ")"
  | .identityKey key => "would replace the '" ++ key ++ "' route value"

def referenceModifiers : List String := ["ref", "out", "in"]

/-- The first obstacle, none if the parameter can be repeated. -/
def obstacle? (p : Parameter) : Option Obstacle :=
  match p.type? with
  | none => some .noType
  | some type =>
    if p.name == "__arglist" then some .noType
    else if type.toList.contains '*' then some (.pointer type)
    else
      match referenceModifiers.find? p.modifiers.contains with
      | some modifier => some (.byReference modifier)
      | none =>
        if isIdentityKey p.routeKey then some (.identityKey (Unicode.toLower p.routeKey)) else none

end Parameter

end RouteLinks
