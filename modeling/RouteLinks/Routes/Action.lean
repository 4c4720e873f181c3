import RouteLinks.Routes.Literal
import RouteLinks.Symbols.Class
/-!
# Actions

An action is a method of a controller that gets a link. Links to it are described by calling it:
arguments are bound as in a call, by position and then by name, and an optional parameter that is
left out takes the value of its default. What comes out is the descriptor that the generated
override returns for the same call.
-/

namespace RouteLinks

/-- A method that gets a link. -/
structure Action where
  method : Method
  /-- The name of its generated members, one of a kind within the controller. -/
  memberName : String
  /-- Its name in routes. -/
  routeName : String
  shape : ResultShape
  protocol : Option String := none
  overloadIndex : Nat := 0
  deriving DecidableEq, Repr

/-- Why a call does not describe a link. -/
inductive CallError where
  | tooManyArguments (method : String) (expected given : Nat)
  | unexpectedArgument (method name : String)
  | repeatedArgument (method name : String)
  | missingArgument (method name : String)
  /-- The name belongs to an argument that every description has. -/
  | reservedArgument (description name : String)
  | refusedValue (error : RouteValueError)
  /-- The default of a parameter has no value. -/
  | badDefault (error : Decimal.LimitError)
  | unknownMember (className member : String)
  deriving DecidableEq, Repr

/-- The message for a call that does not describe a link. -/
def CallError.message : CallError → String
  | .tooManyArguments method expected given =>
    method ++ "() takes " ++ toString expected ++ " arguments but " ++ toString given ++
      " were given"
  | .unexpectedArgument method name => method ++ "() got an unexpected argument '" ++ name ++ "'"
  | .repeatedArgument method name =>
    method ++ "() got multiple values for argument '" ++ name ++ "'"
  | .missingArgument method name => method ++ "() missing required argument '" ++ name ++ "'"
  | .reservedArgument description name =>
    description ++ ".describe() got multiple values for argument '" ++ name ++ "'"
  | .refusedValue error => error.message
  | .badDefault error => error.message
  | .unknownMember className member => className ++ " has no routed member '" ++ member ++ "'"

namespace Action

def name (a : Action) : String := a.method.name

def parameters (a : Action) : List Parameter := a.method.parameters

/-- The qualified name of the class that declares the action. -/
def declaringClass (a : Action) : String := a.method.containingClass

def returnType (a : Action) : String :=
  match a.method.returnType with
  | some type => if type.isEmpty then "void" else type
  | none => "void"

/-- Arguments by name; of two for one name the later counts. -/
abbrev Binding := List (String × RouteValue)

def Binding.find? (b : Binding) (name : String) : Option RouteValue := (b.reverse.lookup name)

def bindNamed (a : Action) (bound : Binding) :
    List (String × RouteValue) → Except CallError Binding
  | [] => .ok bound
  | (key, value) :: rest =>
    if !a.parameters.any (·.name == key) then .error (.unexpectedArgument a.name key)
    else if (Binding.find? bound key).isSome then .error (.repeatedArgument a.name key)
    else a.bindNamed (bound ++ [(key, value)]) rest

def argument (a : Action) (bound : Binding) (p : Parameter) : Except CallError RouteValue :=
  match Binding.find? bound p.name, p.default with
  | some value, _ => .ok value
  | none, some default => (Literal.value default).mapError .badDefault
  | none, none => .error (.missingArgument a.name p.name)

/-- Adds the values of parameters to a descriptor, in order. -/
def addArguments (a : Action) (bound : Binding) (d : Descriptor) :
    List Parameter → Except CallError Descriptor
  | [] => .ok d
  | p :: rest =>
    match a.argument bound p with
    | .error e => .error e
    | .ok value =>
      match d.add p.routeKey value with
      | .error e => .error (.refusedValue e)
      | .ok d => a.addArguments bound d rest

/-- The names of the arguments that a description of an action has in any case. -/
def reservedNames : List String := ["self", "area", "handler"]

/-- The descriptor that a call of the action stands for. -/
def describe (a : Action) (area controller : String) (args : List RouteValue)
    (named : List (String × RouteValue)) : Except CallError Descriptor :=
  match named.find? fun (key, _) => reservedNames.contains key with
  | some (key, _) => .error (.reservedArgument "RoutedMethod" key)
  | none =>
    if a.parameters.length < args.length then
      .error (.tooManyArguments a.name a.parameters.length args.length)
    else
      match a.bindNamed ((a.parameters.map (·.name)).zip args) named with
      | .error e => .error e
      | .ok bound =>
        a.addArguments bound
          (.ofIdentity a.shape.kind (some area) controller a.routeName a.protocol) a.parameters

end Action

end RouteLinks
