import RouteLinks.Symbols.Attribute
import RouteLinks.Symbols.Parameter
import RouteLinks.Text.Utf8
/-!
# Declarations of a source

What is read from a source: its classes, methods and constructors, in the order in which they stand,
each with its place and with what its head says. Offsets are byte offsets of the source as it was
read.
-/

namespace RouteLinks

/-- What the head of a class says. -/
structure ClassHead where
  modifiers : List String := []
  attributes : List Attribute := []
  base : Option String := none
  interfaces : List String := []
  typeParameters : List String := []
  usings : List String := []
  hasError : Bool := false
  /-- Where the keyword `class` stands. -/
  keywordAt : Option Nat := none
  deriving DecidableEq, Repr

/-- What the head of a method says. -/
structure MethodHead where
  modifiers : List String := []
  attributes : List Attribute := []
  returnType : Option String := none
  /-- Where the return type stands. -/
  returnTypeAt : Option Nat := none
  parameters : List Parameter := []
  typeParameters : List String := []
  hasError : Bool := false
  deriving DecidableEq, Repr

/-- What the head of a constructor says. -/
structure ConstructorHead where
  modifiers : List String := []
  parameters : List Parameter := []
  deriving DecidableEq, Repr

/-- The three kinds of declaration that are read. -/
inductive UnitHead where
  | ofClass (head : ClassHead)
  | ofMethod (head : MethodHead)
  | ofConstructor (head : ConstructorHead)
  deriving DecidableEq, Repr

/-- A declaration. `owner` is the class around it, with the classes around that. -/
structure SourceUnit where
  head : UnitHead
  name : String
  qualifiedName : String
  scope : String := ""
  owner : Option String := none
  filePath : String
  startLine : Int := 1
  endLine : Nat := 1
  startByte : Nat := 0
  text : String := ""
  signature : String := ""
  imports : List String := []
  deriving DecidableEq, Repr

/-- The gravity of a problem with a file. -/
inductive Severity where
  | warning
  | error
  deriving DecidableEq, Repr

def Severity.name : Severity → String
  | .warning => "warning"
  | .error => "error"

/-- A problem with a file: it could not be read, or its syntax is broken. -/
structure SourceError where
  filePath : String
  line : Nat
  message : String
  severity : Severity := .warning
  deriving DecidableEq, Repr

/-- What was read from one file. -/
structure SourceFile where
  filePath : String
  units : List SourceUnit
  imports : List String := []
  lineCount : Nat := 0
  errors : List SourceError := []
  content : Bytes := []
  deriving DecidableEq, Repr

end RouteLinks
