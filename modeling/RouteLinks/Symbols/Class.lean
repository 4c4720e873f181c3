import RouteLinks.Symbols.Attribute
import RouteLinks.Symbols.Parameter
import RouteLinks.Order
/-!
# Methods and classes

The symbols of a program: what a method and a class are after all of their declarations have been
put together. They are built once and never changed.
-/

namespace RouteLinks

/-- The name and the parameter types of a method. Methods with equal signatures override one
another. -/
structure Signature where
  name : String
  types : List String
  deriving DecidableEq, Repr

/-- A method of a class. -/
structure Method where
  name : String
  /-- The qualified name of the class that declares it. -/
  containingClass : String
  filePath : String
  returnType : Option String := none
  parameters : List Parameter := []
  modifiers : List String := []
  attributes : List Attribute := []
  typeParameters : List String := []
  startLine : Int := 0
  /-- Where the return type stands in the source. -/
  returnTypeAt : Option Nat := none
  hasError : Bool := false
  deriving DecidableEq, Repr

namespace Method

def isPublic (m : Method) : Bool := m.modifiers.contains "public"

def isStatic (m : Method) : Bool := m.modifiers.contains "static"

def isGeneric (m : Method) : Bool := !m.typeParameters.isEmpty

/-- Whether a method can be overridden as it is declared. -/
def isOverridable (m : Method) : Bool :=
  ["virtual", "override", "abstract"].any m.modifiers.contains

/-- The signature of a method, with single spaces in its types. -/
def signature (m : Method) : Signature :=
  ⟨m.name, m.parameters.map fun p => singleSpaced (p.type.getD "")⟩

def hasAttribute (m : Method) (name : String) : Bool := m.attributes.any (Attribute.name · == name)

def findAttribute? (m : Method) (name : String) : Option Attribute :=
  m.attributes.find? (Attribute.name · == name)

end Method

/-- A class, all of its declarations together. -/
structure Class where
  name : String
  scope : String
  filePath : String
  modifiers : List String := []
  attributes : List Attribute := []
  base : Option String := none
  interfaces : List String := []
  typeParameters : List String := []
  usings : List String := []
  methods : List Method := []
  hasConstructors : Bool := false
  isNested : Bool := false
  hasError : Bool := false
  startLine : Int := 0
  /-- Where the keyword `class` stands, if the only declaration is not partial. -/
  partialAt : Option Nat := none
  declarationFiles : List String := []
  deriving DecidableEq, Repr

namespace Class

def qualifiedName (c : Class) : String := qualify c.scope c.name

def isPublic (c : Class) : Bool := c.modifiers.contains "public"

def isStatic (c : Class) : Bool := c.modifiers.contains "static"

def isAbstract (c : Class) : Bool := c.modifiers.contains "abstract"

def isSealed (c : Class) : Bool := c.modifiers.contains "sealed"

def isPartial (c : Class) : Bool := c.modifiers.contains "partial"

def isGeneric (c : Class) : Bool := !c.typeParameters.isEmpty

def hasAttribute (c : Class) (name : String) : Bool := c.attributes.any (Attribute.name · == name)

/-- The base as it is written, if one is. -/
def base? (c : Class) : Option String := c.base.filter (!·.isEmpty)

/-- Adds a further declaration of the same class. What is single stays as the first declaration has
it. -/
def merge (first other : Class) : Class :=
  { first with
    modifiers := mergeUnique first.modifiers other.modifiers
    attributes := first.attributes ++ other.attributes
    base := if first.base?.isSome then first.base else other.base
    interfaces := mergeUnique first.interfaces other.interfaces
    usings := mergeUnique first.usings other.usings
    methods := first.methods ++ other.methods
    hasConstructors := first.hasConstructors || other.hasConstructors
    hasError := first.hasError || other.hasError
    partialAt := none
    declarationFiles := mergeUnique first.declarationFiles other.declarationFiles }

end Class

end RouteLinks
