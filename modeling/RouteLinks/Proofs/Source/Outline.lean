import RouteLinks.Emit.Node
import RouteLinks.Source.Reader
import RouteLinks.Text.Identifier
import RouteLinks.Text.Quoted
/-!
# Outlines of programs

An outline is a program without anything in its methods: namespaces with braces, classes and methods
with their signatures. It says how the program is written as generated declarations, and which
declarations a reader has to find in it. Whatever is written by an outline is plain: its names are
ASCII identifiers that are no keywords, so that none needs a mark.
-/

namespace RouteLinks.Outline

def builtinTypes : List String :=
  ["bool", "byte", "char", "decimal", "double", "float", "int", "long", "object", "sbyte", "short",
    "string", "uint", "ulong", "ushort", "void"]

def modifierWords : List String :=
  ["abstract", "async", "const", "extern", "file", "fixed", "internal", "new", "override",
    "partial", "private", "protected", "public", "readonly", "required", "sealed", "static",
    "unsafe", "virtual", "volatile"]

/-- Words that are keywords in some places, and some that are reserved without being documented. -/
def contextualKeywords : List String :=
  ["add", "alias", "allows", "and", "args", "ascending", "async", "await", "by", "descending",
    "dynamic", "equals", "extension", "field", "file", "from", "get", "global", "group", "init",
    "into", "join", "let", "managed", "nameof", "nint", "not", "notnull", "nuint", "on", "or",
    "orderby", "partial", "record", "remove", "required", "scoped", "select", "set", "unmanaged",
    "value", "var", "when", "where", "with", "yield", "__arglist", "__makeref", "__reftype",
    "__refvalue"]

/-- An identifier that is no keyword anywhere. -/
structure Name where
  text : String
  isIdentifier : ∃ c rest, text.toList = c :: rest ∧ Identifier.isStart c = true ∧
    ∀ d ∈ rest, Identifier.isPart d = true
  notReserved : text ∉ Identifier.reserved
  notContextual : text ∉ contextualKeywords

/-- A keyword that is a type. -/
structure BuiltinType where
  text : String
  isBuiltin : text ∈ builtinTypes

/-! ### Types -/

mutual

/-- A type; the rank of an array is the number of its commas. -/
inductive TypeExpr where
  | builtin (w : BuiltinType)
  | named (n : TypeName)
  | array (element : TypeExpr) (rank : Nat)

/-- A dotted name, each part of which can have type arguments. -/
inductive TypeName where
  | last (name : Name) (arguments : TypeArguments)
  | dotted (name : Name) (arguments : TypeArguments) (rest : TypeName)

inductive TypeArguments where
  | none
  | some (types : TypeList)

/-- Some types, with any number of spaces after a comma. -/
inductive TypeList where
  | last (type : TypeExpr)
  | cons (type : TypeExpr) (spaces : Nat) (rest : TypeList)

end

mutual

def TypeExpr.text : TypeExpr → String
  | .builtin w => w.text
  | .named n => n.text
  | .array element rank => element.text ++ "[" ++ String.ofList (List.replicate rank ',') ++ "]"

def TypeName.text : TypeName → String
  | .last name arguments => name.text ++ arguments.text
  | .dotted name arguments rest => name.text ++ arguments.text ++ "." ++ rest.text

def TypeArguments.text : TypeArguments → String
  | .none => ""
  | .some types => "<" ++ types.text ++ ">"

def TypeList.text : TypeList → String
  | .last type => type.text
  | .cons type spaces rest =>
    type.text ++ "," ++ String.ofList (List.replicate spaces ' ') ++ rest.text

end

/-! ### Methods -/

inductive Passing where
  | byValue
  | byReference
  | output
  | input

def Passing.modifiers : Passing → List String
  | .byValue => []
  | .byReference => ["ref"]
  | .output => ["out"]
  | .input => ["in"]

/-- The default of a parameter: an integer, or a text of printable ASCII characters. -/
inductive Default where
  | number (n : Int)
  | string (s : String) (isPrintable : ∀ c ∈ s.toList, 32 ≤ c.toNat ∧ c.toNat < 127)

def Default.text : Default → String
  | .number n => toString n
  | .string s _ => Quoted.regular s

/-- A parameter that takes one argument. -/
structure PlainParameter where
  passing : Passing
  type : TypeExpr
  name : Name
  default : Option Default

def PlainParameter.parameter (p : PlainParameter) : Parameter :=
  { name := p.name.text
    type := some p.type.text
    default := p.default.map Default.text
    modifiers := p.passing.modifiers }

/-- A parameter that takes all further arguments, as an array. It has no default. -/
structure RestParameter where
  element : TypeExpr
  rank : Nat
  name : Name

def RestParameter.type (p : RestParameter) : TypeExpr := .array p.element p.rank

def RestParameter.parameter (p : RestParameter) : Parameter :=
  { name := p.name.text, type := some p.type.text, modifiers := ["params"] }

/-- The signature of a public method. -/
structure Method where
  returnType : TypeExpr
  name : Name
  parameters : List PlainParameter
  rest : Option RestParameter

namespace Method

def allParameters (m : Method) : List Parameter :=
  m.parameters.map PlainParameter.parameter ++ (m.rest.map RestParameter.parameter).toList

def signature (m : Method) : String :=
  "public " ++ m.returnType.text ++ " " ++ m.name.text ++ "(" ++
    ", ".intercalate (m.allParameters.map Parameter.render) ++ ")"

def node (m : Method) : Node := .method m.signature [] []

end Method

/-! ### Classes and namespaces -/

structure Modifier where
  text : String
  isModifier : text ∈ modifierWords

/-- A base that is not taken for an interface. -/
structure Base where
  type : TypeExpr
  isClass : Source.looksLikeInterface type.text = false

/-- What a class says before its members. -/
structure ClassHeader where
  modifiers : List Modifier
  name : Name
  base : Option Base

inductive Members where
  | done
  | method (m : Method) (rest : Members)
  | type (header : ClassHeader) (members : Members) (rest : Members)

/-- A name of one or more parts. -/
structure DottedName where
  first : Name
  more : List Name

def DottedName.text (n : DottedName) : String :=
  ".".intercalate ((n.first :: n.more).map Name.text)

/-- What stands in a file or in a namespace, in order. -/
inductive Items where
  | done
  | scope (name : DottedName) (items : Items) (rest : Items)
  | type (header : ClassHeader) (members : Members) (rest : Items)

def ClassHeader.node (h : ClassHeader) (members : List Node) : Node :=
  .type h.name.text (h.modifiers.map Modifier.text) (h.base.toList.map (·.type.text)) [] members

def Members.nodes : Members → List Node
  | .done => []
  | .method m rest => m.node :: rest.nodes
  | .type header members rest => header.node members.nodes :: rest.nodes

def Items.nodes : Items → List Node
  | .done => []
  | .scope name items rest => .scope name.text [] items.nodes :: rest.nodes
  | .type header members rest => header.node members.nodes :: rest.nodes

/-- The text of a file with these declarations. -/
def Items.render (items : Items) : String :=
  ({ members := items.nodes } : CompilationUnit).render

/-! ### What has to be found -/

/-- Where a declaration stands: the namespaces and the classes around it, the outermost first. -/
structure Place where
  spaces : List DottedName := []
  types : List Name := []

namespace Place

def scope (p : Place) : String := ".".intercalate (p.spaces.map DottedName.text)

def owner (p : Place) : Option String :=
  if p.types.isEmpty then none else some (".".intercalate (p.types.map Name.text))

def qualifiedName (p : Place) (name : Name) : String :=
  ".".intercalate (p.spaces.map DottedName.text ++ (p.types ++ [name]).map Name.text)

/-- The declaration of a name at a place. -/
def unit (p : Place) (filePath : String) (head : UnitHead) (name : Name) : SourceUnit :=
  { head, name := name.text, qualifiedName := p.qualifiedName name, scope := p.scope
    owner := p.owner, filePath }

end Place

def Method.head (m : Method) : UnitHead :=
  .ofMethod { modifiers := ["public"], returnType := some m.returnType.text
              parameters := m.allParameters }

def ClassHeader.head (h : ClassHeader) : UnitHead :=
  .ofClass { modifiers := h.modifiers.map Modifier.text, base := h.base.map (·.type.text) }

/-- The declarations of a class body, the ones of a nested class right after it. -/
def Members.units (filePath : String) (place : Place) : Members → List SourceUnit
  | .done => []
  | .method m rest => place.unit filePath m.head m.name :: rest.units filePath place
  | .type header members rest =>
    place.unit filePath header.head header.name ::
      members.units filePath { place with types := place.types ++ [header.name] } ++
        rest.units filePath place

/-- The declarations of a file or namespace, in the order in which they are written. -/
def Items.units (filePath : String) (place : Place) : Items → List SourceUnit
  | .done => []
  | .scope name items rest =>
    items.units filePath { place with spaces := place.spaces ++ [name] } ++
      rest.units filePath place
  | .type header members rest =>
    place.unit filePath header.head header.name ::
      members.units filePath { place with types := place.types ++ [header.name] } ++
        rest.units filePath place

end Outline

/-- The head of a declaration without the places of its parts. -/
def UnitHead.withoutPlaces : UnitHead → UnitHead
  | .ofClass h => .ofClass { h with keywordAt := none }
  | .ofMethod h => .ofMethod { h with returnTypeAt := none }
  | .ofConstructor h => .ofConstructor h

/-- What is declared, without where it stands and how it is written. -/
def SourceUnit.withoutPlaces (u : SourceUnit) : SourceUnit :=
  { u with head := u.head.withoutPlaces, startLine := 1, endLine := 1, startByte := 0, text := ""
           signature := "" }

end RouteLinks
