import RouteLinks.Source.BaseList
import RouteLinks.Source.Head
import RouteLinks.Source.ParameterList
import RouteLinks.Source.Unit
/-!
# Reading a source

The declarations of a source are found in its syntax tree: those of the file and its namespaces are
classes, those of a class are methods, constructors and classes. Whatever else there is, such as
other types, bodies and code that a directive makes conditional, is not entered.
-/

namespace RouteLinks.Source

/-- A source being read, with the name under which its declarations are recorded. -/
structure Reading where
  bytes : Bytes
  filePath : String

/-- The namespaces and classes around a declaration, and the directives in force. -/
structure Context where
  scope : String := ""
  usings : List String := []
  owner : Option String := none
  deriving DecidableEq, Repr

namespace Reading

variable (r : Reading)

/-- The place and text of a declaration. -/
def unit (c : Context) (n : SyntaxNode) (head : UnitHead) (name signature : String) :
    SourceUnit where
  head
  name
  qualifiedName := qualify c.scope (qualify (c.owner.getD "") name)
  scope := c.scope
  owner := c.owner
  filePath := r.filePath
  startLine := n.info.startRow + 1
  endLine := n.info.endRow + 1
  startByte := n.start
  text := n.text r.bytes
  signature

def classHead (c : Context) (n : SyntaxNode) : ClassHead where
  modifiers := modifiersOf r.bytes n
  attributes := attributesOf r.bytes n
  base := (divideBases (basesOf r.bytes n)).1
  interfaces := (divideBases (basesOf r.bytes n)).2
  typeParameters := typeParameterNames r.bytes (n.child? "type_parameter_list")
  usings := c.usings
  hasError := n.info.hasError
  keywordAt := (n.child? "class").map (·.start)

def classUnit (c : Context) (n : SyntaxNode) (name : String) : SourceUnit :=
  r.unit c n (.ofClass (r.classHead c n)) name (classSignature (n.rawText r.bytes))

/-- The list that a field holds, or the first of its kind. -/
def listOf? (n : SyntaxNode) (field kind : String) : Option SyntaxNode :=
  (n.field? field).or (n.child? kind)

def returnType? (n : SyntaxNode) : Option SyntaxNode := (n.field? "returns").or (n.field? "type")

def methodHead (n : SyntaxNode) : MethodHead where
  modifiers := modifiersOf r.bytes n
  attributes := attributesOf r.bytes n
  returnType := (returnType? n).map (·.text r.bytes)
  returnTypeAt := (returnType? n).map (·.start)
  parameters := readParameters r.bytes (listOf? n "parameters" "parameter_list")
  typeParameters :=
    typeParameterNames r.bytes (listOf? n "type_parameters" "type_parameter_list")
  hasError := n.info.hasError

def methodUnit? (c : Context) (n : SyntaxNode) : Option SourceUnit :=
  (nameOf? r.bytes n).map fun name =>
    r.unit c n (.ofMethod (r.methodHead n)) name (memberSignature (n.rawText r.bytes))

def constructorHead (n : SyntaxNode) : ConstructorHead where
  modifiers := modifiersOf r.bytes n
  parameters := readParameters r.bytes (listOf? n "parameters" "parameter_list")

/-- A constructor; one without a name has that of its class. -/
def constructorUnit (c : Context) (n : SyntaxNode) : SourceUnit :=
  let className := String.ofList (Text.lastField '.' (c.owner.getD "").toList)
  r.unit c n (.ofConstructor (r.constructorHead n)) ((nameOf? r.bytes n).getD className)
    (memberSignature (n.rawText r.bytes))

/-- A class and what is read in it, nothing if it has no name. -/
def classUnits (c : Context) (n : SyntaxNode) (members : Context → List SourceUnit) :
    List SourceUnit :=
  match nameOf? r.bytes n with
  | some name =>
    r.classUnit c n name :: members { c with owner := some (qualify (c.owner.getD "") name) }
  | none => []

/-- What a directive brings into scope. -/
def targets (n : SyntaxNode) : List String :=
  ((usingTarget? (n.rawText r.bytes)).filter (!·.isEmpty)).toList

/-- Inside of a namespace. -/
def within (c : Context) (n : SyntaxNode) : Context :=
  let name := ((n.field? "name").map (·.rawText r.bytes)).getD ""
  { c with scope := if c.scope.isEmpty then name else c.scope ++ "." ++ name }

/-- Behind a node: a directive, and a namespace without braces, hold for all that follows. -/
def behind (c : Context) (n : SyntaxNode) : Context :=
  if n.kind == "using_directive" then { c with usings := c.usings ++ r.targets n }
  else if n.kind == "file_scoped_namespace_declaration" then r.within c n
  else c

end Reading

mutual

def readMember (r : Reading) (c : Context) : SyntaxNode → List SourceUnit
  | .mk info children =>
    if info.kind == "method_declaration" then (r.methodUnit? c (.mk info children)).toList
    else if info.kind == "constructor_declaration" then [r.constructorUnit c (.mk info children)]
    else if info.kind == "class_declaration" then
      r.classUnits c (.mk info children) fun inner => readBody r inner children
    else []

def readMembers (r : Reading) (c : Context) : List SyntaxNode → List SourceUnit
  | [] => []
  | n :: rest => readMember r c n ++ readMembers r c rest

/-- The members in a body, if a node is one. -/
def bodyMembers? (r : Reading) (c : Context) : SyntaxNode → Option (List SourceUnit)
  | .mk info children =>
    if info.kind == "declaration_list" then some (readMembers r c children) else none

/-- The members of a class with some children. -/
def readBody (r : Reading) (c : Context) : List SyntaxNode → List SourceUnit
  | [] => []
  | n :: rest => (bodyMembers? r c n).getD (readBody r c rest)

end

mutual

def readItem (r : Reading) (c : Context) : SyntaxNode → List SourceUnit
  | .mk info children =>
    if info.kind == "namespace_declaration" ||
        info.kind == "file_scoped_namespace_declaration" then
      readItems r (r.within c (.mk info children)) children
    else if info.kind == "declaration_list" then readItems r c children
    else if info.kind == "class_declaration" then
      r.classUnits c (.mk info children) fun inner => readBody r inner children
    else []

/-- The declarations of a file or namespace. -/
def readItems (r : Reading) (c : Context) : List SyntaxNode → List SourceUnit
  | [] => []
  | n :: rest => readItem r c n ++ readItems r (r.behind c n) rest

end

/-- The namespaces that the directives of a file bring into scope, those in namespaces left out. -/
def readImports (r : Reading) (nodes : List SyntaxNode) : List String :=
  (nodes.filter (·.kind == "using_directive")).flatMap r.targets

/-- The number of lines. A line ends in a line feed, a carriage return, or both; a line end at the
very end begins no further line. -/
def lineCount : Bytes → Nat
  | [] => 0
  | bytes =>
    let rec ends : Bytes → Nat
      | [] => 0
      | 13 :: 10 :: rest => ends rest + 1
      | b :: rest => if b == 10 || b == 13 then ends rest + 1 else ends rest
    let last := bytes.getLast?
    if last == some 10 || last == some 13 then ends bytes else ends bytes + 1

/-- The problem of a file whose syntax is broken. -/
def syntaxErrors (filePath : String) (root : SyntaxNode) : List SourceError :=
  if root.info.hasError then
    [⟨filePath, (root.errorRow?.map (· + 1)).getD 0, "syntax errors in file", .warning⟩]
  else []

def read (g : Grammar) (bytes : Bytes) (filePath : String) : SourceFile :=
  let root := g bytes
  let r : Reading := { bytes, filePath }
  let imports := readImports r root.children
  { filePath
    units := (readItems r {} root.children).map fun u => { u with imports }
    imports
    lineCount := lineCount bytes
    errors := syntaxErrors filePath root
    content := bytes }

end RouteLinks.Source
