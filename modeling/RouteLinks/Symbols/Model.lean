import RouteLinks.Source.Reader
import RouteLinks.Symbols.Class
/-!
# The model of a program

The classes of a program in the order in which they are first met, each under its qualified name,
together with the sources they come from. Declarations of one qualified name are merged into one
class.
-/

namespace RouteLinks

/-- The classes and sources of a program. -/
structure Model where
  classes : List Class := []
  sources : List (String × Bytes) := []

/-- The qualified name of the class that a member belongs to. -/
def SourceUnit.ownerName? (u : SourceUnit) : Option String := u.owner.map (qualify u.scope)

/-- The method that a declaration is, if it is one. -/
def SourceUnit.method? (u : SourceUnit) : Option Method :=
  match u.head, u.ownerName? with
  | .ofMethod h, some owner =>
    some
      { name := u.name
        containingClass := owner
        filePath := u.filePath
        returnType := h.returnType
        parameters := h.parameters
        modifiers := h.modifiers
        attributes := h.attributes
        typeParameters := h.typeParameters
        startLine := u.startLine
        returnTypeAt := h.returnTypeAt
        hasError := h.hasError }
  | _, _ => none

def SourceUnit.isConstructor (u : SourceUnit) : Bool :=
  match u.head with
  | .ofConstructor _ => true
  | _ => false

/-- The class that a declaration is, with the methods and constructors that its file has for it. -/
def SourceUnit.class? (units : List SourceUnit) (u : SourceUnit) : Option Class :=
  match u.head with
  | .ofClass h =>
    some
      { name := qualify (u.owner.getD "") u.name
        scope := u.scope
        filePath := u.filePath
        modifiers := h.modifiers
        attributes := h.attributes
        base := h.base
        interfaces := h.interfaces
        typeParameters := h.typeParameters
        usings := mergeUnique u.imports h.usings
        methods :=
          (units.filterMap SourceUnit.method?).filter (·.containingClass == u.qualifiedName)
        hasConstructors :=
          units.any fun v => v.isConstructor && v.ownerName? == some u.qualifiedName
        isNested := u.owner.isSome
        hasError := h.hasError
        startLine := u.startLine
        partialAt := if h.modifiers.contains "partial" then none else h.keywordAt
        declarationFiles := [u.filePath] }
  | _ => none

namespace Model

/-- Adds a declaration to the class of its qualified name, or as a new class at the end. -/
def addClass (c : Class) : List Class → List Class
  | [] => [c]
  | d :: rest =>
    if d.qualifiedName == c.qualifiedName then d.merge c :: rest else d :: addClass c rest

def addFile (classes : List Class) (file : SourceFile) : List Class :=
  (file.units.filterMap (SourceUnit.class? file.units)).foldl (fun cs c => addClass c cs) classes

/-- The model of some files, in their order. -/
def ofFiles (files : List SourceFile) : Model :=
  { classes := files.foldl addFile []
    sources := files.foldl (fun sources f => upsert f.filePath (fun _ => f.content) sources) [] }

/-- The model of sources given by their paths; they are taken in the order of the paths. -/
def ofSources (g : Grammar) (sources : List (String × Bytes)) : Model :=
  let ordered := sortBy (fun a b => precedes a.1 b.1) sources
  ofFiles (ordered.map fun (path, bytes) => Source.read g bytes path)

def find? (m : Model) (qualifiedName : String) : Option Class :=
  m.classes.find? (·.qualifiedName == qualifiedName)

end Model

end RouteLinks
