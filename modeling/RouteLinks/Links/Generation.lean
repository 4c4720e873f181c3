import RouteLinks.Files.Path
import RouteLinks.Links.Assembly
import RouteLinks.Links.Registry
import RouteLinks.Source.Selection
/-!
# Generation

All that a run makes of a model. The links to static files come from outside, so what does not
depend on them stands by itself: the files for single sources and the edited sources. Either every
declaration is in the file at the root of the project, or the declarations of the controllers of
each source are in a file beside that source.
-/

namespace RouteLinks

/-- A generated file. -/
structure GeneratedFile where
  path : String
  text : String
  isAggregate : Bool := false
  deriving DecidableEq, Repr

/-- A source after its edits. -/
structure SourceRewrite where
  path : String
  content : Bytes
  deriving DecidableEq, Repr

/-- All that a run makes. -/
structure Generation where
  controllers : List Controller
  files : List GeneratedFile
  rewrites : List SourceRewrite
  diagnostics : List Diagnostic
  registryFields : List String
  deriving DecidableEq, Repr

/-- What links are made from: settings, a model, and the directory of the project. -/
structure Links where
  settings : Settings
  model : Model
  projectRoot : String

namespace Links

def aggregateName : String := "Links.generated.cs"

def controllers (l : Links) : List Controller := Controller.all l.model

def registry (l : Links) : List RegistryEntry := Registry.entries l.settings l.controllers

/-- The declarations for a controller: its generated half and, if it can have instances, its
companion. -/
def declarations (l : Links) (c : Controller) : List Node :=
  let half := c.generatedHalf l.settings (Registry.fieldOf? l.registry c)
  if c.isAbstract then [half] else [half, c.companion]

def scopeMembers (l : Links) (scope : String) (cs : List Controller) : List Node :=
  let members := cs.flatMap l.declarations
  if scope.isEmpty then members
  else [(Node.scope scope [] members).addUsings (cs.flatMap Controller.usings)]

/-- The declarations for some controllers, by namespace. -/
def members (l : Links) (cs : List Controller) : List Node :=
  (groupBy Controller.scope cs).flatMap fun (scope, group) => l.scopeMembers scope group

def inProject (l : Links) (path : String) : String := Path.join l.projectRoot path

/-- The path of the file that is generated for a source. -/
def generatedPath (source : String) : String :=
  Path.withoutExtension source ++ Source.generatedSuffix

def bySource (l : Links) : List (String × List Controller) :=
  groupBy Controller.filePath l.controllers

def sourceFiles (l : Links) : List GeneratedFile :=
  if l.settings.splitsFiles then
    l.bySource.map fun (source, cs) =>
      { path := l.inProject (generatedPath source)
        text := (unitOf l.settings (l.members cs)).finish }
  else []

def aggregateFile (l : Links) (staticLinks : Option Node) : GeneratedFile :=
  let members := if l.settings.splitsFiles then [] else l.members l.controllers
  let unit := aggregateUnit l.settings members staticLinks (l.registry.map (·.declaration))
  { path := l.inProject aggregateName, text := unit.finish, isAggregate := true }

def edits (l : Links) : List (String × List SourceEdit) :=
  groupBy SourceEdit.filePath (l.controllers.flatMap (·.edits))

/-- The edited sources. The answer is the path of a source that is edited but not there, if there is
one. -/
def rewrites (l : Links) : Except String (List SourceRewrite) :=
  l.edits.mapM fun (path, edits) =>
    match l.model.sources.lookup path with
    | some content => .ok ⟨l.inProject path, SourceEdit.applyAll content edits⟩
    | none => .error path

/-- All findings: on classes, on methods, on names. -/
def diagnostics (l : Links) : List Diagnostic :=
  l.model.discoveryDiagnostics ++ l.controllers.flatMap (·.diagnostics) ++
    l.registry.filterMap (·.diagnostic?)

/-- All that a run makes, but for the edited sources, which are given. -/
def generation (l : Links) (staticLinks : Option Node) (rewrites : List SourceRewrite) :
    Generation :=
  { controllers := l.controllers
    files := l.sourceFiles ++ [l.aggregateFile staticLinks]
    rewrites
    diagnostics := l.diagnostics
    registryFields := l.registry.map (·.declaration) }

end Links

end RouteLinks
