import RouteLinks.CommandLine.Options
import RouteLinks.Links.Run
import RouteLinks.Settings.Load
/-!
# Sessions

One call of the program: arguments are read, settings loaded, links made, and a summary comes out. A
project without usable settings, or a file that cannot be written, ends the session early and
without a summary.
-/

namespace RouteLinks.CommandLine

/-- How a session ends. -/
inductive Outcome where
  | refused
  | help
  | failed
  | done (summary : String)
  deriving DecidableEq, Repr

def Outcome.status : Outcome → Nat
  | .refused => 2
  | .help => 0
  | .failed => 1
  | .done _ => 0

/-- What a session asks of the machine it runs on. -/
structure Machine (m : Type → Type) where
  /-- The file system, at least as far as the given paths and what is below them. -/
  files : List String → m FileTree
  /-- Brings a file to a content. False if that is not possible. -/
  write : String → Bytes → m Bool
  workingDirectory : String

def Options.overrides (o : Options) : List (String × Document) :=
  (o.splitsFiles.map fun b => (Setting.splitsFiles.otherKey, Document.bool b)).toList ++
    if o.keepsSources then [(Setting.rewritesSources.otherKey, .bool false)] else []

/-- A path from the root, without steps up. -/
def absolute (workingDirectory path : String) : String :=
  "/" ++ "/".intercalate (Path.absoluteParts (Path.parts workingDirectory) path)

def relativeTo (directory path : String) : String :=
  Path.relative (Path.absoluteParts [] path) (Path.absoluteParts [] directory)

def diagnosticLines (diagnostics : List Diagnostic) : List String :=
  if diagnostics.isEmpty then []
  else
    "" :: ("  " ++ toString diagnostics.length ++ " diagnostics:") ::
      diagnostics.map fun d => "    " ++ d.text

def summary (projectRoot : String) (s : Settings) (g : Generation) : String :=
  let generated := g.files.map fun f => "  Generated:   " ++ relativeTo projectRoot f.path
  let rewritten :=
    if s.rewritesSources then
      g.rewrites.map fun r => "  Rewritten:   " ++ relativeTo projectRoot r.path
    else []
  let lines := ["", "  Controllers: " ++ toString g.controllers.length] ++ generated ++ rewritten ++
    diagnosticLines g.diagnostics ++ [""]
  String.join (lines.map (· ++ "\n"))

/-- A machine as the file system of a project. -/
def Machine.storage [Monad m] (machine : Machine m) (s : Settings) (projectRoot : String) :
    Storage m where
  write := machine.write
  staticLinks := do
    let t ← machine.files [Path.join projectRoot s.staticFilesPath]
    return StaticFiles.node? t s projectRoot

def make [Monad m] (g : Grammar) (r : ValueReader) (machine : Machine m) (o : Options) :
    m Outcome := do
  let projectRoot := absolute machine.workingDirectory o.projectRoot
  let named := o.settingsFile.map fun path =>
    if path.isEmpty then path else Path.join machine.workingDirectory path
  let t ← machine.files (projectRoot :: named.toList)
  match Settings.load r t projectRoot named o.overrides with
  | .error _ => return .failed
  | .ok s =>
    let links : Links := ⟨s, Model.ofProject g t projectRoot, projectRoot⟩
    match ← (links.run (machine.storage s projectRoot) (!o.isDryRun)).run with
    | .ok g => return .done (summary projectRoot s g)
    | .error _ => return .failed

def session [Monad m] (g : Grammar) (r : ValueReader) (machine : Machine m) (args : List String) :
    m Outcome :=
  match Request.ofArguments args with
  | .refused => return .refused
  | .help => return .help
  | .run o => make g r machine o

def treeMachine (workingDirectory : String) : Machine (StateM FileTree) where
  files _ := get
  write := FileTree.writeFile
  workingDirectory

end RouteLinks.CommandLine
