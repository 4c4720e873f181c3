import RouteLinks.Links.Generation
import RouteLinks.Links.StaticFiles
import RouteLinks.Source.Collection
/-!
# Runs

A run writes what it makes: first the files beside the sources, then, when the static files have
been looked at, the file at the root, and last the edited sources. It stops at the first file that
cannot be written, so no source is touched unless everything generated is in its place. The file
system is a parameter; the one that is a tree shows what a run does without doing it.
-/

namespace RouteLinks

/-- Why a run stops. -/
inductive RunError where
  | cannotWrite (path : String)
  | missingSource (path : String)
  deriving DecidableEq, Repr

/-- What a run asks of the file system. -/
structure Storage (m : Type → Type) where
  /-- Brings a file to a content. False if that is not possible. -/
  write : String → Bytes → m Bool
  /-- The links to static files as they are now. -/
  staticLinks : m (Option Node)

/-- Writes files in order, up to the first that cannot be written. -/
def Storage.writeAll [Monad m] (store : Storage m) : List (String × Bytes) → ExceptT RunError m Unit
  | [] => pure ()
  | (path, content) :: rest => do
    if ← store.write path content then store.writeAll rest else throw (.cannotWrite path)

def GeneratedFile.output (f : GeneratedFile) : String × Bytes := (f.path, Utf8.encode f.text)

def SourceRewrite.output (r : SourceRewrite) : String × Bytes := (r.path, r.content)

/-- Makes all links and, if `writes`, writes them. -/
def Links.run [Monad m] (store : Storage m) (writes : Bool) (l : Links) :
    ExceptT RunError m Generation := do
  let write (files : List (String × Bytes)) : ExceptT RunError m Unit :=
    if writes then store.writeAll files else pure ()
  write (l.sourceFiles.map GeneratedFile.output)
  let staticLinks ← store.staticLinks
  write [(l.aggregateFile staticLinks).output]
  match l.rewrites with
  | .error path => throw (.missingSource path)
  | .ok rewrites =>
    if l.settings.rewritesSources then write (rewrites.map SourceRewrite.output)
    return l.generation staticLinks rewrites

/-- Brings a file of the tree at hand to a content. False if that is not possible. -/
def FileTree.writeFile (path : String) (content : Bytes) : StateM FileTree Bool := do
  let (t, done) := (← get).persist path content
  set t
  return done.isSome

def FileTree.storage (s : Settings) (projectRoot : String) : Storage (StateM FileTree) where
  write := FileTree.writeFile
  staticLinks := return StaticFiles.node? (← get) s projectRoot

def Model.ofProject (g : Grammar) (t : FileTree) (projectRoot : String) : Model :=
  Model.ofTree g ((t.directory? projectRoot).getD .empty)

/-- A run over a project in a tree: what came of it, and the tree after it. -/
def Links.runInTree (g : Grammar) (s : Settings) (projectRoot : String) (writes : Bool)
    (t : FileTree) : Except RunError Generation × FileTree :=
  let l : Links := ⟨s, Model.ofProject g t projectRoot, projectRoot⟩
  (l.run (FileTree.storage s projectRoot) writes).run.run t

end RouteLinks
