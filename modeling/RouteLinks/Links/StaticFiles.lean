import RouteLinks.Files.Tree
import RouteLinks.Links.Override
import RouteLinks.Settings.Basic
import RouteLinks.Unicode.LetterCase
/-!
# Links to static files

The directory of the static files becomes a class, with a constant for each file and a class for
each directory in it. File names turn into identifiers, and as two names can give one identifier,
underscores are added until it is free in its class; the name of the class itself and the name of
the constant with its own address are not free.
-/

namespace RouteLinks

/-- A class of links: its name and address, a constant for each file, and the classes of its
directories. -/
inductive LinkClass where
  | mk (name url : String) (constants : List (String × String)) (classes : List LinkClass)
  deriving Inhabited

namespace LinkClass

/-- The constant with the address of a class itself. -/
def urlMember : String := "UrlPath"

def constantText (constant : String × String) : String :=
  "public const string " ++ constant.1 ++ " = " ++ Quoted.regular constant.2 ++ ";"

mutual

def toNode : LinkClass → Node
  | .mk name url constants classes =>
    .type name ["public", "static", "partial"] [] [generatedMark]
      (((urlMember, url) :: constants).map (fun c => Node.raw (constantText c)) ++ toNodes classes)

def toNodes : List LinkClass → List Node
  | [] => []
  | c :: rest => toNode c :: toNodes rest

end

end LinkClass

namespace StaticFiles

/-- The first free name of a name and what comes of it by adding underscores. Of `fuel + 1`
different names one is free if `fuel` names are taken. -/
def freeName (taken : List String) (name : String) : Nat → String
  | 0 => name
  | fuel + 1 => if taken.contains name then freeName taken (name ++ "_") fuel else name

/-- The identifier of an entry in a class where some names are taken. -/
def identifier (taken : List String) (name : String) : String :=
  freeName taken (Identifier.ofName name) taken.length

def isExcluded (excluded : List String) (name : String) : Bool :=
  excluded.contains (Unicode.toLower (Path.extension name))

def isHidden (name : String) : Bool := beginsWith name "."

/-- The path of an entry below the directory of the static files. -/
def below (relative name : String) : String :=
  if relative.isEmpty then name else relative ++ "/" ++ name

def directoryUrl (relative : String) : String := if relative.isEmpty then "~" else "~/" ++ relative

/-- The constants for the files of a directory, and the names that are taken after that. -/
def constants (excluded : List String) (relative : String) (taken : List String) :
    List (String × FileTree) → List (String × String) × List String
  | [] => ([], taken)
  | (_, .directory _) :: rest => constants excluded relative taken rest
  | (name, .file _) :: rest =>
    if isExcluded excluded name then constants excluded relative taken rest
    else
      let member := identifier taken name
      let (more, taken) := constants excluded relative (member :: taken) rest
      ((member, "~/" ++ below relative name) :: more, taken)

mutual

/-- The class of a directory whose entries are in order. -/
def linkClass (excluded : List String) (name relative : String) : FileTree → LinkClass
  | .file _ => .mk name (directoryUrl relative) [] []
  | .directory entries =>
    let (links, taken) := constants excluded relative [name, LinkClass.urlMember] entries
    .mk name (directoryUrl relative) links (linkClasses excluded relative taken entries)

def linkClasses (excluded : List String) (relative : String) (taken : List String) :
    List (String × FileTree) → List LinkClass
  | [] => []
  | (name, entry) :: rest =>
    if entry.isDirectory && !isHidden name then
      let member := identifier taken name
      linkClass excluded member (below relative name) entry ::
        linkClasses excluded relative (member :: taken) rest
    else linkClasses excluded relative taken rest

end

/-- The name of the directory of the static files. The present directory has no name. -/
def rootName (path : String) : String := ((Path.parts path).getLast?).getD ""

/-- The links to the static files of a project, if there are to be any. -/
def links? (t : FileTree) (s : Settings) (projectRoot : String) : Option LinkClass :=
  if !s.linksStaticFiles then none
  else
    let path := Path.join projectRoot s.staticFilesPath
    (t.directory? path).map fun directory =>
      linkClass s.excludedExtensions (Identifier.ofName (rootName path)) "" directory.sorted

/-- The namespace of the links to static files. -/
def node? (t : FileTree) (s : Settings) (projectRoot : String) : Option Node :=
  (links? t s projectRoot).map fun links => .scope s.linksNamespace [] [links.toNode]

end StaticFiles

end RouteLinks
