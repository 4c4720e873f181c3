import RouteLinks.Files.Tree
import RouteLinks.Settings.Basic
import RouteLinks.Settings.Json
import RouteLinks.Settings.Yaml
/-!
# Settings of a project

The settings of a project stand in a file at its root, or in a file that is named. Without a file
everything has its default. What the caller overrides is put in place of what the file says, after
the file has been found to be in order by itself.
-/

namespace RouteLinks

/-- Why a project has no settings. -/
inductive SettingsError where
  | notFound (path : String)
  | unreadable (path : String)
  | notMapping (path : String)
  | invalid (problems : List Problem)
  deriving DecidableEq, Repr

/-- The wording of an error, where it is about the file as a whole. -/
def SettingsError.message : SettingsError → String
  | .notFound path => "Settings file not found: " ++ path
  | .unreadable path => "Cannot read settings file " ++ path
  | .notMapping path => "Settings file " ++ path ++ " must contain a mapping"
  | .invalid _ => "Invalid settings"

namespace Settings

def fileNames : List String := ["linkforge.json", "linkforge.yaml", "linkforge.yml"]

def findFile? (t : FileTree) (projectRoot : String) : Option String :=
  (fileNames.map (Path.inside projectRoot)).find? fun path => (t.read? path).isSome

/-- Whether a file is read as JSON. A name that is an extension and nothing else is not. -/
def isJson (path : String) : Bool :=
  endsWith (Path.baseName path) ".json" && Path.baseName path != ".json"

/-- Every line ends in a line feed, and there is no mark of the byte order. -/
def cleaned (text : String) : List Char :=
  let cs := match text.toList with
    | c :: rest => if c.toNat == 0xFEFF then rest else c :: rest
    | [] => []
  Text.unixEndings cs

def document? (path : String) (content : Bytes) : Option Document :=
  (Utf8.decode? content).bind fun text =>
    if isJson path then Json.read? (cleaned text) else Yaml.read? (cleaned text)

/-- The settings that a file holds; an empty document sets nothing. -/
def ofFile (r : ValueReader) (path : String) (content : Bytes) : Except SettingsError Settings :=
  match document? path content with
  | none => .error (.unreadable path)
  | some .null => .ok {}
  | some (.mapping entries) => (ofEntries r entries).mapError .invalid
  | some _ => .error (.notMapping path)

def load (r : ValueReader) (t : FileTree) (projectRoot : String) (named : Option String)
    (overrides : List (String × Document)) : Except SettingsError Settings :=
  let present : Except SettingsError Settings :=
    match named with
    | some path =>
      match t.read? path with
      | some content => ofFile r (Path.tidy path) content
      | none => .error (.notFound path)
    | none =>
      match findFile? t projectRoot with
      | some path => ofFile r path ((t.read? path).getD [])
      | none => .ok {}
  present.bind fun s => (s.withOverrides r overrides).mapError .invalid

end Settings

end RouteLinks
