import RouteLinks.Settings.Document
import RouteLinks.Text.Identifier
import RouteLinks.Text.Basic
import RouteLinks.Unicode.LetterCase
/-!
# Settings

What can be set for a run, and what is accepted for each setting. A document is read setting by
setting; every problem is reported, in the order of the settings, and there are settings only if
there is no problem. Names are stored without the blanks around them, extensions in lower case with
their dot, so that settings that are written down and read again stay as they are.
-/

namespace RouteLinks

/-- What is set for a run. -/
structure Settings where
  /-- The class through which links are reached. -/
  namingPrefix : String := "MVC"
  /-- The namespace of what all generated code shares. -/
  targetNamespace : String := "LinkForge"
  /-- Whether each source with controllers gets a generated file of its own. -/
  splitsFiles : Bool := false
  /-- Whether the sources are edited. -/
  rewritesSources : Bool := true
  /-- Whether static files get links. -/
  linksStaticFiles : Bool := true
  /-- The directory of the static files. -/
  staticFilesPath : String := "wwwroot"
  /-- The namespace of the links to static files. -/
  linksNamespace : String := "Links"
  /-- Extensions of static files that get no links. -/
  excludedExtensions : List String := []
  deriving DecidableEq, Repr

/-- One of the settings. -/
inductive Setting where
  | namingPrefix
  | targetNamespace
  | splitsFiles
  | rewritesSources
  | linksStaticFiles
  | staticFilesPath
  | linksNamespace
  | excludedExtensions
  deriving DecidableEq, Repr

namespace Setting

def all : List Setting :=
  [.namingPrefix, .targetNamespace, .splitsFiles, .rewritesSources, .linksStaticFiles,
    .staticFilesPath, .linksNamespace, .excludedExtensions]

def key : Setting → String
  | .namingPrefix => "namingPrefix"
  | .targetNamespace => "targetNamespace"
  | .splitsFiles => "splitIntoMultipleFiles"
  | .rewritesSources => "rewriteHandlerSources"
  | .linksStaticFiles => "generateStaticFiles"
  | .staticFilesPath => "staticFilesPath"
  | .linksNamespace => "linksNamespace"
  | .excludedExtensions => "excludedStaticFileExtensions"

/-- The other key of a setting, which counts where the first is not used. -/
def otherKey : Setting → String
  | .namingPrefix => "naming_prefix"
  | .targetNamespace => "target_namespace"
  | .splitsFiles => "split_into_multiple_files"
  | .rewritesSources => "rewrite_handler_sources"
  | .linksStaticFiles => "generate_static_files"
  | .staticFilesPath => "static_files_path"
  | .linksNamespace => "links_namespace"
  | .excludedExtensions => "excluded_static_file_extensions"

end Setting

/-- What is wrong with a value. -/
inductive Complaint where
  | notMapping
  | notText
  | notList
  /-- Neither a truth value nor something that could stand for one. -/
  | notTruthValue
  /-- A text or number that stands for no truth value. -/
  | unknownTruthValue
  | badIdentifier (text : String)
  | badNamespace (text : String)
  deriving DecidableEq, Repr

/-- The wording of a complaint about a name. -/
def Complaint.message? : Complaint → Option String
  | .badIdentifier text => some ("'" ++ text ++ "' is not a valid C# identifier")
  | .badNamespace text => some ("'" ++ text ++ "' is not a valid C# namespace")
  | _ => none

/-- What is wrong with a value, or with a member of it. -/
structure Fault where
  index : Option Nat := none
  complaint : Complaint
  deriving DecidableEq, Repr

/-- A complaint with its place: a key, and the position in a list. The whole document has no key. -/
structure Problem where
  key : Option String
  index : Option Nat := none
  complaint : Complaint
  deriving DecidableEq, Repr

def Fault.under (key : String) (f : Fault) : Problem := ⟨some key, f.index, f.complaint⟩

/-- What is left to the library that values are read with: which entry of a mapping stands for a
setting that has two keys, and which values can be taken for texts, truth values and lists of
texts. -/
structure ValueReader where
  /-- The value of a setting and the key it is found under. -/
  find? (key otherKey : String) (entries : List (String × Document)) : Option (String × Document)
  text? : Document → Except Complaint String
  truth? : Document → Except Complaint Bool
  texts? : Document → Except (List Fault) (List String)

/-- The first key counts before the other one, what is a text, a truth value or a list of texts is
read as it is, and what is refused has a fault. -/
structure ValueReader.IsFaithful (r : ValueReader) : Prop where
  find?_eq : ∀ key otherKey entries, r.find? key otherKey entries =
    ((Document.get? entries key).map fun value => (key, value)).or
      ((Document.get? entries otherKey).map fun value => (otherKey, value))
  text?_text : ∀ s, r.text? (.text s) = .ok s
  truth?_bool : ∀ b, r.truth? (.bool b) = .ok b
  texts?_list : ∀ ss : List String, r.texts? (.list (ss.map .text)) = .ok ss
  faults_ne_nil : ∀ d faults, r.texts? d = .error faults → faults ≠ []

/-! ### Names and extensions -/

/-- The text without the blanks around it, if that is a name of some kind. -/
def trimmedName? (isName : String → Bool) (complaint : String → Complaint) (s : String) :
    Except Complaint String :=
  if isName (trim s) then .ok (trim s) else .error (complaint (trim s))

/-- A part of a namespace; one line end may follow it. -/
def isNamespacePart (part : String) : Bool := Identifier.isIdentifier (dropEnding part "\n")

def isNamespace (s : String) : Bool := (splitAt '.' s).all isNamespacePart

/-- An extension with its dot, in lower case. -/
def extensionOf (s : String) : String :=
  if beginsWith s "." then Unicode.toLower s else "." ++ Unicode.toLower s

namespace Settings

section

variable (r : ValueReader)

def identifier? (value : Document) : Except Complaint String :=
  (r.text? value).bind (trimmedName? Identifier.isIdentifier .badIdentifier)

def namespace? (value : Document) : Except Complaint String :=
  (r.text? value).bind (trimmedName? isNamespace .badNamespace)

def extensions? (value : Document) : Except (List Fault) (List String) :=
  (r.texts? value).map (·.map extensionOf)

def single (check : Document → Except Complaint α) (value : Document) : Except (List Fault) α :=
  (check value).mapError fun complaint => [{ complaint }]

/-- Reads a setting; one that is not there has its default. -/
def read (entries : List (String × Document)) (s : Setting) (default : α)
    (check : Document → Except (List Fault) α) : Except (List Problem) α :=
  match r.find? s.key s.otherKey entries with
  | some (key, value) => (check value).mapError (·.map (Fault.under key))
  | none => .ok default

def problems : Except (List Problem) α → List Problem
  | .ok _ => []
  | .error found => found

/-- The settings that a mapping holds. Other keys do not count. -/
def ofEntries (entries : List (String × Document)) : Except (List Problem) Settings :=
  let default : Settings := {}
  let namingPrefix := read r entries .namingPrefix default.namingPrefix (single (identifier? r))
  let targetNamespace :=
    read r entries .targetNamespace default.targetNamespace (single (namespace? r))
  let splitsFiles := read r entries .splitsFiles default.splitsFiles (single r.truth?)
  let rewritesSources := read r entries .rewritesSources default.rewritesSources (single r.truth?)
  let linksStaticFiles :=
    read r entries .linksStaticFiles default.linksStaticFiles (single r.truth?)
  let staticFilesPath := read r entries .staticFilesPath default.staticFilesPath (single r.text?)
  let linksNamespace :=
    read r entries .linksNamespace default.linksNamespace (single (namespace? r))
  let excludedExtensions :=
    read r entries .excludedExtensions default.excludedExtensions (extensions? r)
  match namingPrefix, targetNamespace, splitsFiles, rewritesSources, linksStaticFiles,
      staticFilesPath, linksNamespace, excludedExtensions with
  | .ok namingPrefix, .ok targetNamespace, .ok splitsFiles, .ok rewritesSources,
      .ok linksStaticFiles, .ok staticFilesPath, .ok linksNamespace, .ok excludedExtensions =>
    .ok
      { namingPrefix, targetNamespace, splitsFiles, rewritesSources, linksStaticFiles
        staticFilesPath, linksNamespace, excludedExtensions }
  | _, _, _, _, _, _, _, _ =>
    .error
      (problems namingPrefix ++ problems targetNamespace ++ problems splitsFiles ++
        problems rewritesSources ++ problems linksStaticFiles ++ problems staticFilesPath ++
        problems linksNamespace ++ problems excludedExtensions)

def ofDocument : Document → Except (List Problem) Settings
  | .mapping entries => ofEntries r entries
  | _ => .error [⟨none, none, .notMapping⟩]

end

/-- The value of a setting, as a document has it. -/
def valueOf (s : Settings) : Setting → Document
  | .namingPrefix => .text s.namingPrefix
  | .targetNamespace => .text s.targetNamespace
  | .splitsFiles => .bool s.splitsFiles
  | .rewritesSources => .bool s.rewritesSources
  | .linksStaticFiles => .bool s.linksStaticFiles
  | .staticFilesPath => .text s.staticFilesPath
  | .linksNamespace => .text s.linksNamespace
  | .excludedExtensions => .list (s.excludedExtensions.map Document.text)

def toEntries (s : Settings) : List (String × Document) :=
  Setting.all.map fun setting => (setting.otherKey, s.valueOf setting)

def overrideKey (key : String) : String :=
  match Setting.all.find? (·.key == key) with
  | some setting => setting.otherKey
  | none => key

/-- Settings in which some values are replaced. They are read once more as a whole. -/
def withOverrides (r : ValueReader) (s : Settings) (overrides : List (String × Document)) :
    Except (List Problem) Settings :=
  if overrides.isEmpty then .ok s
  else
    ofEntries r
      (overrides.foldl
        (fun entries (key, value) => upsert (overrideKey key) (fun _ => value) entries) s.toEntries)

end Settings

end RouteLinks
