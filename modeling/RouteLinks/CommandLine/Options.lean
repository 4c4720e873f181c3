import RouteLinks.Text.Basic
/-!
# Options of the command line

Options are read from left to right. A long option can be shortened as long as it stays the only one
that begins so, and its value can follow an equals sign. Everything that is no option is refused,
but only at the end, so that a call for help before that is heard.
-/

namespace RouteLinks.CommandLine

/-- What a run is asked for. -/
structure Options where
  projectRoot : String := "."
  settingsFile : Option String := none
  /-- Whether each source gets a generated file of its own, where that is said. -/
  splitsFiles : Option Bool := none
  keepsSources : Bool := false
  isDryRun : Bool := false
  deriving DecidableEq, Repr

/-- An option. -/
inductive Flag where
  | help
  | projectRoot
  | config
  | split
  | noSplit
  | noRewrite
  | dryRun
  | logLevel
  deriving DecidableEq, Repr

def longNames : List (String × Flag) :=
  [("--help", .help), ("--project-root", .projectRoot), ("--config", .config), ("--split", .split),
    ("--no-split", .noSplit), ("--no-rewrite", .noRewrite), ("--dry-run", .dryRun),
    ("--log-level", .logLevel)]

def logLevels : List String := ["DEBUG", "INFO", "WARNING", "ERROR"]

/-- What an argument is. -/
inductive Argument where
  | option (flag : Flag) (value : Option String)
  /-- Neither an option nor like one. -/
  | word
  | unknown
  /-- Something that is refused at once. -/
  | wrong
  deriving DecidableEq, Repr

/-- Whether a text is a negative number, which is not taken for an option. -/
def isNegativeNumber (arg : String) : Bool :=
  match arg.toList with
  | '-' :: rest =>
    let whole := rest.takeWhile Char.isDigit
    match rest.drop whole.length with
    | [] => !whole.isEmpty
    | '.' :: part => !part.isEmpty && part.all Char.isDigit
    | _ => false
  | _ => false

def splitValue (arg : String) : String × Option String :=
  let cs := arg.toList
  let name := Text.firstField '=' cs
  match cs.drop name.length with
  | _ :: value => (String.ofList name, some (String.ofList value))
  | [] => (arg, none)

/-- An argument that begins like an option but names none. -/
def otherArgument (arg : String) : Argument :=
  if isNegativeNumber arg || arg.toList.contains ' ' then .word else .unknown

def Argument.ofString (arg : String) : Argument :=
  if !beginsWith arg "-" || arg == "-" then .word
  else if arg == "--" then .wrong
  else if beginsWith arg "--" then
    let (name, value) := splitValue arg
    match longNames.lookup arg, longNames.lookup name with
    | some flag, _ => .option flag none
    | none, some flag => .option flag value
    | none, none =>
      match longNames.filter fun (long, _) => beginsWith long name with
      | [] => otherArgument arg
      | [(_, flag)] => .option flag value
      | _ => .wrong
  else if beginsWith arg "-h" then
    match arg.toList.drop 2 with
    | ['='] => .wrong
    | '=' :: more | more => if more.all (· == 'h') then .option .help none else .wrong
  else otherArgument arg

/-- What comes of the arguments. -/
inductive Request where
  | run (options : Options)
  | help
  | refused
  deriving DecidableEq, Repr

def Flag.takesValue : Flag → Bool
  | .projectRoot | .config | .logLevel => true
  | _ => false

/-- Options with one more that has a value. None if the value is not allowed. -/
def Options.withValue? (o : Options) (flag : Flag) (value : String) : Option Options :=
  match flag with
  | .projectRoot => some { o with projectRoot := value }
  | .config => some { o with settingsFile := some value }
  | .logLevel => if logLevels.contains value then some o else none
  | _ => none

/-- Options with one more that has no value. None if it contradicts an earlier one. -/
def Options.with? (o : Options) (flag : Flag) : Option Options :=
  match flag with
  | .split => if o.splitsFiles == some false then none else some { o with splitsFiles := some true }
  | .noSplit =>
    if o.splitsFiles == some true then none else some { o with splitsFiles := some false }
  | .noRewrite => some { o with keepsSources := true }
  | .dryRun => some { o with isDryRun := true }
  | _ => none

/-- Reads arguments; `strays` says whether one was met that is no option. -/
def Options.read (o : Options) (strays : Bool) : List String → Request
  | [] => if strays then .refused else .run o
  | arg :: rest =>
    match Argument.ofString arg with
    | .word | .unknown => o.read true rest
    | .wrong => .refused
    | .option .help none => .help
    | .option flag none =>
      if flag.takesValue then
        match rest with
        | value :: rest =>
          if Argument.ofString value == .word then
            match o.withValue? flag value with
            | some o => o.read strays rest
            | none => .refused
          else .refused
        | [] => .refused
      else
        match o.with? flag with
        | some o => o.read strays rest
        | none => .refused
    | .option flag (some value) =>
      match o.withValue? flag value with
      | some o => o.read strays rest
      | none => .refused

def Request.ofArguments (args : List String) : Request := ({} : Options).read false args

end RouteLinks.CommandLine
