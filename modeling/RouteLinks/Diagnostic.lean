import RouteLinks.Text.Quoted
/-!
# Findings of a run

A class or method that is left out, or that gets another name than its own, is reported as a
finding; the run goes on. The text of a finding begins with the place in the source, where there is
one.
-/

namespace RouteLinks

/-- Why something was left out or altered. -/
inductive DiagnosticKind where
  | discovery
  | unsupportedParameter
  | unsupportedMethod
  | duplicateName
  deriving DecidableEq, Repr

/-- The name a finding's kind is printed with. -/
def DiagnosticKind.name : DiagnosticKind → String
  | .discovery => "discovery"
  | .unsupportedParameter => "unsupported_parameter"
  | .unsupportedMethod => "unsupported_method"
  | .duplicateName => "duplicate_name"

def DiagnosticKind.all : List DiagnosticKind :=
  [.discovery, .unsupportedParameter, .unsupportedMethod, .duplicateName]

def DiagnosticKind.ofName? (name : String) : Option DiagnosticKind :=
  all.find? (·.name == name)

/-- A finding about a class or a method. -/
structure Diagnostic where
  kind : DiagnosticKind
  subject : String
  message : String
  filePath : Option String := none
  line : Int := 0
  severity : String := "warning"
  deriving DecidableEq, Repr

/-- The line that is printed for a finding. A finding without a file, or with an empty file name,
has no place. -/
def Diagnostic.text (d : Diagnostic) : String :=
  let place :=
    match d.filePath with
    | some path => if path.isEmpty then "" else path ++ ":" ++ toString d.line ++ ": "
    | none => ""
  place ++ d.severity ++ " [" ++ d.kind.name ++ "] " ++ d.subject ++ ": " ++ d.message

/-- The complaint about a name that no member of an enumeration has. -/
def unknownNameMessage (name enumeration : String) : String :=
  Quoted.display name ++ " is not a valid " ++ enumeration

end RouteLinks
