import RouteLinks.Text.Basic
import RouteLinks.Unicode.Word
/-!
# Areas and route names

A controller is known to routing by its class name without the suffix, and by the area that its
namespace names: the word between a segment `Areas` and a segment that begins with `Controllers` or
`Handlers`. Any character but a line feed may separate the segments.
-/

namespace RouteLinks

def controllerSuffix : String := "Controller"

/-- The name of a controller in routes: the suffix is dropped once, unless nothing else is there. -/
def routeName (className : String) : String :=
  if className == controllerSuffix then className else dropEnding className controllerSuffix

namespace Area

/-- A character that may stand between two segments. -/
def isSeparator (c : Char) : Bool := c != '\n'

def endsHere : List Char → Bool
  | c :: rest =>
    isSeparator c && ("Controllers".toList.isPrefixOf rest || "Handlers".toList.isPrefixOf rest)
  | [] => false

/-- The longest word at the start of the text that is followed by the end of an area. -/
def word? : List Char → Option (List Char)
  | [] => none
  | c :: rest =>
    if Unicode.isWord c then
      match word? rest with
      | some more => some (c :: more)
      | none => if endsHere rest then some [c] else none
    else none

/-- The text after `Areas` and the separators around it, if it is here. -/
def afterMarker? : List Char → Option (List Char)
  | c :: rest =>
    if isSeparator c && "Areas".toList.isPrefixOf rest then
      match rest.drop 5 with
      | d :: tail => if isSeparator d then some tail else none
      | [] => none
    else none
  | [] => none

def find? : List Char → Option (List Char)
  | [] => none
  | c :: rest =>
    match (afterMarker? (c :: rest)).bind word? with
    | some area => some area
    | none => find? rest

/-- The area of a namespace, empty if it has none. -/
def ofNamespace (name : String) : String :=
  String.ofList ((find? name.toList).getD [])

end Area

end RouteLinks
