import RouteLinks.Text.Basic
import RouteLinks.Unicode.Word
/-!
# Canonical layout

The last two steps in making a file. `normalize` brings a text to a canonical layout: lines end in a
line feed, no line ends in blanks, at most one empty line in a row, none after an opening or before
a closing brace, one line end at the end; lines that switch warnings are dropped. `withPragmas` puts
what follows the leading comments between two such lines.
-/

namespace RouteLinks.Layout

/-- The text after a word and at least one blank. -/
def afterWord? (word : String) (cs : List Char) : Option (List Char) :=
  if word.toList.isPrefixOf cs then
    let rest := cs.drop word.toList.length
    match rest with
    | c :: _ => if Text.isBlank c then some (Text.trimStart rest) else none
    | [] => none
  else none

/-- Whether a text begins with a word that ends there. -/
def startsWithWord (word : String) (cs : List Char) : Bool :=
  word.toList.isPrefixOf cs &&
    match cs.drop word.toList.length with
    | c :: _ => !Unicode.isWord c
    | [] => true

/-- Whether a line switches warnings off or on again. -/
def isPragma (line : List Char) : Bool :=
  match (afterWord? "#pragma" (Text.trimStart line)).bind (afterWord? "warning") with
  | some rest => startsWithWord "disable" rest || startsWithWord "restore" rest
  | none => false

/-- Adds a line to the lines so far, the last of which comes first. -/
def addLine (above : List (List Char)) (line : List Char) : List (List Char) :=
  let line := Text.trimEnd line
  if isPragma line then above
  else if line.isEmpty then
    match above with
    | last :: _ => if last.isEmpty || last.getLast? == some '\x7b' then above else [] :: above
    | [] => above
  else if (Text.trimStart line).head? == some '\x7d' then line :: above.dropWhile List.isEmpty
  else line :: above

def joinLines : List (List Char) → List Char
  | [] => []
  | [line] => line
  | line :: rest => line ++ '\n' :: joinLines rest

def normalLines (text : List Char) : List (List Char) :=
  (((Text.fields '\n' (Text.unixEndings text)).foldl addLine []).dropWhile List.isEmpty).reverse

def normalize (text : String) : String :=
  String.ofList (joinLines (normalLines text.toList) ++ ['\n'])

/-- A line of the leading comments: a comment to the end of the line, or blank. -/
def isBanner (line : List Char) : Bool :=
  line.all Text.isBlank || "//".toList.isPrefixOf (Text.trimStart line)

/-- Wraps what follows the leading comments in a region without the given warnings. -/
def withPragmas (text : String) (codes : List String) : String :=
  if codes.isEmpty then text
  else
    let joined := (", ".intercalate codes).toList
    let lines := (Text.fields '\n' (Text.dropEndWhile (· == '\n') text.toList)).filter (!isPragma ·)
    let region :=
      ("#pragma warning disable ".toList ++ joined) :: lines.dropWhile isBanner ++
        ["#pragma warning restore ".toList ++ joined]
    String.ofList (joinLines (lines.takeWhile isBanner ++ region) ++ ['\n'])

end RouteLinks.Layout
