/-!
# Places in YAML

Structure in YAML comes from columns, so reading goes along with a cursor that knows line and
column. A tab is not white space between tokens.
-/

namespace RouteLinks.Yaml

/-- The rest of a text, and where it begins. -/
structure Cursor where
  rest : List Char
  column : Nat
  line : Nat

/-- Goes over blanks, comments and line ends. -/
def skipFrom (inComment : Bool) (column line : Nat) : List Char → Cursor
  | [] => ⟨[], column, line⟩
  | c :: rest =>
    if c == '\n' then skipFrom false 0 (line + 1) rest
    else if inComment || c == ' ' then skipFrom inComment (column + 1) line rest
    else if c == '#' then skipFrom true (column + 1) line rest
    else ⟨c :: rest, column, line⟩

namespace Cursor

def skip (c : Cursor) : Cursor := skipFrom false c.column c.line c.rest

def skipSpaces (c : Cursor) : Cursor :=
  let spaces := (c.rest.takeWhile (· == ' ')).length
  ⟨c.rest.drop spaces, c.column + spaces, c.line⟩

/-- The cursor after some characters of the same line. -/
def drop (c : Cursor) (n : Nat) : Cursor := ⟨c.rest.drop n, c.column + n, c.line⟩

end Cursor

def atGap : List Char → Bool
  | [] => true
  | c :: _ => c == ' ' || c == '\n' || c == '\t'

def isMarker (c : Cursor) (marker : String) : Bool :=
  c.column == 0 && marker.toList.isPrefixOf c.rest && atGap (c.rest.drop 3)

/-- Whether a document ends or begins here. -/
def atMarker (c : Cursor) : Bool := isMarker c "---" || isMarker c "..."

/-- A cursor after line ends and the blanks of the last line. -/
def nextLine (c : Cursor) : Cursor :=
  let ends := c.rest.takeWhile fun d => d == '\n' || d == ' '
  let blanks := (ends.reverse.takeWhile (· == ' ')).length
  if ends.contains '\n' then ⟨c.rest.drop ends.length, blanks, c.line + ends.count '\n'⟩
  else ⟨c.rest.drop ends.length, c.column + ends.length, c.line⟩

end RouteLinks.Yaml
