/-!
# Cutting and joining text

The operations on text that the rest of the library is written with. They work on lists of
characters, with a thin layer for strings, so that a statement about a text is a statement about a
list.

White space is the Unicode property together with the separators U+001C to U+001F; every operation
that trims, or splits at blanks, means these characters.
-/

namespace RouteLinks.Text

def isBlank (c : Char) : Bool :=
  let n := c.toNat
  (0x09 ≤ n && n ≤ 0x0D) || (0x1C ≤ n && n ≤ 0x20) || n == 0x85 || n == 0xA0 || n == 0x1680 ||
    (0x2000 ≤ n && n ≤ 0x200A) || n == 0x2028 || n == 0x2029 || n == 0x202F || n == 0x205F ||
    n == 0x3000

/-- Drops the longest end whose characters satisfy `p`. -/
def dropEndWhile (p : Char → Bool) (cs : List Char) : List Char :=
  (cs.reverse.dropWhile p).reverse

def trimStart (cs : List Char) : List Char := cs.dropWhile isBlank

def trimEnd (cs : List Char) : List Char := dropEndWhile isBlank cs

def trim (cs : List Char) : List Char := trimEnd (trimStart cs)

/-- The parts between the separators; `n` separators give `n + 1` parts. -/
def fields (separator : Char) : List Char → List (List Char)
  | [] => [[]]
  | c :: rest =>
    if c == separator then [] :: fields separator rest
    else
      match fields separator rest with
      | [] => [[c]]
      | first :: others => (c :: first) :: others

/-- The longest runs of characters that are not blank. -/
def words (cs : List Char) : List (List Char) :=
  let rec go (word : List Char) : List Char → List (List Char)
    | [] => if word.isEmpty then [] else [word.reverse]
    | c :: rest =>
      if isBlank c then
        if word.isEmpty then go [] rest else word.reverse :: go [] rest
      else go (c :: word) rest
  go [] cs

/-- The text without its blanks. -/
def squeeze (cs : List Char) : List Char := cs.filter fun c => !isBlank c

/-- Replaces every occurrence of `old`, from the left and without overlap. The counter says how many
characters of an occurrence are still to be skipped. -/
def replace (old new : List Char) (cs : List Char) : List Char :=
  let rec go (skip : Nat) : List Char → List Char
    | [] => []
    | c :: rest =>
      match skip with
      | n + 1 => go n rest
      | 0 => if old.isPrefixOf (c :: rest) then new ++ go (old.length - 1) rest else c :: go 0 rest
  if old.isEmpty then cs else go 0 cs

/-- Every line ends in a line feed. -/
def unixEndings : List Char → List Char
  | [] => []
  | '\r' :: '\n' :: rest => '\n' :: unixEndings rest
  | '\r' :: rest => '\n' :: unixEndings rest
  | c :: rest => c :: unixEndings rest

def lastField (separator : Char) (cs : List Char) : List Char :=
  ((fields separator cs).getLast?).getD []

def firstField (separator : Char) (cs : List Char) : List Char :=
  cs.takeWhile (· != separator)

end RouteLinks.Text

namespace RouteLinks

/-- A function on lists of characters, on strings. -/
def onChars (f : List Char → List Char) (s : String) : String := String.ofList (f s.toList)

def trim : String → String := onChars Text.trim

def splitAt (separator : Char) (s : String) : List String :=
  (Text.fields separator s.toList).map String.ofList

/-- The words of a string, one space between them. -/
def singleSpaced (s : String) : String :=
  " ".intercalate ((Text.words s.toList).map String.ofList)

def beginsWith (s start : String) : Bool := start.toList.isPrefixOf s.toList

def endsWith (s ending : String) : Bool := ending.toList.isSuffixOf s.toList

/-- A string without the ending, if it has it. -/
def dropEnding (s ending : String) : String :=
  if endsWith s ending then String.ofList (s.toList.take (s.toList.length - ending.toList.length))
  else s

/-- A dotted name, where an empty qualifier adds nothing. -/
def qualify (qualifier name : String) : String :=
  if qualifier.isEmpty then name else qualifier ++ "." ++ name

end RouteLinks
