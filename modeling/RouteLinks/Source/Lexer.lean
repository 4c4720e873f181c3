import RouteLinks.Source.LiteralLength
/-!
# Cutting a source into pieces

A source is cut, from its beginning, into pieces: blanks, comments, directives, words, literals and
symbols. `pieces` loses nothing, the pieces together are the source. The kind and length of the
first piece depend on the text that follows alone.
-/

namespace RouteLinks.Source

/-- What a piece of source is. -/
inductive PieceKind where
  | blank
  | comment
  | directive
  | word
  | literal
  | symbol
  deriving DecidableEq, Repr

/-- A piece of source, with its bytes as characters. -/
structure Piece where
  kind : PieceKind
  start : Nat
  chars : List Char
  deriving DecidableEq, Repr

def Piece.span (p : Piece) : Span := ⟨p.start, p.start + p.chars.length⟩

/-- The length of the white space character at the beginning, zero if there is none. -/
def blankLength (cs : List Char) : Nat :=
  match (cs.take 3).map Char.toNat with
  | 0xC2 :: 0x85 :: _ | 0xC2 :: 0xA0 :: _ => 2
  | 0xE1 :: 0x9A :: 0x80 :: _ | 0xE2 :: 0x81 :: 0x9F :: _ | 0xE3 :: 0x80 :: 0x80 :: _ => 3
  | 0xEF :: 0xBB :: 0xBF :: _ => 3
  | 0xE2 :: 0x80 :: n :: _ =>
    if (0x80 ≤ n && n ≤ 0x8A) || n == 0xA8 || n == 0xA9 || n == 0xAF then 3 else 0
  | n :: _ => if (9 ≤ n && n ≤ 13) || n == 32 then 1 else 0
  | [] => 0

/-- The length of a comment after its opening, to the closing included. -/
def blockCommentLength : List Char → Nat
  | [] => 0
  | '*' :: '/' :: _ => 2
  | _ :: rest => blockCommentLength rest + 1

/-- The length of a word. Outside of ASCII every character but a blank belongs to words. -/
def wordLength : List Char → Nat
  | [] => 0
  | c :: rest =>
    if isWordChar c || c == '\\' then wordLength rest + 1
    else if 0x80 ≤ c.toNat && blankLength (c :: rest) == 0 then wordLength rest + 1
    else 0

def beginsWord : List Char → Bool
  | [] => false
  | c :: rest =>
    c.isAlpha || c == '_' || (0x80 ≤ c.toNat && blankLength (c :: rest) == 0) ||
      (c == '\\' && (rest.head? == some 'u' || rest.head? == some 'U'))

/-- The symbols of more than one character. Those that close type arguments twice are not among
them: a `>` stands alone unless it makes `>=`. -/
def longSymbols : List String :=
  ["??=", "<<=", "=>", "==", "!=", "<=", ">=", "&&", "||", "??", "++", "--", "+=", "-=", "*=", "/=",
    "%=", "&=", "|=", "^=", "->", "::", "..", "<<"]

def symbolLength (cs : List Char) : Nat :=
  match longSymbols.find? (·.toList.isPrefixOf cs) with
  | some s => s.length
  | none => 1

/-- The mark of a UTF-8 string literal. -/
def encodingSuffixLength (cs : List Char) : Nat :=
  if (cs.take 2).map Char.toLower == ['u', '8'] then 2 else 0

def firstPiece (cs : List Char) : PieceKind × Nat :=
  let blank := blankLength cs
  if blank != 0 then (.blank, blank)
  else
    match stringOpening? cs with
    | some (form, opening) =>
      let length := opening + stringLength form cs.length (cs.drop opening)
      (.literal, length + encodingSuffixLength (cs.drop length))
    | none =>
      match cs with
      | '/' :: '/' :: rest =>
        (.comment, 2 + (rest.takeWhile fun c => c != '\n' && c != '\r').length)
      | '/' :: '*' :: rest => (.comment, 2 + blockCommentLength rest)
      | '#' :: rest => (.directive, 1 + (rest.takeWhile (· != '\n')).length)
      | '\'' :: rest => (.literal, 1 + characterLength rest)
      | '@' :: rest => if beginsWord rest then (.word, 1 + wordLength rest) else (.symbol, 1)
      | '.' :: d :: rest =>
        if d.isDigit then (.literal, 1 + numberLength (d :: rest)) else (.symbol, symbolLength cs)
      | c :: _ =>
        if c.isDigit then (.literal, numberLength cs)
        else if beginsWord cs then (.word, wordLength cs)
        else (.symbol, symbolLength cs)
      | [] => (.blank, 0)

/-- The pieces of a text that begins at an offset. -/
def piecesFrom (offset : Nat) (fuel : Nat) (cs : List Char) : List Piece :=
  match fuel, cs with
  | 0, _ => []
  | _, [] => []
  | fuel + 1, cs =>
    let (kind, length) := firstPiece cs
    let (chars, rest) := cs.splitAt (max length 1)
    ⟨kind, offset, chars⟩ :: piecesFrom (offset + chars.length) fuel rest

def pieces (bytes : Bytes) : List Piece := piecesFrom 0 bytes.length (byteChars bytes)

/-- The name of a directive, without the sign and the blanks after it. -/
def directiveName (text : List Char) : String :=
  String.ofList (((text.drop 1).dropWhile fun c => c == ' ' || c == '\t').takeWhile Char.isAlpha)

def conditionals : List String := ["if", "elif", "else", "endif"]

/-- The token of a piece, none for pieces that are skipped. -/
def Piece.token? (p : Piece) : Option Token :=
  match p.kind with
  | .blank | .comment => none
  | .literal => some ⟨.literal, "", p.span⟩
  | .word => some ⟨.word, textOfChars p.chars, p.span⟩
  | .symbol => some ⟨.symbol, textOfChars p.chars, p.span⟩
  | .directive =>
    let name := directiveName p.chars
    if conditionals.contains name then some ⟨.directive, name, p.span⟩ else none

def commentSpans (ps : List Piece) : List Span :=
  (ps.filter (·.kind == .comment)).map (·.span)

end RouteLinks.Source
