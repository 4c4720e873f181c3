import RouteLinks.Text.Utf8
/-!
# Tokens of a source

A source is a list of bytes; a token is a stretch of it, known by its byte offsets. White space,
comments and the directives that hide nothing are not tokens.

For lexing, a byte stands as the character of the same number. Everything that tells tokens apart is
ASCII, so this loses nothing, and lengths of texts are numbers of bytes.
-/

namespace RouteLinks.Source

/-- A stretch of a source, from `start` up to `stop`. -/
structure Span where
  start : Nat
  stop : Nat
  deriving DecidableEq, Repr

def Span.within (inner outer : Span) : Bool := outer.start ≤ inner.start && inner.stop ≤ outer.stop

/-- The kinds of token. A directive is one of those that make code conditional. -/
inductive TokenKind where
  | word
  | literal
  | symbol
  | directive
  deriving DecidableEq, Repr

/-- A token. The text of a literal is not kept. -/
structure Token where
  kind : TokenKind
  text : String
  span : Span
  deriving DecidableEq, Repr

def Token.isSymbol (t : Token) (text : String) : Bool := t.kind == .symbol && t.text == text

/-- Whether a token is this word. A verbatim identifier keeps its mark and so is never a keyword. -/
def Token.isWord (t : Token) (text : String) : Bool := t.kind == .word && t.text == text

/-- The bytes of a source, each as the character of the same number. -/
def byteChars (bytes : Bytes) : List Char := bytes.map fun b => Char.ofNat b.toNat

/-- The text of bytes that are given as characters. -/
def textOfChars (cs : List Char) : String :=
  Utf8.decodeLossy (cs.map fun c => UInt8.ofNat c.toNat)

end RouteLinks.Source
