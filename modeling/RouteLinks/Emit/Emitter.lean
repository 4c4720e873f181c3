import RouteLinks.Text.Basic
/-!
# Indented writing

The emitter holds the text written so far and the current depth. Every line is indented by the
depth, except that a blank line stays empty; a piece of several lines keeps the indentation that its
lines have among themselves.
-/

namespace RouteLinks

/-- A text in the making. -/
structure Emitter where
  indentation : String := "    "
  depth : Nat := 0
  text : String := ""

namespace Emitter

def margin (e : Emitter) : String := "".intercalate (List.replicate e.depth e.indentation)

/-- Writes a line; of a blank line only its end. -/
def emit (e : Emitter) (code : String) : Emitter :=
  if code.toList.all Text.isBlank then { e with text := e.text ++ "\n" }
  else { e with text := e.text ++ e.margin ++ code ++ "\n" }

def emitLines (e : Emitter) (piece : String) : Emitter :=
  (splitAt '\n' piece).foldl emit e

def emitBlank (e : Emitter) (count : Nat) : Emitter :=
  { e with text := e.text ++ String.ofList (List.replicate count '\n') }

def indent (e : Emitter) : Emitter := { e with depth := e.depth + 1 }

/-- One level up; the outermost level is not left. -/
def dedent (e : Emitter) : Emitter := { e with depth := e.depth - 1 }

def openBlock (e : Emitter) (header : String) : Emitter := ((e.emit header).emit "\x7b").indent

def closeBlock (e : Emitter) : Emitter := e.dedent.emit "\x7d"

end Emitter

end RouteLinks
