import RouteLinks.Text.Utf8
/-!
# Encodings

How a text becomes bytes. The two encodings with one byte for each character cover only the
characters whose numbers are small enough.
-/

namespace RouteLinks

/-- An encoding of texts. -/
inductive Encoding where
  | utf8
  | latin1
  | ascii
  deriving DecidableEq, Repr

namespace Encoding

def ofName? : String → Option Encoding
  | "utf-8" => some .utf8
  | "latin-1" => some .latin1
  | "ascii" => some .ascii
  | _ => none

/-- The bytes of characters that are numbers below a limit. -/
def narrow? (limit : Nat) (cs : List Char) : Option Bytes :=
  cs.mapM fun c => if c.toNat < limit then some (UInt8.ofNat c.toNat) else none

/-- The bytes of a text, none if it has a character that the encoding does not cover. -/
def encode? (e : Encoding) (s : String) : Option Bytes :=
  match e with
  | .utf8 => some (Utf8.encode s)
  | .latin1 => narrow? 0x100 s.toList
  | .ascii => narrow? 0x80 s.toList

end Encoding

end RouteLinks
