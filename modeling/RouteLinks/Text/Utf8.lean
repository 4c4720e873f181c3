/-!
# UTF-8

Sources and files are lists of bytes. Decoding yields one entry for each character and one for each
maximal ill-formed sequence, so that the strict reading and the reading that puts U+FFFD for what is
ill-formed are two views of the same list.
-/

namespace RouteLinks

/-- The content of a file. -/
abbrev Bytes := List UInt8

namespace Utf8

def encode (s : String) : Bytes := s.toList.flatMap String.utf8EncodeChar

/-- A sequence that has begun: the bits read so far, how many bytes are missing, and the bounds of
the next one. -/
structure Pending where
  bits : Nat
  missing : Nat
  low : UInt8
  high : UInt8

/-- What a byte means at the beginning of a character. -/
inductive Start where
  | ascii (c : Char)
  | lead (p : Pending)
  | illFormed

/-- The bounds of the second byte rule out overlong forms, surrogates and values above U+10FFFF. -/
def start (b : UInt8) : Start :=
  if b < 0x80 then .ascii (Char.ofNat b.toNat)
  else if 0xC2 ≤ b && b ≤ 0xDF then .lead ⟨b.toNat - 0xC0, 1, 0x80, 0xBF⟩
  else if b == 0xE0 then .lead ⟨0, 2, 0xA0, 0xBF⟩
  else if b == 0xED then .lead ⟨0xD, 2, 0x80, 0x9F⟩
  else if 0xE1 ≤ b && b ≤ 0xEF then .lead ⟨b.toNat - 0xE0, 2, 0x80, 0xBF⟩
  else if b == 0xF0 then .lead ⟨0, 3, 0x90, 0xBF⟩
  else if 0xF1 ≤ b && b ≤ 0xF3 then .lead ⟨b.toNat - 0xF0, 3, 0x80, 0xBF⟩
  else if b == 0xF4 then .lead ⟨4, 3, 0x80, 0x8F⟩
  else .illFormed

/-- The characters of a byte sequence, `none` for each maximal ill-formed part. -/
def scan (pending : Option Pending) : Bytes → List (Option Char)
  | [] => if pending.isSome then [none] else []
  | b :: rest =>
    let fresh : List (Option Char) :=
      match start b with
      | .ascii c => some c :: scan none rest
      | .lead p => scan (some p) rest
      | .illFormed => none :: scan none rest
    match pending with
    | none => fresh
    | some p =>
      if p.low ≤ b && b ≤ p.high then
        let bits := p.bits * 64 + (b.toNat - 0x80)
        if p.missing ≤ 1 then some (Char.ofNat bits) :: scan none rest
        else scan (some ⟨bits, p.missing - 1, 0x80, 0xBF⟩) rest
      else none :: fresh

/-- The text, if all of it is well-formed. -/
def decode? (bytes : Bytes) : Option String :=
  ((scan none bytes).mapM id).map String.ofList

/-- The text with U+FFFD for each maximal ill-formed part. -/
def decodeLossy (bytes : Bytes) : String :=
  String.ofList ((scan none bytes).map (·.getD (Char.ofNat 0xFFFD)))

end Utf8

/-- The bytes from `start` up to `stop`. -/
def slice (bytes : Bytes) (start stop : Nat) : Bytes := (bytes.drop start).take (stop - start)

def sliceText (bytes : Bytes) (start stop : Nat) : String :=
  Utf8.decodeLossy (slice bytes start stop)

end RouteLinks
