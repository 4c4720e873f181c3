import RouteLinks.Decimal.Shortest
import RouteLinks.Routes.Literal
import RouteLinks.Settings.Document
/-!
# Documents in JSON

The whole text is one value. Besides what the format has, the numbers `NaN`, `Infinity` and
`-Infinity` are read. A string holds no control characters, and an escaped pair of surrogates is one
character.
-/

namespace RouteLinks.Json

def isSpace (c : Char) : Bool := c == ' ' || c == '\t' || c == '\n' || c == '\r'

/-- The text without white space at the beginning. -/
def skip (cs : List Char) : List Char := cs.dropWhile isSpace

def fourDigits? : List Char → Option (Nat × List Char)
  | a :: b :: c :: d :: rest =>
    if [a, b, c, d].all Literal.isHexDigit then some (Literal.number 16 [a, b, c, d], rest)
    else none
  | _ => none

def simpleEscape? : Char → Option Char
  | '"' => some '"'
  | '\\' => some '\\'
  | '/' => some '/'
  | 'b' => some (Char.ofNat 8)
  | 'f' => some (Char.ofNat 12)
  | 'n' => some '\n'
  | 'r' => some '\r'
  | 't' => some '\t'
  | _ => none

/-- The character of a code, which may be the first of a pair. A surrogate without its partner has
no character and becomes U+FFFD. -/
def codeEscape? (cs : List Char) : Option (Char × List Char) := do
  let (first, rest) ← fourDigits? cs
  if 0xD800 ≤ first && first ≤ 0xDBFF then
    match rest with
    | '\\' :: 'u' :: more =>
      match fourDigits? more with
      | some (second, after) =>
        if 0xDC00 ≤ second && second ≤ 0xDFFF then
          some (Char.ofNat (0x10000 + (first - 0xD800) * 0x400 + (second - 0xDC00)), after)
        else some (Char.ofNat 0xFFFD, rest)
      | none => some (Char.ofNat 0xFFFD, rest)
    | _ => some (Char.ofNat 0xFFFD, rest)
  else if 0xDC00 ≤ first && first ≤ 0xDFFF then some (Char.ofNat 0xFFFD, rest)
  else some (Char.ofNat first, rest)

def string? (fuel : Nat) (done : List Char) (cs : List Char) : Option (String × List Char) :=
  match fuel, cs with
  | fuel + 1, c :: rest =>
    if c == '"' then some (String.ofList done.reverse, rest)
    else if c.toNat < 0x20 then none
    else if c == '\\' then
      match rest with
      | 'u' :: more => do
        let (d, after) ← codeEscape? more
        string? fuel (d :: done) after
      | e :: more => do
        let d ← simpleEscape? e
        string? fuel (d :: done) more
      | [] => none
    else string? fuel (c :: done) rest
  | _, _ => none

/-- A number: no leading zeros, digits on both sides of a point, and digits in an exponent. What
does not belong to the number is left. A whole number must not have too many digits. -/
def number? (cs : List Char) : Option (Document × List Char) :=
  let negative := cs.head? == some '-'
  let unsigned := if negative then cs.drop 1 else cs
  let whole := match unsigned with
    | '0' :: _ => ['0']
    | _ => unsigned.takeWhile Char.isDigit
  if whole.isEmpty then none
  else
    let rest := unsigned.drop whole.length
    let (part, rest) := match rest with
      | '.' :: more =>
        let digits := more.takeWhile Char.isDigit
        if digits.isEmpty then ([], rest) else (digits, more.drop digits.length)
      | _ => ([], rest)
    let (power, rest) : Option Int × List Char := match rest with
      | e :: more =>
        if e == 'e' || e == 'E' then
          let (down, unsignedPower) := Literal.sign more
          let digits := unsignedPower.takeWhile Char.isDigit
          if digits.isEmpty then (none, rest)
          else
            let n : Int := Literal.number 10 digits
            (some (if down then -n else n), unsignedPower.drop digits.length)
        else (none, rest)
      | [] => (none, [])
    let n := Literal.number 10 (whole ++ part)
    if part.isEmpty && power.isNone then
      if Decimal.digitLimit < whole.length then none
      else some (.int (if negative then -(n : Int) else n), rest)
    else some (.real (Decimal.toFloat negative ⟨n, power.getD 0 - part.length⟩), rest)

def wordValues : List (String × Document) :=
  [("null", .null), ("true", .bool true), ("false", .bool false), ("NaN", .real (0.0 / 0.0)),
    ("Infinity", .real (1.0 / 0.0)), ("-Infinity", .real (-1.0 / 0.0))]

mutual

def value? (fuel : Nat) (cs : List Char) : Option (Document × List Char) :=
  match fuel with
  | 0 => none
  | fuel + 1 =>
    match cs with
    | '"' :: rest => (string? rest.length.succ [] rest).map fun (s, rest) => (.text s, rest)
    | '[' :: rest =>
      match skip rest with
      | ']' :: after => some (.list [], after)
      | first => items? fuel [] first
    | '\x7b' :: rest =>
      match skip rest with
      | '\x7d' :: after => some (.mapping [], after)
      | first => entries? fuel [] first
    | _ =>
      match wordValues.find? fun (word, _) => word.toList.isPrefixOf cs with
      | some (word, v) => some (v, cs.drop word.length)
      | none => number? cs

def items? (fuel : Nat) (done : List Document) (cs : List Char) : Option (Document × List Char) :=
  match fuel with
  | 0 => none
  | fuel + 1 => do
    let (v, rest) ← value? fuel cs
    match skip rest with
    | ',' :: more => items? fuel (v :: done) (skip more)
    | ']' :: after => some (.list (v :: done).reverse, after)
    | _ => none

def entries? (fuel : Nat) (done : List (String × Document)) (cs : List Char) :
    Option (Document × List Char) :=
  match fuel with
  | 0 => none
  | fuel + 1 =>
    match cs with
    | '"' :: rest => do
      let (key, rest) ← string? rest.length.succ [] rest
      match skip rest with
      | ':' :: more =>
        let (v, rest) ← value? fuel (skip more)
        match skip rest with
        | ',' :: more => entries? fuel ((key, v) :: done) (skip more)
        | '\x7d' :: after => some (Document.ofEntries ((key, v) :: done).reverse, after)
        | _ => none
      | _ => none
    | _ => none

end

def read? (text : List Char) : Option Document :=
  match value? (text.length + 1) (skip text) with
  | some (v, rest) => if (skip rest).isEmpty then some v else none
  | none => none

end RouteLinks.Json
