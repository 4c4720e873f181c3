import RouteLinks.Routes.Value
import RouteLinks.Text.Basic
/-!
# Values of default expressions

The default of a parameter is C# source. A plain literal has a value: `null`, a truth value, a
string or character, a whole number in decimal or hexadecimal, or a real number. Whatever is not a
plain literal, such as `default` or `Order.ByName`, is carried as its own text. A whole number in
decimal with too many digits has no value.
-/

namespace RouteLinks.Literal

def isDigitOrGap (c : Char) : Bool := c.isDigit || c == '_'

def isHexDigit (c : Char) : Bool :=
  c.isDigit || ('a' ≤ c && c ≤ 'f') || ('A' ≤ c && c ≤ 'F')

def hexDigit (c : Char) : Nat :=
  if c.isDigit then c.toNat - '0'.toNat
  else if 'a' ≤ c then c.toNat - 'a'.toNat + 10 else c.toNat - 'A'.toNat + 10

/-- The number written by digits, separators skipped. -/
def number (base : Nat) (digits : List Char) : Nat :=
  digits.foldl (fun n c => if c == '_' then n else n * base + hexDigit c) 0

/-- The sign in front of a number, and the rest. -/
def sign : List Char → Bool × List Char
  | '-' :: rest => (true, rest)
  | '+' :: rest => (false, rest)
  | cs => (false, cs)

/-- A run of digits and separators that begins with a digit, and the rest. -/
def digitRun? (cs : List Char) : Option (List Char × List Char) :=
  match cs with
  | c :: _ =>
    if c.isDigit then some (cs.takeWhile isDigitOrGap, cs.dropWhile isDigitOrGap) else none
  | [] => none

/-- The suffixes of whole numbers: `u` and `l` once each, in either order and case. -/
def isIntegerSuffix (cs : List Char) : Bool :=
  match cs.map Char.toLower with
  | [] | ['u'] | ['l'] | ['u', 'l'] | ['l', 'u'] => true
  | _ => false

/-- The digits after `0x`, of which there is at least one. -/
def hexadecimal? : List Char → Option Nat
  | '0' :: x :: rest =>
    if x.toLower == 'x' then
      let isDigit (c : Char) : Bool := isHexDigit c || c == '_'
      let digits := rest.takeWhile isDigit
      if digits.any isHexDigit && isIntegerSuffix (rest.dropWhile isDigit) then
        some (number 16 digits)
      else none
    else none
  | _ => none

/-- The number that decimal digits write, separators skipped. -/
def ofDecimal (digits : List Char) : Except Decimal.LimitError Nat :=
  let count := (digits.filter (· != '_')).length
  if Decimal.digitLimit < count then .error ⟨count⟩ else .ok (number 10 digits)

def decimal? (cs : List Char) : Option (Except Decimal.LimitError Nat) := do
  let (digits, rest) ← digitRun? cs
  if isIntegerSuffix rest then some (ofDecimal digits) else none

/-- A whole number; one in decimal can have too many digits. -/
def integer? (cs : List Char) : Option (Except Decimal.LimitError Int) := do
  let (negative, rest) := sign cs
  let n ← ((hexadecimal? rest).map .ok).or (decimal? rest)
  some (n.map fun (n : Nat) => if negative then -(n : Int) else n)

/-- The digits before and after the point, and the rest. The point may be missing, and so may the
digits before it. -/
def significand? (cs : List Char) : Option (List Char × List Char × List Char) :=
  match digitRun? cs with
  | some (whole, '.' :: rest) => do
    let (part, rest) ← digitRun? rest
    some (whole, part, rest)
  | some (whole, rest) => some (whole, [], rest)
  | none =>
    match cs with
    | '.' :: rest => do
      let (part, rest) ← digitRun? rest
      some ([], part, rest)
    | _ => none

/-- The power of ten after `e`, zero if there is none, and the rest. -/
def exponent? : List Char → Option (Int × List Char)
  | c :: rest =>
    if c.toLower == 'e' then
      let (negative, rest) := sign rest
      let digits := rest.takeWhile Char.isDigit
      if digits.isEmpty then none
      else
        let n : Int := number 10 digits
        some (if negative then -n else n, rest.dropWhile Char.isDigit)
    else some (0, c :: rest)
  | [] => some (0, [])

def isRealSuffix (cs : List Char) : Bool :=
  match cs.map Char.toLower with
  | [] | ['f'] | ['d'] | ['m'] => true
  | _ => false

def real? (cs : List Char) : Option Float := do
  let (negative, rest) := sign cs
  let (whole, part, rest) ← significand? rest
  let (power, rest) ← exponent? rest
  if isRealSuffix rest then
    let places := (part.filter Char.isDigit).length
    some (Decimal.toFloat negative ⟨number 10 (whole ++ part), power - places⟩)
  else none

/-- The inside of a literal in single or double quotes. -/
def quotedBody? (cs : List Char) : Option (List Char) :=
  match cs with
  | first :: rest =>
    if (first == '"' || first == '\'') && rest.getLast? == some first then some rest.dropLast
    else none
  | [] => none

def verbatimBody? : List Char → Option (List Char)
  | '@' :: '"' :: rest => if rest.getLast? == some '"' then some rest.dropLast else none
  | _ => none

def value (expression : String) : Except Decimal.LimitError RouteValue :=
  let cs := Text.trim expression.toList
  if cs == "null".toList then .ok .null
  else if cs == "true".toList then .ok (.bool true)
  else if cs == "false".toList then .ok (.bool false)
  else
    match verbatimBody? cs with
    | some body => .ok (.text (String.ofList (Quoted.undouble body)))
    | none =>
    match quotedBody? cs with
    | some body => .ok (.text (String.ofList (Quoted.unescape body)))
    | none =>
    match integer? cs with
    | some n => n.map .int
    | none =>
    match real? cs with
    | some x => .ok (.real x)
    | none => .ok (.text (String.ofList cs))

end RouteLinks.Literal
