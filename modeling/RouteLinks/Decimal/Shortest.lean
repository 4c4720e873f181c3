/-!
# Shortest decimal text of a binary number

A finite binary64 number is `mantissa * 2 ^ exponent`. Its text has the fewest digits that read back
as the same number; of two such texts the nearer one is taken. The search goes through the decimal
grids with 1, 2, … 17 digits and tests the two grid points around the number, all in exact
arithmetic.
-/

namespace RouteLinks.Decimal

/-- The absolute value of a finite binary number, `mantissa * 2 ^ exponent`. -/
structure Binary where
  mantissa : Nat
  exponent : Int
  /-- The gap to the number below is half of the gap to the one above. -/
  narrowBelow : Bool

/-- A decimal number `digits * 10 ^ exponent`. -/
structure Scaled where
  digits : Nat
  exponent : Int

/-- A binary64 number by its parts. -/
inductive Parts where
  | finite (value : Binary)
  | infinite
  | notANumber

/-- The parts of the absolute value, from the bits of the format. -/
def Parts.ofBits (bits : Nat) : Parts :=
  let fraction : Nat := bits % Nat.pow 2 52
  let biased : Nat := bits / Nat.pow 2 52 % Nat.pow 2 11
  if biased == 0x7FF then (if fraction == 0 then .infinite else .notANumber)
  else if biased == 0 then .finite ⟨fraction, -1074, false⟩
  else .finite ⟨Nat.pow 2 52 + fraction, (biased : Int) - 1075, fraction == 0 && 1 < biased⟩

/-- A positive fraction. -/
structure Fraction where
  num : Nat
  den : Nat

/-- `k * 2 ^ e` as a fraction. -/
def Fraction.ofBinary (k : Nat) (e : Int) : Fraction :=
  match e with
  | .ofNat n => ⟨k * Nat.pow 2 n, 1⟩
  | .negSucc n => ⟨k, Nat.pow 2 (n + 1)⟩

/-- `k * 10 ^ e` as a fraction. -/
def Fraction.ofDecimal (k : Nat) (e : Int) : Fraction :=
  match e with
  | .ofNat n => ⟨k * Nat.pow 10 n, 1⟩
  | .negSucc n => ⟨k, Nat.pow 10 (n + 1)⟩

def Fraction.le (a b : Fraction) : Bool := a.num * b.den ≤ b.num * a.den

def Fraction.lt (a b : Fraction) : Bool := a.num * b.den < b.num * a.den

/-- The whole part of `a * 10 ^ e`. -/
def Fraction.scaledFloor (a : Fraction) (e : Int) : Nat :=
  match e with
  | .ofNat n => a.num * Nat.pow 10 n / a.den
  | .negSucc n => a.num / (a.den * Nat.pow 10 (n + 1))

/-- The exponent of the leading decimal digit, looked for downwards from `10 ^ top`. -/
def leadingExponent (a : Fraction) (top : Int) : Nat → Int
  | 0 => top
  | fuel + 1 => if Fraction.le (.ofDecimal 1 top) a then top else leadingExponent a (top - 1) fuel

/-- Halves the unit of the number so that the ends of the interval of numbers that round to it are
whole: the ends are included exactly if the mantissa is even. -/
def Binary.accepts (b : Binary) (d : Scaled) : Bool :=
  let low := Fraction.ofBinary (4 * b.mantissa - if b.narrowBelow then 1 else 2) (b.exponent - 2)
  let high := Fraction.ofBinary (4 * b.mantissa + 2) (b.exponent - 2)
  let x := Fraction.ofDecimal d.digits d.exponent
  if b.mantissa % 2 == 0 then low.le x && x.le high else low.lt x && x.lt high

/-- Whether the number is nearer to the grid point above `d`, or as near and that point is even. -/
def Binary.nearerAbove (b : Binary) (d : Scaled) : Bool :=
  let middle := Fraction.ofDecimal (2 * d.digits + 1) d.exponent
  let twice := Fraction.ofBinary (2 * b.mantissa) b.exponent
  middle.lt twice || (middle.le twice && d.digits % 2 == 1)

/-- The first grid with a point that reads back, from `count` digits on. -/
def shortestFrom (b : Binary) (lead : Int) (count : Nat) : Nat → Scaled
  | 0 =>
    ⟨(Fraction.ofBinary b.mantissa b.exponent).scaledFloor (count - 1 - lead), lead - count + 1⟩
  | fuel + 1 =>
    let grid : Int := lead - count + 1
    let below : Scaled := ⟨(Fraction.ofBinary b.mantissa b.exponent).scaledFloor (-grid), grid⟩
    let above : Scaled := ⟨below.digits + 1, grid⟩
    match b.accepts below, b.accepts above with
    | true, true => if b.nearerAbove below then above else below
    | true, false => below
    | false, true => above
    | false, false => shortestFrom b lead (count + 1) fuel

/-- The shortest decimal number that reads back; of two, the nearer one. -/
def Binary.shortest (b : Binary) : Scaled :=
  if b.mantissa == 0 then ⟨0, 0⟩
  else shortestFrom b (leadingExponent (.ofBinary b.mantissa b.exponent) 308 700) 1 17

def digitsOf (n : Nat) : List Char := Nat.toDigits 10 n

/-- How a decimal number is written: positionally for leading exponents from `positionalFrom` up to,
but not including, `exponentFrom`; otherwise with an exponent of at least `exponentDigits`
digits. -/
structure Format where
  positionalFrom : Int
  exponentFrom : Int
  exponentDigits : Nat

/-- Numbers are positional from `0.0001` up to `10 ^ 16`; exponents have a sign and two digits. -/
def Format.general : Format := ⟨-4, 16, 2⟩

/-- The text of a decimal number. A whole number in positional notation keeps `.0`. -/
def Format.write (f : Format) (d : Scaled) : String :=
  if d.digits == 0 then "0.0" else
  let all := digitsOf d.digits
  let significant := (all.reverse.dropWhile (· == '0')).reverse
  let lead : Int := all.length + d.exponent - 1
  if f.positionalFrom ≤ lead && lead < f.exponentFrom then
    match lead with
    | .negSucc n => String.ofList ("0.".toList ++ List.replicate n '0' ++ significant)
    | .ofNat n =>
      let whole := significant.take (n + 1)
      let padded := whole ++ List.replicate (n + 1 - whole.length) '0'
      let rest := significant.drop (n + 1)
      String.ofList (padded ++ ['.'] ++ if rest.isEmpty then ['0'] else rest)
  else
    let mark := if lead < 0 then "e-" else "e+"
    let power := digitsOf lead.natAbs
    let power := List.replicate (f.exponentDigits - power.length) '0' ++ power
    let first := significant.take 1
    let rest := significant.drop 1
    String.ofList (first ++ (if rest.isEmpty then [] else '.' :: rest) ++ mark.toList ++ power)

def ofFloat (x : Float) : String :=
  let bits := x.toBits.toNat
  let sign := if Nat.pow 2 63 ≤ bits then "-" else ""
  match Parts.ofBits bits with
  | .finite b => sign ++ Format.general.write b.shortest
  | .infinite => sign ++ "inf"
  | .notANumber => "nan"

/-- The binary64 number nearest to `digits * 10 ^ exponent`. Beyond the range of the format the
answer is known without computing the power. -/
def toFloat (negative : Bool) (d : Scaled) : Float :=
  let lead : Int := (digitsOf d.digits).length + d.exponent
  let size : Float :=
    if d.digits == 0 || lead < -400 then 0.0
    else if 400 < lead then Float.ofScientific 1 false 400
    else
      match d.exponent with
      | .ofNat n => Float.ofScientific d.digits false n
      | .negSucc n => Float.ofScientific d.digits true (n + 1)
  if negative then -size else size

/-- The exact value of a finite number, with a sign; none for the infinities and what is no
number. -/
def finite? (x : Float) : Option (Bool × Binary) :=
  let bits := x.toBits.toNat
  match Parts.ofBits bits with
  | .finite b => some (decide (Nat.pow 2 63 ≤ bits), b)
  | _ => none

/-- The whole number that a number is, if it is one. -/
def whole? (x : Float) : Option Int :=
  match finite? x with
  | none => none
  | some (negative, b) =>
    let f := Fraction.ofBinary b.mantissa b.exponent
    let size : Int := (f.num / f.den : Nat)
    if f.num % f.den == 0 then some (if negative then -size else size) else none

/-- Whether a number is exactly the whole number `k`. -/
def isWhole (x : Float) (k : Int) : Bool := whole? x == some k

end RouteLinks.Decimal
