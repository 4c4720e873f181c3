/-!
# The limit of whole numbers

A whole number is read from its decimal digits, and written in them, only up to a number of digits.
Leading zeros count. Numbers to a base that is a power of two have no limit.
-/

namespace RouteLinks.Decimal

/-- The most digits that a whole number is read from or written in. -/
def digitLimit : Nat := 4300

/-- A whole number has too many digits. How many is known when it is read. -/
structure LimitError where
  digits : Option Nat := none
  deriving DecidableEq, Repr

def LimitError.message (e : LimitError) : String :=
  let found := match e.digits with
    | some n => ": value has " ++ toString n ++ " digits"
    | none => ""
  "Exceeds the limit (" ++ toString digitLimit ++ " digits) for integer string conversion" ++
    found ++
    "; use sys.set_int_max_str_digits() to increase the limit"

def ofInt? (n : Int) : Except LimitError String :=
  let digits := toString n.natAbs
  if digitLimit < digits.length then .error {} else .ok (if n < 0 then "-" ++ digits else digits)

end RouteLinks.Decimal
