import RouteLinks.Decimal.Shortest
import RouteLinks.Routes.Literal
/-!
# Numbers in YAML

A whole number is written in base two, eight, ten, sixteen or sixty, a real number in base ten or
sixty; underscores separate digits. Which base it is can be read off the beginning, but for base
sixty, whose places stand between colons. What is written in decimal digits must not have too many.
-/

namespace RouteLinks.Yaml

/-- The places of a number to the base sixty, the first apart; colons separate them. -/
def places? (cs : List Char) : Option (List Char × List (List Char)) :=
  match Text.fields ':' cs with
  | first :: second :: others =>
    let places := second :: others
    let isPlace (p : List Char) : Bool :=
      (p.length == 1 || (p.length == 2 && (p.head?.map fun c => decide (c ≤ '5')).getD false)) &&
        p.all Char.isDigit
    if (first.head?.map Char.isDigit).getD false && first.all Literal.isDigitOrGap &&
        places.all isPlace then
      some (first, places)
    else none
  | _ => none

def addPlaces (n : Nat) (places : List (List Char)) : Nat :=
  places.foldl (fun n p => n * 60 + Literal.number 10 p) n

/-- A number in decimal or to the base sixty. -/
def placed? (cs : List Char) : Option (Except Decimal.LimitError Nat) :=
  if cs.all Literal.isDigitOrGap then some (Literal.ofDecimal cs)
  else
    (places? cs).map fun (first, places) => (Literal.ofDecimal first).map (addPlaces · places)

/-- A whole number without its sign: binary, octal, hexadecimal, sexagesimal or decimal. -/
def natural? (cs : List Char) : Option (Except Decimal.LimitError Nat) :=
  let run (base : Nat) (digits : List Char) (isDigit : Char → Bool) :
      Option (Except Decimal.LimitError Nat) :=
    if !digits.isEmpty && digits.all (fun c => isDigit c || c == '_') then
      some (.ok (Literal.number base digits))
    else none
  match cs with
  | ['0'] => some (.ok 0)
  | '0' :: 'b' :: digits => run 2 digits fun c => c == '0' || c == '1'
  | '0' :: 'x' :: digits => run 16 digits Literal.isHexDigit
  | '0' :: digits => run 8 digits fun c => '0' ≤ c && c ≤ '7'
  | c :: _ => if c.isDigit then placed? cs else none
  | [] => none

/-- A real number without its sign: it has a point, and the sign of an exponent is written. -/
def fraction? (negative : Bool) (cs : List Char) : Option Float :=
  let whole := cs.takeWhile Literal.isDigitOrGap
  match cs.drop whole.length with
  | '.' :: rest =>
    let part := rest.takeWhile Literal.isDigitOrGap
    let isNumber := (whole.head?.map Char.isDigit).getD ((part.head?.map Char.isDigit).getD false)
    let power : Option Int :=
      match rest.drop part.length with
      | [] => some 0
      | e :: sign :: digits =>
        if (e == 'e' || e == 'E') && (sign == '-' || sign == '+') && !digits.isEmpty &&
            digits.all Char.isDigit then
          let n : Int := Literal.number 10 digits
          some (if sign == '-' then -n else n)
        else none
      | _ => none
    if isNumber then
      power.map fun p =>
        Decimal.toFloat negative
          ⟨Literal.number 10 (whole ++ part), p - (part.filter Char.isDigit).length⟩
    else none
  | _ => none

/-- A real number to the base sixty, with a point after the last place. -/
def sexagesimalFraction? (negative : Bool) (cs : List Char) : Option Float :=
  let whole := cs.takeWhile (· != '.')
  match places? whole, cs.drop whole.length with
  | some (first, others), '.' :: part =>
    let n := addPlaces (Literal.number 10 first) others
    let places := (part.filter Char.isDigit).length
    let digits := n * Nat.pow 10 places + Literal.number 10 part
    if part.all Literal.isDigitOrGap then some (Decimal.toFloat negative ⟨digits, -(places : Int)⟩)
    else none
  | _, _ => none

/-- A real number. One that begins with its point has no sign. -/
def real? (cs : List Char) : Option Float :=
  let (negative, unsigned) := Literal.sign cs
  if unsigned.head? == some '.' && unsigned.length != cs.length then none
  else (fraction? negative unsigned).or (sexagesimalFraction? negative unsigned)

end RouteLinks.Yaml
