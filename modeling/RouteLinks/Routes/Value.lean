import RouteLinks.Decimal.Limit
import RouteLinks.Decimal.Shortest
import RouteLinks.Text.Quoted
/-!
# Route values

A route value is what a link carries for one parameter. Numbers are compared by value, and a truth
value counts as the number one or zero, so that `1`, `1.0` and `true` are the same; text is never
the same as a number.
-/

namespace RouteLinks

/-- The value of a route parameter. -/
inductive RouteValue where
  | null
  | bool (b : Bool)
  | int (n : Int)
  | real (x : Float)
  | text (s : String)
  | list (items : List RouteValue)
  deriving Inhabited

/-- A truth value or whole number, as a number. -/
def RouteValue.whole? : RouteValue → Option Int
  | .bool b => some (if b then 1 else 0)
  | .int n => some n
  | _ => none

/-- Whether two values that are not both lists are the same. -/
def RouteValue.sameAtom (x y : RouteValue) : Bool :=
  match x.whole?, y.whole? with
  | some m, some n => m == n
  | some m, none => match y with | .real b => Decimal.isWhole b m | _ => false
  | none, some n => match x with | .real a => Decimal.isWhole a n | _ => false
  | none, none =>
    match x, y with
    | .null, .null => true
    | .real a, .real b => a == b
    | .text s, .text t => s == t
    | _, _ => false

mutual

def RouteValue.same : RouteValue → RouteValue → Bool
  | .list xs, .list ys => RouteValue.sameAll xs ys
  | x, y => RouteValue.sameAtom x y

/-- Whether two lists have the same values in the same order. -/
def RouteValue.sameAll : List RouteValue → List RouteValue → Bool
  | [], [] => true
  | x :: xs, y :: ys => RouteValue.same x y && RouteValue.sameAll xs ys
  | _, _ => false

end

mutual

def RouteValue.display : RouteValue → Except Decimal.LimitError String
  | .null => .ok "None"
  | .bool b => .ok (if b then "True" else "False")
  | .int n => Decimal.ofInt? n
  | .real x => .ok (Decimal.ofFloat x)
  | .text s => .ok (Quoted.display s)
  | .list items => do
    let shown ← RouteValue.displayAll items
    return "[" ++ ", ".intercalate shown ++ "]"

/-- The members of a list as they are shown. -/
def RouteValue.displayAll : List RouteValue → Except Decimal.LimitError (List String)
  | [] => .ok []
  | x :: xs => do return (← RouteValue.display x) :: (← RouteValue.displayAll xs)

end

end RouteLinks
