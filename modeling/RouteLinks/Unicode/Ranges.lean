/-!
# Tables of code points

A property of characters is kept as ascending, disjoint ranges, both ends included.
-/

namespace RouteLinks.Unicode

/-- Membership in an ascending list of ranges. -/
def inRanges (n : Nat) : List (Nat × Nat) → Bool
  | [] => false
  | (first, last) :: rest => if n < first then false else n ≤ last || inRanges n rest

end RouteLinks.Unicode
