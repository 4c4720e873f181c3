/-!
# Lists in order

Sorting, grouping and merging of lists. Sorting is stable, grouping keeps the order in which keys
and members are first met, and merging adds what is new at the end; the order of everything that is
generated goes back to these three.
-/

namespace RouteLinks

/-- Puts an element behind all that must not come after it. -/
def insertBy (before : α → α → Bool) (x : α) : List α → List α
  | [] => [x]
  | y :: rest => if before x y then x :: y :: rest else y :: insertBy before x rest

/-- Sorts by a strict order; elements that neither precede the other keep their order. -/
def sortBy (before : α → α → Bool) : List α → List α :=
  fun xs => xs.foldl (fun sorted x => insertBy before x sorted) []

/-- Adds a member to the group of its key, or opens a new group at the end. -/
def addToGroup [BEq κ] (key : κ) (x : α) : List (κ × List α) → List (κ × List α)
  | [] => [(key, [x])]
  | (k, members) :: rest =>
    if k == key then (k, members ++ [x]) :: rest else (k, members) :: addToGroup key x rest

/-- Groups by a key, in the order in which the keys are first met. -/
def groupBy [BEq κ] (key : α → κ) (xs : List α) : List (κ × List α) :=
  xs.foldl (fun groups x => addToGroup (key x) x groups) []

/-- The first list, then what the second adds to it, each addition once. -/
def mergeUnique [BEq α] (first second : List α) : List α :=
  second.foldl (fun merged x => if merged.contains x then merged else merged ++ [x]) first

/-- The members, without repetition, in the order in which they are first met. -/
def firstMet [BEq α] (xs : List α) : List α := mergeUnique [] xs

/-- Changes the entry of a key, or adds one at the end. -/
def upsert [BEq κ] (key : κ) (change : Option α → α) : List (κ × α) → List (κ × α)
  | [] => [(key, change none)]
  | (k, x) :: rest =>
    if k == key then (k, change (some x)) :: rest else (k, x) :: upsert key change rest

/-- Order of strings by code point. -/
def precedes (a b : String) : Bool := a < b

end RouteLinks
