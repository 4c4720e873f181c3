import RouteLinks.Order
/-!
# Numbered names

A name that is taken gets a number behind it: the least one, counted upwards from a start, that
gives a name which is free. Names are given one after the other, so that the first of several equal
names stays as it is.
-/

namespace RouteLinks.Numbering

def numbered (name : String) (index : Nat) : String := name ++ toString index

/-- The least number above `index` that gives a free name. Of `fuel + 1` different names one is free
if `fuel` names are taken. -/
def freeIndex (used : List String) (name : String) (index : Nat) : Nat → Nat
  | 0 => index + 1
  | fuel + 1 =>
    if used.contains (numbered name (index + 1)) then freeIndex used name (index + 1) fuel
    else index + 1

/-- A name and its number; the number zero stands for none. -/
def assign (used : List String) (name : String) (index : Nat) : String × Nat :=
  if used.contains name then
    let found := freeIndex used name index used.length
    (numbered name found, found)
  else (name, 0)

/-- Names in order; for each name, numbers go on from the last one given. -/
def assignAll (used : List String) (counters : List (String × Nat)) :
    List String → List (String × Nat)
  | [] => []
  | name :: rest =>
    let given := assign used name ((counters.lookup name).getD 0)
    let counters := if given.2 == 0 then counters else upsert name (fun _ => given.2) counters
    given :: assignAll (given.1 :: used) counters rest

end RouteLinks.Numbering
