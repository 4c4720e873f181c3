import RouteLinks.Settings.Yaml.Scalar
/-!
# Flow collections

Lists and mappings in brackets, in which line ends and columns have no meaning.
-/

namespace RouteLinks.Yaml

/-- Adds an entry. Only texts are keys that settings can have. -/
def addEntry (done : List (String × Document)) (key value : Document) : List (String × Document) :=
  match key with
  | .text k => (k, value) :: done
  | _ => done

mutual

def flowNode? (fuel : Nat) (c : Cursor) : Option (Document × Cursor) :=
  match fuel with
  | 0 => none
  | fuel + 1 =>
    match c.rest with
    | '[' :: _ => flowItems? fuel [] (c.drop 1)
    | '\x7b' :: _ => flowEntries? fuel [] (c.drop 1)
    | _ => (scalar? true 0 c).map fun (v, _, after) => (v, after)

/-- The value after a colon in a flow collection, null if nothing is there. -/
def flowValue? (fuel : Nat) (c : Cursor) : Option (Document × Cursor) :=
  match fuel with
  | 0 => none
  | fuel + 1 =>
    let c := c.skip
    match c.rest with
    | ',' :: _ | ']' :: _ | '\x7d' :: _ => some (.null, c)
    | _ => flowNode? fuel c

/-- The items of a flow list. An item with a colon is a mapping of one entry. -/
def flowItems? (fuel : Nat) (done : List Document) (c : Cursor) : Option (Document × Cursor) :=
  match fuel with
  | 0 => none
  | fuel + 1 =>
    let c := c.skip
    match c.rest with
    | ']' :: _ => some (.list done.reverse, c.drop 1)
    | _ => do
      let (v, after) ← flowNode? fuel c
      let after := after.skip
      let (v, after) ← match after.rest with
        | ':' :: _ => do
          let (w, after) ← flowValue? fuel (after.drop 1)
          some (Document.ofEntries (addEntry [] v w), after.skip)
        | _ => some (v, after)
      match after.rest with
      | ',' :: _ => flowItems? fuel (v :: done) (after.drop 1)
      | ']' :: _ => some (.list (v :: done).reverse, after.drop 1)
      | _ => none

def flowEntries? (fuel : Nat) (done : List (String × Document)) (c : Cursor) :
    Option (Document × Cursor) :=
  match fuel with
  | 0 => none
  | fuel + 1 =>
    let c := c.skip
    match c.rest with
    | '\x7d' :: _ => some (Document.ofEntries done.reverse, c.drop 1)
    | _ => do
      let (k, after) ← flowNode? fuel c
      match k with
      | .list _ | .mapping _ => none
      | _ => pure ()
      let after := after.skip
      let (v, after) ← match after.rest with
        | ':' :: _ => flowValue? fuel (after.drop 1)
        | _ => some (.null, after)
      let after := after.skip
      let done := addEntry done k v
      match after.rest with
      | ',' :: _ => flowEntries? fuel done (after.drop 1)
      | '\x7d' :: _ => some (Document.ofEntries done.reverse, after.drop 1)
      | _ => none

end

end RouteLinks.Yaml
