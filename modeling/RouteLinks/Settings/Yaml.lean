import RouteLinks.Settings.Yaml.Flow
/-!
# Documents in YAML

The part of YAML that settings need: block and flow mappings and lists, plain and quoted scalars,
comments and document markers. A file is one document. What belongs to a block collection is known
by its column.
-/

namespace RouteLinks.Yaml

/-- Whether an item of a block list begins here. -/
def atItem (c : Cursor) : Bool :=
  match c.rest with
  | '-' :: rest => atGap rest
  | _ => false

/-- Whether nothing of a document is left here. -/
def atEnd (c : Cursor) : Bool := c.rest.isEmpty || atMarker c

/-- Whether a colon that ends a key is here. -/
def atColon (c : Cursor) : Bool :=
  match c.rest with
  | ':' :: rest => atGap rest
  | _ => false

mutual

/-- A block node. Scalars go on over lines that are indented up to `indent`; a block collection may
begin here only if `mayOpen`. -/
def block? (fuel : Nat) (indent : Nat) (mayOpen : Bool) (c : Cursor) : Option (Document × Cursor) :=
  match fuel with
  | 0 => none
  | fuel + 1 =>
    if atItem c then (if mayOpen then items? fuel c.column [] c else none)
    else do
      let (v, isMultiline, after) ← match c.rest with
        | '[' :: _ | '\x7b' :: _ =>
          (flowNode? fuel c).map fun (v, after) => (v, after.line != c.line, after)
        | _ => scalar? false indent c
      if atColon after.skipSpaces then
        if mayOpen && !isMultiline then entries? fuel c.column [] c else none
      else some (v, after)

/-- What follows a key or the mark of an item at `column`: on the same line, or on further lines
with deeper indentation; nothing is null. The items of a list may stand below the key itself. -/
def inside? (fuel : Nat) (column : Nat) (isItem : Bool) (c : Cursor) : Option (Document × Cursor) :=
  match fuel with
  | 0 => none
  | fuel + 1 =>
    let next := c.skip
    if next.line == c.line && !next.rest.isEmpty then block? fuel (column + 1) isItem next
    else if atEnd next then some (.null, next)
    else if column < next.column then block? fuel (column + 1) true next
    else if !isItem && next.column == column && atItem next then items? fuel column [] next
    else some (.null, next)

def items? (fuel : Nat) (column : Nat) (done : List Document) (c : Cursor) :
    Option (Document × Cursor) :=
  match fuel with
  | 0 => none
  | fuel + 1 => do
    let (v, after) ← inside? fuel column true (c.drop 1)
    let next := after.skip
    if atEnd next then some (.list (v :: done).reverse, next)
    else if next.line == after.line && next.line == c.line then none
    else if next.column == column && atItem next then items? fuel column (v :: done) next
    else if next.column ≤ column then some (.list (v :: done).reverse, next)
    else none

/-- The entries of a block mapping at a column. -/
def entries? (fuel : Nat) (column : Nat) (done : List (String × Document)) (c : Cursor) :
    Option (Document × Cursor) :=
  match fuel with
  | 0 => none
  | fuel + 1 => do
    let (k, isMultiline, after) ← match c.rest with
      | '[' :: _ | '\x7b' :: _ => none
      | _ => scalar? false (column + 1) c
    let colon := after.skipSpaces
    if isMultiline || !atColon colon then none
    let (v, after) ← inside? fuel column false (colon.drop 1)
    let next := after.skip
    let done := addEntry done k v
    if atEnd next then some (Document.ofEntries done.reverse, next)
    else if next.column == column && next.line != c.line && !atItem next then
      entries? fuel column done next
    else if next.column < column then some (Document.ofEntries done.reverse, next)
    else none

end

def onlyEnds (fuel : Nat) (c : Cursor) : Bool :=
  match fuel with
  | 0 => false
  | fuel + 1 =>
    let c := c.skip
    if c.rest.isEmpty then true
    else if isMarker c "..." then onlyEnds fuel (c.drop 3)
    else false

def isAllowed (c : Char) : Bool :=
  let n := c.toNat
  c == '\t' || c == '\n' || c == '\r' || (0x20 ≤ n && n ≤ 0x7E) || n == 0x85 ||
    (0xA0 ≤ n && n ≤ 0xFFFD) || 0x10000 ≤ n

def read? (text : List Char) : Option Document :=
  if !text.all isAllowed then none
  else
  let fuel := 4 * text.length + 8
  let c := Cursor.skip ⟨text, 0, 0⟩
  let marked := isMarker c "---"
  let start := if marked then (c.drop 3).skip else c
  if start.rest.isEmpty || (marked && atMarker start) then
    if onlyEnds fuel start then some .null else none
  else if atMarker start then none
  else
    match block? fuel 0 (!(marked && start.line == c.line)) start with
    | some (v, after) => if onlyEnds fuel after then some v else none
    | none => none

end RouteLinks.Yaml
