import RouteLinks.Decimal.Shortest
import RouteLinks.Settings.Basic
/-!
# The reader of values

How the program reads values: a truth value may also be written as a number or as a word, and a text
is a text only.
-/

namespace RouteLinks

namespace Lenient

def find? (key otherKey : String) (entries : List (String × Document)) :
    Option (String × Document) :=
  match Document.get? entries key with
  | some value => some (key, value)
  | none => (Document.get? entries otherKey).map fun value => (otherKey, value)

def text? : Document → Except Complaint String
  | .text s => .ok s
  | _ => .error .notText

def truthWords : List (String × Bool) :=
  [("0", false), ("off", false), ("f", false), ("false", false), ("n", false), ("no", false),
    ("1", true), ("on", true), ("t", true), ("true", true), ("y", true), ("yes", true)]

def truthOfNumber (n : Int) : Except Complaint Bool :=
  if n == 0 then .ok false else if n == 1 then .ok true else .error .unknownTruthValue

/-- Whether a number has 64 bits; a larger one does not count as a number that could be a truth
value. -/
def isMachineNumber (n : Int) : Bool :=
  decide (-9223372036854775808 ≤ n) && decide (n < 9223372036854775808)

/-- A truth value: as such, as one or zero, or in words of any letter case. -/
def truth? : Document → Except Complaint Bool
  | .bool b => .ok b
  | .int n => if isMachineNumber n then truthOfNumber n else .error .notTruthValue
  | .real x =>
    match Decimal.whole? x with
    | some n => if isMachineNumber n then truthOfNumber n else .error .notTruthValue
    | none => .error .notTruthValue
  | .text s =>
    match truthWords.lookup (String.ofList (s.toList.map Char.toLower)) with
    | some b => .ok b
    | none => .error .unknownTruthValue
  | _ => .error .notTruthValue

/-- Reads the members of a list, counted from `index`. -/
def members (index : Nat) : List Document → Except (List Fault) (List String)
  | [] => .ok []
  | item :: rest =>
    match text? item, members (index + 1) rest with
    | .ok s, .ok ss => .ok (s :: ss)
    | .ok _, .error faults => .error faults
    | .error complaint, .ok _ => .error [⟨some index, complaint⟩]
    | .error complaint, .error faults => .error (⟨some index, complaint⟩ :: faults)

def texts? : Document → Except (List Fault) (List String)
  | .list items => members 0 items
  | _ => .error [⟨none, .notList⟩]

end Lenient

def ValueReader.lenient : ValueReader where
  find? := Lenient.find?
  text? := Lenient.text?
  truth? := Lenient.truth?
  texts? := Lenient.texts?

end RouteLinks
