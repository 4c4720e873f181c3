import RouteLinks.Text.Basic
import RouteLinks.Text.Utf8
/-!
# Syntax trees

The tree that a grammar makes of a source. The grammar is no part of this library: whatever reads a
source takes it as a parameter, and what is known of it is said where something depends on it.

A node has a kind and the name of the field of its parent that it fills. A keyword or sign is a node
that is not named, and its kind is how it is written. A comment is a named node wherever it stands.
Where the source is broken there are nodes of the kind `ERROR`, and nodes for what is missing.
-/

namespace RouteLinks

/-- What a grammar says of a node, apart from its children. Rows are counted from zero. -/
structure NodeInfo where
  kind : String
  field : Option String := none
  isNamed : Bool := true
  isMissing : Bool := false
  hasError : Bool := false
  start : Nat
  stop : Nat
  startRow : Nat := 0
  endRow : Nat := 0
  deriving DecidableEq, Repr

inductive SyntaxNode where
  | mk (info : NodeInfo) (children : List SyntaxNode)

/-- The syntax tree of each source. -/
abbrev Grammar := Bytes → SyntaxNode

namespace SyntaxNode

def info : SyntaxNode → NodeInfo
  | .mk info _ => info

def children : SyntaxNode → List SyntaxNode
  | .mk _ children => children

def kind (n : SyntaxNode) : String := n.info.kind

def start (n : SyntaxNode) : Nat := n.info.start

def stop (n : SyntaxNode) : Nat := n.info.stop

/-- The child that fills a field. -/
def field? (n : SyntaxNode) (name : String) : Option SyntaxNode :=
  n.children.find? fun child => child.info.field == some name

/-- The first child of a kind. -/
def child? (n : SyntaxNode) (kind : String) : Option SyntaxNode :=
  n.children.find? fun child => child.kind == kind

def namedChildren (n : SyntaxNode) : List SyntaxNode :=
  n.children.filter fun child => child.info.isNamed

/-- The text of a node with the blanks at its ends. -/
def rawText (bytes : Bytes) (n : SyntaxNode) : String := sliceText bytes n.start n.stop

def text (bytes : Bytes) (n : SyntaxNode) : String := trim (n.rawText bytes)

mutual

/-- The row of the first broken place: of a node that is an error or is missing. -/
def errorRow? : SyntaxNode → Option Nat
  | .mk info children =>
    if info.kind == "ERROR" || info.isMissing then some info.startRow
    else if info.hasError then firstErrorRow? children
    else none

/-- The row of the first broken place among some nodes. -/
def firstErrorRow? : List SyntaxNode → Option Nat
  | [] => none
  | n :: rest => (errorRow? n).or (firstErrorRow? rest)

end

end SyntaxNode

end RouteLinks
