import RouteLinks.Order
import RouteLinks.Text.Utf8
/-!
# Edits of a source

An edit inserts a text at a byte offset of the source as it was read. Edits are made from the
highest offset downwards, so that an insertion does not move the places of those that follow; at
equal offsets the one that is given later ends up in front.

A negative offset counts from the end, and one beyond either end means that end.
-/

namespace RouteLinks

/-- A text to insert at an offset of a file. -/
structure SourceEdit where
  filePath : String
  offset : Int
  text : String
  deriving DecidableEq, Repr

namespace SourceEdit

/-- The place of an offset in a source of the given size. -/
def place (size : Nat) (offset : Int) : Nat :=
  if offset < 0 then (offset + size).toNat else min offset.toNat size

def insert (data : Bytes) (edit : SourceEdit) : Bytes :=
  let at_ := place data.length edit.offset
  data.take at_ ++ Utf8.encode edit.text ++ data.drop at_

def applyAll (data : Bytes) (edits : List SourceEdit) : Bytes :=
  (sortBy (fun a b => decide (b.offset < a.offset)) edits).foldl insert data

/-- Makes all edits of a text; none if an edit cuts a character in two. -/
def applyToText? (text : String) (edits : List SourceEdit) : Option String :=
  Utf8.decode? (applyAll (Utf8.encode text) edits)

end SourceEdit

end RouteLinks
