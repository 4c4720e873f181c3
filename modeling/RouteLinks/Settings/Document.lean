import RouteLinks.Order
/-!
# Documents

What a settings file holds, before it is known to be settings: scalars, lists and mappings. The two
file formats differ in how this is written, and in nothing else.
-/

namespace RouteLinks

/-- The content of a settings file. -/
inductive Document where
  | null
  | bool (b : Bool)
  | int (n : Int)
  | real (x : Float)
  | text (s : String)
  | list (items : List Document)
  | mapping (entries : List (String × Document))
  deriving Inhabited

namespace Document

/-- The entries of a mapping. Of two entries for one key the later counts. -/
def ofEntries (entries : List (String × Document)) : Document :=
  .mapping (entries.foldl (fun done (k, v) => upsert k (fun _ => v) done) [])

def get? (entries : List (String × Document)) (key : String) : Option Document := entries.lookup key

end Document

end RouteLinks
