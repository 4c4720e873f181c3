import RouteLinks.Source.SyntaxTree
import RouteLinks.Unicode.LetterCase
/-!
# Base lists

What a class names after its colon, in order, and which of it is the base class: the first name that
does not look like that of an interface. Whatever is named in the list counts, even a comment.
-/

namespace RouteLinks.Source

/-- What the base list of a class names, in order. -/
def basesOf (bytes : Bytes) (n : SyntaxNode) : List String :=
  match n.child? "base_list" with
  | some list => (list.namedChildren.map (·.text bytes)).filter (!·.isEmpty)
  | none => []

/-- Whether a name is that of an interface: a capital I before another capital. -/
def looksLikeInterface (name : String) : Bool :=
  match Text.lastField '.' (Text.firstField '<' name.toList) with
  | 'I' :: second :: _ => Unicode.isUpper second
  | _ => false

/-- The base class, the first name that is not that of an interface, and all other names. -/
def divideBases : List String → Option String × List String
  | [] => (none, [])
  | name :: rest =>
    if looksLikeInterface name then
      let (base, interfaces) := divideBases rest
      (base, name :: interfaces)
    else (some name, rest)

end RouteLinks.Source
