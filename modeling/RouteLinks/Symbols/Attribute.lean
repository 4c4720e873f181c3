import RouteLinks.Text.Basic
import RouteLinks.Unicode.Word
/-!
# Attributes

An attribute is kept as its source text in brackets, `[Name(arguments)]`. Two things are read off
it: the name, without qualifiers and without the ending `Attribute`, and the first string that
directly follows an opening parenthesis.
-/

namespace RouteLinks

/-- The text of an attribute, brackets included. -/
abbrev Attribute := String

namespace Attribute

def isNameChar (c : Char) : Bool := Unicode.isWord c || c == '.' || c == ':'

/-- The name as it is written, with qualifiers. -/
def writtenName : List Char → List Char
  | '[' :: rest => (Text.trimStart rest).takeWhile isNameChar
  | _ => []

/-- The short name: `[Mvc.ActionNameAttribute("x")]` has the name `ActionName`. -/
def name (a : Attribute) : String :=
  let short := Text.lastField '.' (Text.replace "global::".toList [] (writtenName a.toList))
  let short := String.ofList short
  if short == "Attribute" then short else dropEnding short "Attribute"

/-- The string right after an opening parenthesis that comes before this text. -/
def stringAfterParen? (cs : List Char) : Option (List Char) :=
  match Text.trimStart cs with
  | '"' :: rest => if rest.contains '"' then some (rest.takeWhile (· != '"')) else none
  | _ => none

/-- The first string that directly follows an opening parenthesis. -/
def findString? : List Char → Option (List Char)
  | [] => none
  | c :: rest =>
    if c == '(' then
      match stringAfterParen? rest with
      | some s => some s
      | none => findString? rest
    else findString? rest

/-- The string argument of an attribute, if it has one. -/
def stringArgument? (a : Attribute) : Option String :=
  (findString? a.toList).map String.ofList

end Attribute

end RouteLinks
