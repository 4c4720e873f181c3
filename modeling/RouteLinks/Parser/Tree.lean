import RouteLinks.Source.Token
/-!
# Bracketed groups

Tokens are gathered into groups by their brackets, so that whatever stands between two brackets is
one item of the level around it, and a declaration can be read off one level. A closing brace ends
everything that is open inside the braces; a group whose bracket is missing keeps what it has.
-/

namespace RouteLinks.Parser

open Source

/-- A token, or a group in brackets. `stop` is where the group ends. -/
inductive Tree where
  | leaf (token : Token)
  | group (opening : Token) (inner : List Tree) (closing : Option Token) (stop : Nat)

namespace Tree

def start : Tree → Nat
  | .leaf t => t.span.start
  | .group t _ _ _ => t.span.start

def stop : Tree → Nat
  | .leaf t => t.span.stop
  | .group _ _ _ stop => stop

def isSymbol (t : Tree) (text : String) : Bool :=
  match t with
  | .leaf token => token.isSymbol text
  | _ => false

def isWord (t : Tree) (text : String) : Bool :=
  match t with
  | .leaf token => token.isWord text
  | _ => false

def word? : Tree → Option String
  | .leaf token => if token.kind == .word then some token.text else none
  | _ => none

def directive? : Tree → Option String
  | .leaf token => if token.kind == .directive then some token.text else none
  | _ => none

/-- What is inside a group that begins with this bracket. -/
def inside? (bracket : String) : Tree → Option (List Tree)
  | .group opening inner _ _ => if opening.text == bracket then some inner else none
  | _ => none

/-- Whether a tree is a group that begins with this bracket. -/
def isGroup (t : Tree) (bracket : String) : Bool := (t.inside? bracket).isSome

end Tree

def spanOf? (trees : List Tree) : Option Span :=
  match trees.head?, trees.getLast? with
  | some first, some last => some ⟨first.start, last.stop⟩
  | _, _ => none

/-- A bracket that is open, with what precedes it at its level, the nearest first. -/
structure Frame where
  opening : Token
  before : List Tree

/-- Ends the innermost group; `inner` is what it has, the last first. -/
def Frame.end (f : Frame) (inner : List Tree) (closing : Option Token) : List Tree :=
  let stop :=
    match closing, inner with
    | some token, _ => token.span.stop
    | none, last :: _ => last.stop
    | none, [] => f.opening.span.stop
  .group f.opening inner.reverse closing stop :: f.before

/-- The bracket that begins what this one ends. -/
def openingOf : String → String
  | ")" => "("
  | "]" => "["
  | _ => "\x7b"

/-- Ends groups up to one with the given bracket. Only a brace may end groups of another kind on the
way, and no group reaches beyond the braces around it. -/
def endUpTo (bracket : String) (closing : Token) (inner : List Tree) :
    List Frame → Option (List Frame × List Tree)
  | [] => none
  | f :: frames =>
    if f.opening.text == bracket then some (frames, f.end inner (some closing))
    else if f.opening.text == "\x7b" then none
    else endUpTo bracket closing (f.end inner none) frames

def endAll (inner : List Tree) : List Frame → List Tree
  | [] => inner.reverse
  | f :: frames => endAll (f.end inner none) frames

def gather (frames : List Frame) (inner : List Tree) : List Token → List Tree
  | [] => endAll inner frames
  | t :: rest =>
    if t.kind == .symbol && (t.text == "(" || t.text == "[" || t.text == "\x7b") then
      gather (⟨t, inner⟩ :: frames) [] rest
    else if t.kind == .symbol && (t.text == ")" || t.text == "]" || t.text == "\x7d") then
      match endUpTo (openingOf t.text) t inner frames with
      | some (frames, inner) => gather frames inner rest
      | none => gather frames (.leaf t :: inner) rest
    else gather frames (.leaf t :: inner) rest

def treesOf (tokens : List Token) : List Tree := gather [] [] tokens

end RouteLinks.Parser
