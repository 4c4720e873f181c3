import RouteLinks.Parser.Declaration
import RouteLinks.Source.Lexer
/-!
# A parser to run with

The program calls a generated parser, which is no part of this library. So that it can be run, this
one stands in for it: it makes the nodes that are read, and finds broken places in bodies, for the
sources that the program is tried on. Nothing that is proved depends on it.

A source is parsed level by level: the file and its namespaces, classes, and the members of classes.
Code that a directive makes conditional is one node.
-/

namespace RouteLinks.Parser

open Source

/-- The items after a conditional group; `depth` counts the groups that are open in it. -/
def afterConditional (depth : Nat) : List Tree → List Tree
  | [] => []
  | t :: rest =>
    match t.directive? with
    | some "if" => afterConditional (depth + 1) rest
    | some "endif" =>
      match depth with
      | 0 => rest
      | d + 1 => afterConditional d rest
    | _ => afterConditional depth rest

/-- The node of a body in braces. A brace that is not closed is a broken place. -/
def bodyNode (s : Input) (body : Tree) (members : List SyntaxNode) : SyntaxNode :=
  let missing := match body with
    | .group _ _ none stop => [s.missing stop]
    | _ => []
  s.node "declaration_list" ⟨body.start, body.stop⟩ (members ++ missing) (some "body")

def memberNodes (s : Input) (fuel : Nat) (trees : List Tree) : List SyntaxNode :=
  match fuel, trees with
  | 0, _ => []
  | _, [] => []
  | fuel + 1, t :: rest =>
    if t.directive? == some "if" then
      s.part "preproc_if" [t] ++ memberNodes s fuel (afterConditional 0 rest)
    else if t.directive?.isSome || t.isSymbol ";" then memberNodes s fuel rest
    else
      match readClass? (t :: rest) with
      | some parts =>
        let body := parts.body.map fun body =>
          bodyNode s body (memberNodes s fuel ((body.inside? "\x7b").getD []))
        classNode s parts body :: memberNodes s fuel parts.rest
      | none =>
        let (whole, rest) := declarationEnd false (t :: rest)
        let span := (spanOf? whole).getD ⟨0, 0⟩
        let member := match otherTypeBody? whole with
          | some body => s.node "type_declaration" span (memberNodes s fuel body)
          | none => (memberNode? s whole).getD (s.leaf "declaration" span)
        member :: memberNodes s fuel rest

def beginsUsing : List Tree → Bool
  | t :: rest =>
    (t.isWord "using" && !((rest.head?.map (·.isGroup "(")).getD false)) ||
      (t.isWord "global" && (rest.head?.map (·.isWord "using")).getD false)
  | [] => false

def throughSemicolon : List Tree → List Tree × List Tree
  | [] => ([], [])
  | t :: rest =>
    if t.isSymbol ";" then ([t], rest)
    else
      let (more, rest) := throughSemicolon rest
      (t :: more, rest)

/-- The nodes of a file or namespace. -/
def itemNodes (s : Input) (fuel : Nat) (trees : List Tree) : List SyntaxNode :=
  match fuel, trees with
  | 0, _ => []
  | _, [] => []
  | fuel + 1, t :: rest =>
    if t.directive? == some "if" then
      s.part "preproc_if" [t] ++ itemNodes s fuel (afterConditional 0 rest)
    else if t.directive?.isSome || t.isSymbol ";" then itemNodes s fuel rest
    else if isGlobalAttribute t then s.part "global_attribute" [t] ++ itemNodes s fuel rest
    else if beginsUsing (t :: rest) then
      let (directive, rest) := throughSemicolon (t :: rest)
      s.part "using_directive" directive ++ itemNodes s fuel rest
    else if t.isWord "namespace" then
      let isEnd (u : Tree) : Bool := u.isGroup "\x7b" || u.isSymbol ";"
      let front := s.sign "namespace" t ::
        s.part "qualified_name" (rest.takeWhile (!isEnd ·)) (some "name")
      match rest.dropWhile (!isEnd ·) with
      | u :: after =>
        let span : Span := ⟨t.start, u.stop⟩
        let declared := match u.inside? "\x7b" with
          | some body =>
            s.node "namespace_declaration" span
              (front ++ [bodyNode s u (itemNodes s fuel body)])
          | none => s.node "file_scoped_namespace_declaration" span front
        declared :: itemNodes s fuel after
      | [] => []
    else
      match readClass? (t :: rest) with
      | some parts =>
        let body := parts.body.map fun body =>
          bodyNode s body (memberNodes s fuel ((body.inside? "\x7b").getD []))
        classNode s parts body :: itemNodes s fuel parts.rest
      | none =>
        let (whole, rest) := declarationEnd false (t :: rest)
        let span := (spanOf? whole).getD ⟨0, 0⟩
        s.node "type_declaration" span (memberNodes s fuel ((otherTypeBody? whole).getD [])) ::
          itemNodes s fuel rest

def tree : Grammar := fun bytes =>
  let ps := pieces bytes
  let tokens := ps.filterMap Piece.token?
  let s : Input := { bytes, comments := commentSpans ps }
  s.node "compilation_unit" ⟨0, bytes.length⟩ (itemNodes s (tokens.length + 1) (treesOf tokens))

end RouteLinks.Parser
