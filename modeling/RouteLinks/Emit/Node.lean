import RouteLinks.Emit.Emitter
import RouteLinks.Order
/-!
# Generated declarations

Generated code is built as a tree and written at the end, so that declarations can be grouped first.
Between two neighbours stands an empty line if one of them takes more than a line.
-/

namespace RouteLinks

/-- A generated declaration. -/
inductive Node where
  | raw (text : String)
  | method (signature : String) (body attributes : List String)
  | type (name : String) (modifiers bases attributes : List String) (members : List Node)
  | scope (name : String) (usings : List String) (members : List Node)
  deriving Inhabited

namespace Node

/-- Whether a declaration is set off from its neighbours. -/
def isBlock : Node → Bool
  | .raw text => text.toList.contains '\n'
  | _ => true

def typeHeader (name : String) (modifiers bases : List String) : String :=
  let head := " ".intercalate (modifiers ++ ["class", name])
  if bases.isEmpty then head else head ++ " : " ++ ", ".intercalate bases

mutual

def write (e : Emitter) : Node → Emitter
  | .raw text => e.emitLines text
  | .method signature body attributes =>
    (body.foldl Emitter.emit ((attributes.foldl Emitter.emit e).openBlock signature)).closeBlock
  | .type name modifiers bases attributes members =>
    let e := (attributes.foldl Emitter.emit e).openBlock (typeHeader name modifiers bases)
    (writeAll e none members).closeBlock
  | .scope name usings members =>
    let e := e.openBlock ("namespace " ++ name)
    let e := usings.foldl (fun e u => e.emit ("using " ++ u ++ ";")) e
    let e := if usings.isEmpty || members.isEmpty then e else e.emitBlank 1
    (writeAll e none members).closeBlock

/-- Writes neighbours; `previous` says whether the one before was set off. -/
def writeAll (e : Emitter) (previous : Option Bool) : List Node → Emitter
  | [] => e
  | node :: rest =>
    let e :=
      match previous with
      | some wasBlock => if wasBlock || node.isBlock then e.emitBlank 1 else e
      | none => e
    writeAll (write e node) (some node.isBlock) rest

end

def render (node : Node) : String := (write {} node).text

/-- Adds namespaces to those that a scope opens already. -/
def addUsings (node : Node) (usings : List String) : Node :=
  match node with
  | .scope name present members => .scope name (mergeUnique present usings) members
  | other => other

end Node

/-- A generated file. -/
structure CompilationUnit where
  header : String := ""
  usings : List String := []
  members : List Node := []

/-- The text of a file: header, namespaces and declarations. -/
def CompilationUnit.render (unit : CompilationUnit) : String :=
  let e : Emitter := {}
  let e := if unit.header.isEmpty then e else (e.emitLines unit.header).emitBlank 1
  let e := unit.usings.foldl (fun e u => e.emit ("using " ++ u ++ ";")) e
  let e := if unit.usings.isEmpty then e else e.emitBlank 1
  (Node.writeAll e none unit.members).text

end RouteLinks
