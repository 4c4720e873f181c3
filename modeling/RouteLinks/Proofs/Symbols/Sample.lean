import RouteLinks.Source.Unit
/-!
# Sample files

Files with a few public classes outside of all namespaces, for examples that depend on little else.
-/

namespace RouteLinks

/-- An action with some parameters, and with further modifiers. -/
def MethodHead.action (parameters : List Parameter := []) (modifiers : List String := []) :
    MethodHead :=
  { modifiers := "public" :: modifiers, returnType := some "IActionResult", returnTypeAt := some 0
    parameters }

def SourceUnit.sampleClass (name : String) (base : Option String := none) : SourceUnit :=
  { head := .ofClass { modifiers := ["public"], base }
    name, qualifiedName := name, filePath := "A.cs" }

def SourceUnit.sampleMethod (owner name : String) (head : MethodHead) : SourceUnit :=
  { head := .ofMethod head
    name, qualifiedName := owner ++ "." ++ name, owner := some owner, filePath := "A.cs" }

def SourceFile.sample (units : List SourceUnit) : SourceFile := { filePath := "A.cs", units }

/-- A sample with one controller, whose methods have these names and heads. -/
def SourceFile.home (methods : List (String × MethodHead)) : SourceFile :=
  .sample (.sampleClass "HomeController" ::
    methods.map fun (name, head) => .sampleMethod "HomeController" name head)

end RouteLinks
