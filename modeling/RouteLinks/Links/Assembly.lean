import RouteLinks.Emit.Layout
import RouteLinks.Links.Companion
/-!
# Assembly of files

Every generated file begins with the same comments and namespaces. The file at the root of the
project has what all generated code shares: the marker class, the interface of results and what sets
them up, the registry, and the two classes of results. A file is finished by bringing it to its
canonical layout inside a region without the warnings that generated code would raise.
-/

namespace RouteLinks

/-- The comments at the beginning of a generated file. -/
def banner : String :=
  "\n".intercalate
    ["// <auto-generated />", "// This file was generated by LinkForge.",
      "// Don't change it directly as your change would get overwritten.  Instead, make changes",
      "// to the linkforge.json file (i.e. the settings file), save it and rebuild.", "",
      "// Make sure the compiler doesn't complain about missing Xml comments and CLS compliance",
      "// 0108: suppress \"Foo hides inherited member Foo.Use the new keyword if hiding was " ++
        "intended.\" when a controller and its abstract parent are both processed"]

def commonUsings : List String :=
  ["System.CodeDom.Compiler", "System.Diagnostics", "System.Threading.Tasks",
    "Microsoft.AspNetCore.Mvc", "Microsoft.AspNetCore.Routing"]

/-- The warnings that are switched off in generated files. -/
def silencedWarnings : List String := ["1591", "3008", "3009", "0108"]

def resultInterface : String := "IRouteDescriptor"

def setupMethod : String := "InitResultDescriptor"

/-- The properties of a result, each with its type. -/
def resultProperties : List (String × String) :=
  [("string", "Controller"), ("string", "Action"), ("string", "Protocol"),
    ("RouteValueDictionary", "RouteValueDictionary")]

def propertyText (type name : String) : String := type ++ " " ++ name ++ " \x7b get; set; \x7d"

def dummyDeclaration : Node :=
  .type dummyClass ["public"] [] [generatedMark]
    [.method ("private " ++ dummyClass ++ "()") [] [],
      .raw ("public static " ++ dummyClass ++ " Instance = new " ++ dummyClass ++ "();")]

def interfaceDeclaration : Node :=
  .raw ("\n".intercalate
    (["public interface " ++ resultInterface, "\x7b"] ++
      resultProperties.map (fun (type, name) => "    " ++ propertyText type name) ++ ["\x7d"]))

/-- The class with the method that sets up a result. -/
def setupDeclaration : Node :=
  .type "RouteDescriptorExtensions" ["public", "static"] [] [generatedMark]
    [.method
      ("public static void " ++ setupMethod ++ "(this " ++ resultInterface ++
        " result, string area, string controller, string action, string protocol = null)")
      ["result.Controller = controller;", "result.Action = action;", "result.Protocol = protocol;",
        "result.RouteValueDictionary = new RouteValueDictionary();",
        "result.RouteValueDictionary.Add(\"Area\", area ?? \"\");",
        "result.RouteValueDictionary.Add(\"Controller\", controller);",
        "result.RouteValueDictionary.Add(\"Action\", action);"]
      []]

/-- The namespace of what all generated code shares. -/
def supportNamespace (s : Settings) : Node :=
  .scope s.targetNamespace [] [dummyDeclaration, interfaceDeclaration, setupDeclaration]

def registryClass (s : Settings) (fields : List String) : Node :=
  .type s.namingPrefix ["public", "static", "partial"] [] [generatedMark] (fields.map Node.raw)

def resultClass (kind : ResultKind) : Node :=
  let chain := match kind with | .generic => "" | .data => " : base(null)"
  .type kind.className ["internal", "partial"] [kind.baseName, resultInterface] [generatedMark]
    (.method
      ("public " ++ kind.className ++
        "(string area, string controller, string action, string protocol = null)" ++ chain)
      ["this." ++ setupMethod ++ "(area, controller, action, protocol);"] [] ::
      resultProperties.map fun (type, name) => .raw ("public " ++ propertyText type name))

def unitOf (s : Settings) (members : List Node) : CompilationUnit :=
  { header := banner, usings := commonUsings ++ [s.targetNamespace], members }

/-- The file at the root: declarations for controllers, links to static files, and what is
shared. -/
def aggregateUnit (s : Settings) (members : List Node) (staticLinks : Option Node)
    (fields : List String) : CompilationUnit :=
  unitOf s
    (members ++ staticLinks.toList ++
      [supportNamespace s, registryClass s fields, resultClass .generic, resultClass .data])

/-- The text of a file as it is written. -/
def CompilationUnit.finish (unit : CompilationUnit) : String :=
  let text := Layout.normalize (Layout.withPragmas unit.render silencedWarnings)
  Layout.withPragmas text silencedWarnings

end RouteLinks
