/-!
# Identifiers

Identifiers made of ASCII letters, digits and underscores: which texts are identifiers, and the
identifier that is made of a file name.
-/

namespace RouteLinks.Identifier

def isPart (c : Char) : Bool := c.isAlphanum || c == '_'

/-- A character that an identifier may begin with. -/
def isStart (c : Char) : Bool := c.isAlpha || c == '_'

/-- An identifier, which may be marked as verbatim. -/
def isIdentifier (s : String) : Bool :=
  let cs := match s.toList with | '@' :: rest => rest | cs => cs
  match cs with
  | c :: rest => isStart c && rest.all isPart
  | [] => false

/-- Words that are identifiers only if marked as verbatim. -/
def reserved : List String :=
  ["abstract", "as", "base", "bool", "break", "byte", "case", "catch", "char", "checked", "class",
    "const", "continue", "decimal", "default", "delegate", "do", "double", "else", "enum", "event",
    "explicit", "extern", "false", "finally", "fixed", "float", "for", "foreach", "goto", "if",
    "implicit", "in", "int", "interface", "internal", "is", "lock", "long", "namespace", "new",
    "null", "object", "operator", "out", "override", "params", "private", "protected", "public",
    "readonly", "ref", "return", "sbyte", "sealed", "short", "sizeof", "stackalloc", "static",
    "string", "struct", "switch", "this", "throw", "true", "try", "typeof", "uint", "ulong",
    "unchecked", "unsafe", "ushort", "using", "virtual", "void", "volatile", "while"]

/-- The identifier made of a name: every other character becomes an underscore, one is put in front
of a leading digit, and a reserved word is marked. -/
def ofName (name : String) : String :=
  let cs := name.toList.map fun c => if isPart c then c else '_'
  let cs := match cs with
    | [] => ['_']
    | c :: rest => if c.isDigit then '_' :: c :: rest else c :: rest
  let s := String.ofList cs
  if reserved.contains s then "@" ++ s else s

end RouteLinks.Identifier
