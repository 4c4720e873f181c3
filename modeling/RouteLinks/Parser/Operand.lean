import RouteLinks.Parser.Tree
import RouteLinks.Text.Identifier
/-!
# Operands and operators

Which tokens of a body can stand beside one another. Words are told apart no further than is sure: a
word that is a keyword in some places and a name in others counts as neither, so that nothing is
concluded from it.
-/

namespace RouteLinks.Parser

open Source

/-- The operators after which an expression has to follow. -/
def openOperators : List String :=
  ["=", "+", "-", "/", "%", "&&", "||", "??", "==", "!=", "<=", "+=", "-=", "*=", "/=", "%=", "&=",
    "|=", "^=", "??=", "<<=", "<<", "=>", "->", "::", ".", "|", "&", "~"]

/-- The operators between two names that together are one. -/
def links : List String := [".", "::", "->", "?."]

/-- The operators that no expression begins with. -/
def infixOperators : List String :=
  ["=", "/", "%", "&&", "||", "??", "==", "!=", "<=", "+=", "-=", "*=", "/=", "%=", "&=", "|=",
    "^=", "??=", "<<=", "<<", "=>", "->", ".", "|", "?"]

/-- The words that may follow an operand. -/
def wordsAfterOperand : List String :=
  ["is", "as", "in", "and", "or", "not", "when", "switch", "with", "select", "where", "orderby",
    "join", "on", "equals", "into", "let", "group", "by", "from", "ascending", "descending", "else"]

/-- Words that are names in some places, and neither names nor operands in others. -/
def contextualWords : List String :=
  ["async", "await", "scoped", "yield", "partial", "required", "file", "global", "unmanaged",
    "managed", "record", "dynamic", "nint", "nuint", "nameof", "add", "remove", "get", "set",
    "init", "_"]

def typeKeywords : List String :=
  ["bool", "byte", "char", "decimal", "double", "float", "int", "long", "object", "sbyte", "short",
    "string", "uint", "ulong", "ushort"]

def valueKeywords : List String := ["this", "base", "null", "true", "false"]

/-- The keywords that cannot stand at the end. -/
def hungryKeywords : List String :=
  ["new", "as", "is", "in", "goto", "out", "ref", "stackalloc", "await"]

/-- The words whose parentheses are followed by a statement. -/
def statementHeads : List String :=
  ["if", "while", "for", "foreach", "using", "lock", "fixed", "switch", "catch", "when"]

/-- The words whose parentheses cannot be empty. -/
def fillingHeads : List String :=
  ["if", "while", "foreach", "using", "lock", "fixed", "switch", "typeof", "sizeof"]

/-- The words that are followed by a block. -/
def blockHeads : List String :=
  ["else", "do", "try", "finally", "checked", "unchecked", "unsafe", "catch"]

/-- The words that begin a statement and nothing else. -/
def statementWords : List String :=
  ["return", "break", "continue", "goto", "if", "while", "for", "foreach", "do", "try", "lock"]

namespace Tree

def isSymbolOf (t : Tree) (texts : List String) : Bool :=
  match t with
  | .leaf token => token.kind == .symbol && texts.contains token.text
  | _ => false

def isWordOf (t : Tree) (texts : List String) : Bool := (t.word?.map texts.contains).getD false

def isLiteral : Tree → Bool
  | .leaf token => token.kind == .literal
  | _ => false

/-- Whether a tree is a name wherever it stands. -/
def isPlainName (t : Tree) : Bool :=
  match t.word? with
  | some w => !(Identifier.reserved ++ wordsAfterOperand ++ contextualWords).contains w
  | none => false

def expectsMore (t : Tree) : Bool := t.isSymbolOf openOperators

/-- Whether a tree begins an operand and cannot go on with one. -/
def beginsOperand (t : Tree) : Bool :=
  t.isLiteral || (t.word?.map fun w => !wordsAfterOperand.contains w).getD false

/-- Whether a tree is a group in parentheses without content. -/
def isEmptyParens (t : Tree) : Bool := ((t.inside? "(").map List.isEmpty).getD false

end Tree

/-- Whether braces after these trees, the nearest first, enclose statements. `inBlock` says whether
the trees are statements themselves. -/
def opensBlock (inBlock : Bool) : List Tree → Bool
  | [] => inBlock
  | last :: before =>
    if last.isSymbol "=>" then true
    else if last.isSymbol ";" || last.isGroup "\x7b" || last.isSymbol ":" then inBlock
    else if last.isGroup "(" then
      match before with
      | head :: _ => head.isWordOf statementHeads
      | [] => false
    else last.isWordOf blockHeads

/-- What precedes the operand that ends here, the nearest first; none if no operand ends here. An
operand is a literal, or a chain of names, calls and elements. -/
def beforeOperand? : List Tree → Option (List Tree)
  | [] => none
  | t :: rest =>
    if t.isGroup "(" || t.isGroup "[" then beforeOperand? rest
    else if t.isLiteral || t.isPlainName || t.isWordOf valueKeywords then
      match rest with
      | [] => some []
      | link :: more => if link.isSymbolOf links then beforeOperand? more else some (link :: more)
    else none

/-- Whether a statement, the last of it first, gives or answers a value. -/
def givesValue : List Tree → Bool
  | [] => false
  | t :: rest =>
    if t.isSymbol ";" || t.isGroup "\x7b" then false
    else t.isSymbolOf ["=", "=>", "+=", "??="] || t.isWordOf ["return", "throw"] || givesValue rest

end RouteLinks.Parser
