import RouteLinks.Parser.Operand
/-!
# Broken statements

A body is broken where a statement stops short: a semicolon is missing before the end of a block or
between two operands, an operator or keyword has nothing after it, or a parenthesis is not closed.
`faults` gives the places, each as the offset where the last thing before it ends. Nothing is
reported that a correct body can contain; of braces it is known only in some places that they
enclose statements, and only there each must end in one.
-/

namespace RouteLinks.Parser

open Source

/-- Whether a negation stands here that has nothing to negate, the sign itself coming first. After
an operand the same sign says that the operand is not null. -/
def isBareNegation : List Tree → Bool
  | sign :: before =>
    sign.isSymbol "!" &&
      (before.head?.map fun t => t.isWord "return" || t.isSymbolOf openOperators).getD true
  | [] => false

/-- Whether a comma stands here after an item of a list, the comma itself coming first. In the
brackets of an array type and in type arguments commas can stand alone. -/
def isSeparator : List Tree → Bool
  | comma :: item :: _ => comma.isSymbol "," && !item.isSymbolOf ["<", ","]
  | _ => false

/-- Whether an expression is missing before the next tree, which is none at the end of a group. -/
def missesOperand (before : List Tree) (next : Option Tree) : Bool :=
  match before with
  | [] => false
  | last :: _ =>
    let isNext (texts : List String) : Bool := (next.map (·.isSymbolOf texts)).getD false
    let stops := next.isNone || isNext [";", ","]
    (stops && (last.expectsMore || last.isWordOf hungryKeywords || isBareNegation before)) ||
      (isNext infixOperators && (last.expectsMore || last.isWordOf ["return", "throw"])) ||
      (isNext infixOperators && !isNext ["<="] && last.isSymbol ",") ||
      (isNext [";"] && last.isSymbolOf [",", "*", "<", ">="]) ||
      (isNext [":"] && (last.isWord "case" || last.isSymbol "?")) ||
      (isNext [","] && isSeparator before) ||
      ((next.map (·.isGroup "(")).getD false && last.isSymbolOf [".", "?."])

/-- Whether parentheses without content stand where an expression has to be. -/
def missesContent (before : List Tree) (next : Option Tree) : Bool :=
  match before with
  | last :: head :: _ =>
    last.isEmptyParens &&
      (head.isWordOf fillingHeads ||
        ((head.expectsMore && !head.isSymbolOf links || head.isWord "return") &&
          !(next.map (·.isSymbol "=>")).getD false))
  | _ => false

/-- Whether the operand that ends before the next tree cannot be followed by a further operand. At
the beginning of a statement that is so for a call; elsewhere what precedes the operand decides. -/
def operandIsWhole (inBlock : Bool) (before : List Tree) : Bool :=
  match before, beforeOperand? before with
  | last :: _, some (context :: _) =>
    if context.isSymbol ";" then inBlock && last.isGroup "("
    else if context.isWordOf ["new", "await"] then last.isGroup "("
    else context.isWordOf ["return", "throw"] || (context.expectsMore && !context.isSymbolOf links)
  | last :: _, some [] => inBlock && last.isGroup "("
  | _, _ => false

/-- Whether two names, or a type and a name, stand here, after which no operand can follow. -/
def isDeclared : List Tree → Bool
  | name :: type :: _ => name.isPlainName && (type.isPlainName || type.isWordOf typeKeywords)
  | _ => false

/-- Whether a name with a step up or down stands here. -/
def isStepped : List Tree → Bool
  | step :: name :: _ => step.isSymbolOf ["++", "--"] && name.isPlainName
  | _ => false

def isBracedValue (inBlock : Bool) : List Tree → Bool
  | last :: before => inBlock && last.isGroup "\x7b" && givesValue before
  | [] => false

/-- Whether the statement that ends here, the last of it first, tests a value. Braces in it can be a
pattern, and a name for what has matched can follow them. -/
def testsValue : List Tree → Bool
  | [] => false
  | t :: rest => !(t.isSymbol ";" || t.isGroup "\x7b") && (t.isWord "is" || testsValue rest)

/-- Whether an operator or a semicolon is missing before an operand. -/
def missesOperator (inBlock : Bool) (before : List Tree) (next : Tree) : Bool :=
  match before with
  | last :: rest =>
    next.beginsOperand &&
      (last.isLiteral || (last.isPlainName && next.isLiteral) || operandIsWhole inBlock before ||
        isDeclared before || isStepped before || (isBracedValue inBlock before && !testsValue rest))
  | [] => false

/-- Whether a statement or a group begins with what cannot begin one. A pattern can begin with a
comparison. -/
def beginsWrong (inBlock : Bool) (before : List Tree) (next : Tree) : Bool :=
  next.isSymbolOf infixOperators &&
    match before with
    | last :: _ => inBlock && last.isSymbol ";"
    | [] => !next.isSymbol "<="

/-- The part of a statement that stands here, the last of it first. -/
def currentStatement (before : List Tree) : List Tree :=
  before.takeWhile fun t => !(t.isSymbol ";" || t.isGroup "\x7b")

/-- Whether a choice has no second branch before the next tree. A question mark behind what gives a
value, with an operand or nothing after it, is that of a choice and not of a type. -/
def missesBranch (before : List Tree) (next : Tree) : Bool :=
  let statement := currentStatement before
  let branches := statement.takeWhile (!·.isSymbol "?")
  let chosen := statement.drop (branches.length + 1)
  let isChoice := (branches.getLast?.map Tree.beginsOperand).getD true &&
    chosen.any (fun t => t.isSymbol "=" || t.isWord "return") &&
    !statement.any (fun t => t.isSymbol ":" || t.isWordOf ["is", "as"])
  let isHalf := (before.head?.map (·.isSymbol ":")).getD false && statement.any (·.isSymbol "?") &&
    !statement.any (·.isWord "case")
  next.isSymbol ";" && (isChoice || isHalf)

/-- Whether the condition of a loop stands here that has its block in front. -/
def isLoopEnd : List Tree → Bool
  | condition :: word :: block :: head :: _ =>
    condition.isGroup "(" && word.isWord "while" && block.isGroup "\x7b" && head.isWord "do"
  | _ => false

/-- Whether a statement has no end before the next tree. -/
def missesEnd (before : List Tree) (next : Tree) : Bool :=
  (isLoopEnd before && !next.isSymbol ";") ||
    (next.isWord "else" &&
      (before.head?.map fun t => !(t.isSymbol ";" || t.isGroup "\x7b")).getD true)

/-- Whether what is yielded is missing before the next tree. -/
def missesYield (before : List Tree) (next : Tree) : Bool :=
  match before with
  | last :: word :: _ => last.isWord "return" && word.isWord "yield" && next.isSymbol ";"
  | _ => false

def isFaultBefore (inBlock : Bool) (before : List Tree) (next : Tree) : Bool :=
  missesOperand before (some next) || missesYield before next ||
    missesContent before (some next) || missesOperator inBlock before next ||
    beginsWrong inBlock before next || missesBranch before next || missesEnd before next ||
    next.isSymbolOf [")", "]"]

/-- Whether something is missing at the end of a group. A block ends where a statement ends. -/
def isFaultAtEnd (inBlock : Bool) (before : List Tree) : Bool :=
  match before with
  | [] => false
  | last :: _ =>
    missesOperand before none || missesContent before none || isBracedValue inBlock before ||
      (inBlock && !(last.isSymbol ";" || last.isSymbol ":" || last.isGroup "\x7b"))

/-- Whether the arguments in parentheses begin or end without one. -/
def lacksArgument (inner : List Tree) : Bool :=
  (inner.head?.map (·.isSymbol ",")).getD false ||
    (inner.getLast?.map fun t => t.isSymbol "," || t.isSymbol ":").getD false

/-- The place after some trees, the last of which comes first. -/
def placeAfter (before : List Tree) (next : Tree) : Nat :=
  (before.head?.map Tree.stop).getD next.start

/-- The place of a missing bracket; `isHead` says whether the group is the head of a statement,
which a block follows. -/
def faultOfOpen (isHead : Bool) (inner : List Tree) (opening : Token) : Nat :=
  let isBeyond (t : Tree) : Bool :=
    t.isSymbol ";" || t.isWordOf statementWords || (isHead && t.isGroup "\x7b")
  match (inner.takeWhile (!isBeyond ·)).getLast? with
  | some last => last.stop
  | none => opening.span.stop

mutual

/-- The faults of one tree; `before` is what precedes it, the nearest first. -/
def faultsOfTree (inBlock : Bool) (before : List Tree) : Tree → List Nat
  | .leaf _ => []
  | .group opening inner closing _ =>
    let isBraces := opening.text == "\x7b"
    let isBlock := isBraces && opensBlock inBlock before
    let isFor := (before.head?.map (·.isWord "for")).getD false
    let isHead := (before.head?.map (·.isWordOf statementHeads)).getD false
    if closing.isNone && !isBraces then [faultOfOpen isHead inner opening]
    else
      let semicolon :=
        if isBraces || isFor then none else (inner.find? (·.isSymbol ";"))
      match semicolon with
      | some _ => [faultOfOpen isHead inner opening]
      | none =>
        if opening.text == "(" && !isFor && lacksArgument inner then [opening.span.stop]
        else faultsOfTrees isBlock [] inner

/-- The faults of the trees that follow `before`, the nearest of which comes first. -/
def faultsOfTrees (inBlock : Bool) (before : List Tree) : List Tree → List Nat
  | [] =>
    match before with
    | last :: _ => if isFaultAtEnd inBlock before then [last.stop] else []
    | [] => []
  | t :: rest =>
    if t.directive?.isSome then faultsOfTrees inBlock before rest
    else
      let here := if isFaultBefore inBlock before t then [placeAfter before t] else []
      here ++ faultsOfTree inBlock before t ++ faultsOfTrees inBlock (t :: before) rest

end

/-- The places where the statements of a body are broken. Directives do not count. -/
def faults (body : Tree) : List Nat :=
  match body with
  | .group _ inner _ _ => faultsOfTrees true [] inner
  | .leaf _ => []

end RouteLinks.Parser
