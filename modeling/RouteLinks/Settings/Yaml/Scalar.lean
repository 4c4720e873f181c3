import RouteLinks.Settings.Document
import RouteLinks.Settings.Yaml.Cursor
import RouteLinks.Settings.Yaml.Number
/-!
# Scalars in YAML

A scalar is plain or quoted, and both can go on over lines, which are folded. A quoted scalar is a
text. A plain one has the type that its text has in YAML 1.1, where `yes` and `off` are truth
values.
-/

namespace RouteLinks.Yaml

def flowIndicators : List Char := [',', '[', ']', '\x7b', '\x7d']

/-- Whether a colon before this text ends a scalar. -/
def colonEnds (inFlow : Bool) (rest : List Char) : Bool :=
  atGap rest || (inFlow && (rest.head?.map flowIndicators.contains).getD false)

def beginsPlain (inFlow : Bool) : List Char → Bool
  | [] => false
  | c :: rest =>
    !atGap (c :: rest) && !"-?:,[]\x7b\x7d#&*!|>'\"%@\x60".toList.contains c ||
      (!atGap rest && (c == '-' || (!inFlow && (c == '?' || c == ':'))))

/-- The rest of a line of a plain scalar; `spaces` is how many blanks are waiting for what follows
them. -/
def plainLine (inFlow : Bool) (spaces : Nat) : List Char → List Char
  | [] => []
  | c :: rest =>
    if c == '\n' || c == '\t' then []
    else if c == ' ' then plainLine inFlow (spaces + 1) rest
    else if c == '#' && spaces != 0 then []
    else if c == ':' && colonEnds inFlow rest then []
    else if inFlow && (flowIndicators.contains c || c == '?') then []
    else List.replicate spaces ' ' ++ c :: plainLine inFlow 0 rest

/-- A scalar, whether it takes several lines, and what follows. -/
structure Scalar where
  text : List Char
  isMultiline : Bool
  after : Cursor

/-- The folded form of line ends: one is a blank, of more than one the first is dropped. -/
def fold (lineEnds : Nat) : List Char :=
  if lineEnds ≤ 1 then [' '] else List.replicate (lineEnds - 1) '\n'

/-- A plain scalar. In block collections it goes on over lines that are indented up to `indent` at
least. -/
def plain (inFlow : Bool) (indent : Nat) (fuel : Nat) (done : List Char) (isMultiline : Bool)
    (c : Cursor) : Scalar :=
  let piece := plainLine inFlow 0 c.rest
  let text := done ++ piece
  let here := (c.drop piece.length).skipSpaces
  match fuel with
  | 0 => ⟨text, isMultiline, here⟩
  | fuel + 1 =>
    if here.rest.head? == some '\n' && !piece.isEmpty then
      let next := nextLine here
      if next.rest.isEmpty || next.rest.head? == some '#' || atMarker next ||
          (plainLine inFlow 0 next.rest).isEmpty || (!inFlow && next.column < indent) then
        ⟨text, isMultiline, here⟩
      else plain inFlow indent fuel (text ++ fold (next.line - here.line)) true next
    else ⟨text, isMultiline, here⟩

def simpleEscape? : Char → Option Char
  | '0' => some (Char.ofNat 0)
  | 'a' => some (Char.ofNat 7)
  | 'b' => some (Char.ofNat 8)
  | 't' | '\t' => some '\t'
  | 'n' => some '\n'
  | 'v' => some (Char.ofNat 11)
  | 'f' => some (Char.ofNat 12)
  | 'r' => some '\r'
  | 'e' => some (Char.ofNat 27)
  | ' ' => some ' '
  | '"' => some '"'
  | '/' => some '/'
  | '\\' => some '\\'
  | 'N' => some (Char.ofNat 0x85)
  | '_' => some (Char.ofNat 0xA0)
  | 'L' => some (Char.ofNat 0x2028)
  | 'P' => some (Char.ofNat 0x2029)
  | _ => none

/-- How many digits the code of an escape has. -/
def codeLength? : Char → Option Nat
  | 'x' => some 2
  | 'u' => some 4
  | 'U' => some 8
  | _ => none

def quoted? (quote : Char) (fuel : Nat) (done : List Char) (isMultiline : Bool) (c : Cursor) :
    Option Scalar :=
  match fuel, c.rest with
  | fuel + 1, d :: rest =>
    if d == quote then
      if quote == '\'' && rest.head? == some '\'' then
        quoted? quote fuel ('\'' :: done) isMultiline (c.drop 2)
      else some ⟨done.reverse, isMultiline, c.drop 1⟩
    else if d == '\\' && quote == '"' then
      match rest with
      | '\n' :: _ =>
        let next := nextLine (c.drop 1)
        let breaks := List.replicate (next.line - c.line - 1) '\n'
        quoted? quote fuel (breaks ++ done) true next
      | e :: more =>
        match codeLength? e with
        | some n =>
          let digits := more.take n
          if digits.length == n && digits.all Literal.isHexDigit then
            let e := Char.ofNat (Literal.number 16 digits)
            quoted? quote fuel (e :: done) isMultiline (c.drop (2 + n))
          else none
        | none => do
          let e ← simpleEscape? e
          quoted? quote fuel (e :: done) isMultiline (c.drop 2)
      | [] => none
    else if d == ' ' || d == '\t' || d == '\n' then
      let blanks := c.rest.takeWhile fun e => e == ' ' || e == '\t'
      let here := c.drop blanks.length
      if here.rest.head? == some '\n' then
        let next := nextLine here
        if atMarker { next with column := 0, rest := here.rest.drop 1 } || atMarker next then none
        else quoted? quote fuel ((fold (next.line - here.line)).reverse ++ done) true next
      else quoted? quote fuel (blanks.reverse ++ done) isMultiline here
    else quoted? quote fuel (d :: done) isMultiline (c.drop 1)
  | _, _ => none

/-- The texts of null and of the truth values. -/
def constants : List (List String × Document) :=
  [(["", "~", "null", "Null", "NULL"], .null),
    (["yes", "Yes", "YES", "true", "True", "TRUE", "on", "On", "ON"], .bool true),
    (["no", "No", "NO", "false", "False", "FALSE", "off", "Off", "OFF"], .bool false),
    ([".inf", ".Inf", ".INF", "+.inf", "+.Inf", "+.INF"], .real (1.0 / 0.0)),
    (["-.inf", "-.Inf", "-.INF"], .real (-1.0 / 0.0)),
    ([".nan", ".NaN", ".NAN"], .real (0.0 / 0.0))]

/-- The value of a plain scalar, none if it is a whole number with too many digits. -/
def resolve? (cs : List Char) : Option Document :=
  match constants.find? fun (texts, _) => texts.contains (String.ofList cs) with
  | some (_, value) => some value
  | none =>
    let (negative, unsigned) := Literal.sign cs
    match natural? unsigned with
    | some n => n.toOption.map fun (n : Nat) => .int (if negative then -(n : Int) else n)
    | none =>
      match real? cs with
      | some x => some (.real x)
      | none => some (.text (String.ofList cs))

/-- A scalar of either kind: its value, whether it takes several lines, and what follows. -/
def scalar? (inFlow : Bool) (indent : Nat) (c : Cursor) : Option (Document × Bool × Cursor) :=
  match c.rest with
  | q :: rest =>
    if q == '"' || q == '\'' then
      (quoted? q (rest.length + 1) [] false (c.drop 1)).map fun s =>
        (.text (String.ofList s.text), s.isMultiline, s.after)
    else if beginsPlain inFlow c.rest then
      let s := plain inFlow indent c.rest.length [] false c
      (resolve? s.text).map fun v => (v, s.isMultiline, s.after)
    else none
  | [] => none

end RouteLinks.Yaml
