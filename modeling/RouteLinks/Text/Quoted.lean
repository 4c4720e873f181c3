import RouteLinks.Text.Basic
import RouteLinks.Unicode.Printable
/-!
# Quoted text

Two written forms of a text. The *regular literal* is the one of C# source: double quotes, with the
backslash and the quote escaped. The *display form* is the one used in messages about values: single
quotes where possible, and an escape for everything that would not be seen.
-/

namespace RouteLinks.Quoted

/-- Escapes the backslash and the double quote. -/
def escape : List Char → List Char
  | [] => []
  | c :: rest => if c == '\\' || c == '"' then '\\' :: c :: escape rest else c :: escape rest

def regular (s : String) : String :=
  "\"" ++ String.ofList (escape s.toList) ++ "\""

/-- What an escape sequence stands for; none if it is not one of the simple ones. -/
def simpleEscape? : Char → Option Char
  | 'n' => some '\n'
  | 't' => some '\t'
  | 'r' => some '\r'
  | '0' => some (Char.ofNat 0)
  | '\\' => some '\\'
  | '"' => some '"'
  | '\'' => some '\''
  | _ => none

/-- Reads simple escapes. A backslash that begins no simple escape stays, with what follows it. -/
def unescape : List Char → List Char
  | [] => []
  | '\\' :: c :: rest =>
    match simpleEscape? c with
    | some d => d :: unescape rest
    | none => '\\' :: c :: unescape rest
  | c :: rest => c :: unescape rest

/-- Undoes the doubling of quotes in a verbatim literal. -/
def undouble : List Char → List Char
  | [] => []
  | '"' :: '"' :: rest => '"' :: undouble rest
  | c :: rest => c :: undouble rest

/-- A number in lower-case hexadecimal, with leading zeros. -/
def hex (width n : Nat) : List Char :=
  let digits := Nat.toDigits 16 n
  List.replicate (width - digits.length) '0' ++ digits

def displayChar (quote c : Char) : List Char :=
  if c == quote || c == '\\' then ['\\', c]
  else if c == '\n' then ['\\', 'n']
  else if c == '\r' then ['\\', 'r']
  else if c == '\t' then ['\\', 't']
  else if Unicode.isPrintable c then [c]
  else if c.toNat < 0x100 then '\\' :: 'x' :: hex 2 c.toNat
  else if c.toNat < 0x10000 then '\\' :: 'u' :: hex 4 c.toNat
  else '\\' :: 'U' :: hex 8 c.toNat

/-- A text in display form. Double quotes are used only where the text has single quotes alone. -/
def display (s : String) : String :=
  let cs := s.toList
  let quote := if cs.contains '\'' && !cs.contains '"' then '"' else '\''
  String.ofList (quote :: cs.flatMap (displayChar quote) ++ [quote])

end RouteLinks.Quoted
