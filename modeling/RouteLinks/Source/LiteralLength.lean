import RouteLinks.Source.Token
/-!
# Lengths of literals

A string literal ends where its form says: a regular one at the next quote that is not escaped, a
verbatim one at the next quote that is not doubled, a raw one at as many quotes as it began with. An
interpolated string has holes, in which there is code again, and in that code strings.
-/

namespace RouteLinks.Source

/-- How often a character stands at the beginning. -/
def runLength (c : Char) (cs : List Char) : Nat := (cs.takeWhile (· == c)).length

def isWordChar (c : Char) : Bool := c.isAlphanum || c == '_'

/-- The length of a number: digits, letters and separators, a point with digits after it, and the
sign of an exponent. -/
def numberLength (cs : List Char) : Nat :=
  let whole := cs.takeWhile isWordChar
  let rest := cs.drop whole.length
  let (part, rest) :=
    match rest with
    | '.' :: d :: more =>
      if d.isDigit then
        let digits := (d :: more).takeWhile isWordChar
        ('.' :: digits, (d :: more).drop digits.length)
      else ([], rest)
    | _ => ([], rest)
  let soFar := whole ++ part
  let isHex := (whole.map Char.toLower).take 2 == ['0', 'x']
  let endsInExponent := !isHex && (soFar.map Char.toLower).getLast? == some 'e'
  match rest with
  | sign :: d :: more =>
    if endsInExponent && (sign == '+' || sign == '-') && d.isDigit then
      soFar.length + 1 + ((d :: more).takeWhile isWordChar).length
    else soFar.length
  | _ => soFar.length

/-- The length of a character literal after its quote. It does not go on to the next line. -/
def characterLength : List Char → Nat
  | [] => 0
  | '\\' :: _ :: rest => characterLength rest + 2
  | c :: rest => if c == '\'' then 1 else if c == '\n' then 0 else characterLength rest + 1

/-- The form of a string literal: how many quotes end it, whether quotes are doubled in it, and how
many braces open a hole, zero if it has none. -/
structure StringForm where
  quotes : Nat
  verbatim : Bool
  braces : Nat

/-- A raw string has neither escapes nor doubled quotes. -/
def StringForm.isRaw (f : StringForm) : Bool := 3 ≤ f.quotes

/-- A string with escapes ends at the end of the line at the latest. -/
def StringForm.hasEscapes (f : StringForm) : Bool := !f.isRaw && !f.verbatim

/-- The form of the string literal that begins here, and the length of its opening. -/
def stringOpening? (cs : List Char) : Option (StringForm × Nat) :=
  let marks := cs.takeWhile fun c => c == '$' || c == '@'
  let quotes := runLength '"' (cs.drop marks.length)
  let braces := marks.count '$'
  if quotes == 0 then none
  else if marks.contains '@' then some (⟨1, true, braces⟩, marks.length + 1)
  else if 3 ≤ quotes then some (⟨quotes, false, braces⟩, marks.length + quotes)
  else some (⟨1, false, braces⟩, marks.length + 1)

mutual

/-- The length of a string literal after its opening, its end included. -/
def stringLength (form : StringForm) (fuel : Nat) (cs : List Char) : Nat :=
  match fuel, cs with
  | 0, _ => 0
  | _, [] => 0
  | fuel + 1, c :: rest =>
    if c == '"' then
      let run := runLength '"' cs
      if form.isRaw then
        if form.quotes ≤ run then form.quotes else run + stringLength form fuel (cs.drop run)
      else if form.verbatim && 2 ≤ run then 2 + stringLength form fuel (rest.drop 1)
      else 1
    else if c == '\\' && form.hasEscapes then 2 + stringLength form fuel (rest.drop 1)
    else if c == '\n' && form.hasEscapes then 0
    else if c == '\x7b' && form.braces != 0 then
      let run := runLength '\x7b' cs
      if form.isRaw then
        if run < form.braces then run + stringLength form fuel (cs.drop run)
        else
          let hole := holeLength form 0 fuel (cs.drop run)
          run + hole + stringLength form fuel (cs.drop (run + hole))
      else if 2 ≤ run then 2 + stringLength form fuel (rest.drop 1)
      else
        let hole := holeLength form 0 fuel rest
        1 + hole + stringLength form fuel (rest.drop hole)
    else 1 + stringLength form fuel rest

/-- The length of a hole after its opening, the closing braces included. -/
def holeLength (form : StringForm) (depth : Nat) (fuel : Nat) (cs : List Char) : Nat :=
  match fuel, cs with
  | 0, _ => 0
  | _, [] => 0
  | fuel + 1, c :: rest =>
    match stringOpening? cs with
    | some (inner, opening) =>
      let length := opening + stringLength inner fuel (cs.drop opening)
      length + holeLength form depth fuel (cs.drop length)
    | none =>
      if c == '\'' then
        let length := 1 + characterLength rest
        length + holeLength form depth fuel (cs.drop length)
      else if c == '(' || c == '[' || c == '\x7b' then 1 + holeLength form (depth + 1) fuel rest
      else if c == ')' || c == ']' then 1 + holeLength form (depth - 1) fuel rest
      else if c == '\x7d' then
        if depth == 0 then (if form.isRaw then form.braces else 1)
        else 1 + holeLength form (depth - 1) fuel rest
      else 1 + holeLength form depth fuel rest

end

end RouteLinks.Source
