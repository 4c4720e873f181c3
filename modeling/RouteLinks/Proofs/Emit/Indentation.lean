import RouteLinks.Proofs.Emit.Node
/-!
# Indentation

A declaration looks the same at every depth, but for the margin. Its lines stand each at a depth of
its own below the one at which the declaration is written, so what is written further in is what is
written at the outermost level with the margin put before each line that is not empty, and the depth
is afterwards what it was before.

That a declaration has these lines whatever the depth is holds of every piece of writing that an
emitter offers, and it is kept when pieces follow each other or are put into a block.
-/

namespace RouteLinks

namespace Text

variable {margin line : List Char}

def indentLine (margin line : List Char) : List Char := if line.isEmpty then [] else margin ++ line

/-- A text with a margin before each line that is not empty. -/
def indentLines (margin text : List Char) : List Char :=
  ['\n'].intercalate ((fields '\n' text).map (indentLine margin))

theorem indentLines_append (h : '\n' ∉ line) (text : List Char) :
    indentLines margin (line ++ '\n' :: text) =
      indentLine margin line ++ '\n' :: indentLines margin text := by
  have hne : (fields '\n' text).map (indentLine margin) ≠ [] := by simp [fields_ne_nil]
  rw [indentLines, fields_append_separator, fields_of_not_mem h, List.map_append,
    List.map_singleton, List.singleton_append, List.intercalate_cons_of_ne_nil hne,
    List.append_assoc]
  rfl

end Text

namespace Emitter

open Text (copies indentLine indentLines)

variable {f g : Emitter → Emitter}

/-- A line of code, and its depth below the one at which it is written. -/
structure PlacedLine where
  depth : Nat
  code : List Char

namespace PlacedLine

def shown (indentation : List Char) (depth : Nat) (line : PlacedLine) : List Char :=
  if line.code.all Text.isBlank then [] else copies (depth + line.depth) indentation ++ line.code

def render (indentation : List Char) (depth : Nat) (lines : List PlacedLine) : List Char :=
  lines.flatMap fun line => line.shown indentation depth ++ ['\n']

def deeper (line : PlacedLine) : PlacedLine := { line with depth := line.depth + 1 }

theorem shown_deeper (indentation : List Char) (depth : Nat) (line : PlacedLine) :
    line.deeper.shown indentation depth = line.shown indentation (depth + 1) := by
  have hdepth : depth + (line.depth + 1) = depth + 1 + line.depth := by omega
  show (if line.code.all Text.isBlank then [] else
    copies (depth + (line.depth + 1)) indentation ++ line.code) = _
  rw [hdepth]
  rfl

theorem indentLine_shown (indentation : List Char) (depth : Nat) (line : PlacedLine) :
    indentLine (copies depth indentation) (line.shown indentation 0) =
      line.shown indentation depth := by
  rw [shown, shown]
  split
  · rfl
  · next hshown =>
    have hcode : line.code ≠ [] := fun hempty => hshown (by rw [hempty]; rfl)
    rw [indentLine, if_neg (by simp [hcode]), Text.copies_add depth, Nat.zero_add,
      List.append_assoc]

theorem not_mem_shown {indentation : List Char} (hindentation : '\n' ∉ indentation)
    {line : PlacedLine} (hline : '\n' ∉ line.code) (depth : Nat) :
    '\n' ∉ line.shown indentation depth := by
  rw [shown]
  split
  · simp
  · exact fun hmem => (List.mem_append.mp hmem).elim
      (fun hmargin => hindentation (Text.mem_copies hmargin)) hline

theorem indentLines_render {indentation : List Char} (hindentation : '\n' ∉ indentation)
    (depth : Nat) {lines : List PlacedLine} (hlines : ∀ line ∈ lines, '\n' ∉ line.code) :
    indentLines (copies depth indentation) (render indentation 0 lines) =
      render indentation depth lines := by
  induction lines with
  | nil => rfl
  | cons line rest ih =>
      obtain ⟨hline, hrest⟩ := List.forall_mem_cons.mp hlines
      have hcut : ∀ depth, render indentation depth (line :: rest) =
          line.shown indentation depth ++ '\n' :: render indentation depth rest := by
        intro depth
        rw [render, List.flatMap_cons, List.append_assoc]
        rfl
      rw [hcut, hcut, Text.indentLines_append (not_mem_shown hindentation hline 0), ih hrest,
        indentLine_shown]

end PlacedLine

def place (e : Emitter) (lines : List PlacedLine) : Emitter :=
  { e with text := e.text ++ String.ofList (PlacedLine.render e.indentation.toList e.depth lines) }

theorem place_nil (e : Emitter) : e.place [] = e := by simp [place, PlacedLine.render]

theorem place_place (e : Emitter) (lines more : List PlacedLine) :
    (e.place lines).place more = e.place (lines ++ more) := by
  simp [place, PlacedLine.render, String.append_assoc]

theorem dedent_place (e : Emitter) (lines : List PlacedLine) :
    (e.indent.place lines).dedent = e.place (lines.map PlacedLine.deeper) := by
  simp [place, PlacedLine.render, indent, dedent, List.flatMap_map, PlacedLine.shown_deeper]

/-- Writing that adds the same lines at every depth, each at its own below it. -/
def LineByLine (f : Emitter → Emitter) : Prop :=
  ∃ lines : List PlacedLine, (∀ line ∈ lines, '\n' ∉ line.code) ∧ ∀ e, f e = e.place lines

namespace LineByLine

theorem id : LineByLine fun e => e :=
  ⟨[], by simp, fun e => e.place_nil.symm⟩

theorem emit {code : String} (h : '\n' ∉ code.toList) : LineByLine (·.emit code) := by
  refine ⟨[⟨0, code.toList⟩], by simpa using h, fun e => ?_⟩
  have hmargin : String.ofList (copies e.depth e.indentation.toList) = e.margin := by
    rw [← toList_margin, String.ofList_toList]
  have hrender : PlacedLine.render e.indentation.toList e.depth [⟨0, code.toList⟩] =
      (if code.toList.all Text.isBlank then [] else
        copies e.depth e.indentation.toList ++ code.toList) ++ ['\n'] := by
    rw [PlacedLine.render, List.flatMap_singleton]
    rfl
  show e.emit code = _
  rw [Emitter.emit, place, hrender]
  split
  · rfl
  · simp [hmargin, String.append_assoc]

theorem emitBlank : LineByLine (·.emitBlank 1) := by
  refine ⟨[⟨0, []⟩], by simp, fun e => ?_⟩
  simp [place, PlacedLine.render, PlacedLine.shown, Emitter.emitBlank]

theorem comp (hf : LineByLine f) (hg : LineByLine g) : LineByLine fun e => g (f e) := by
  obtain ⟨lines, hlines, hf⟩ := hf
  obtain ⟨more, hmore, hg⟩ := hg
  refine ⟨lines ++ more, fun line hline => (List.mem_append.mp hline).elim (hlines line)
    (hmore line), fun e => ?_⟩
  show g (f e) = _
  rw [hg, hf, place_place]

theorem foldl {α : Type} {f : Emitter → α → Emitter} {xs : List α}
    (h : ∀ x ∈ xs, LineByLine (f · x)) : LineByLine fun e => xs.foldl f e := by
  induction xs with
  | nil => exact id
  | cons x rest ih =>
      obtain ⟨hx, hrest⟩ := List.forall_mem_cons.mp h
      exact hx.comp (ih hrest)

theorem ite (c : Prop) [Decidable c] (hf : LineByLine f) (hg : LineByLine g) :
    LineByLine fun e => if c then f e else g e := by
  by_cases h : c
  · simpa only [if_pos h] using hf
  · simpa only [if_neg h] using hg

theorem nested (h : LineByLine f) : LineByLine fun e => (f e.indent).dedent := by
  obtain ⟨lines, hlines, hf⟩ := h
  refine ⟨lines.map PlacedLine.deeper, ?_, fun e => ?_⟩
  · simpa [PlacedLine.deeper] using hlines
  · show (f e.indent).dedent = _
    rw [hf, dedent_place]

theorem block {header : String} (hheader : '\n' ∉ header.toList) (h : LineByLine f) :
    LineByLine fun e => (f (e.openBlock header)).closeBlock :=
  (((emit hheader).comp (emit (by decide))).comp h.nested).comp (emit (by decide))

/-- What is written further in is what is written at the outermost level, with the margin. -/
theorem eq_indentLines (h : LineByLine f) {e : Emitter}
    (hindentation : '\n' ∉ e.indentation.toList) :
    f e =
      { e with
        text := e.text ++ onChars (indentLines (copies e.depth e.indentation.toList))
          (f { indentation := e.indentation }).text } := by
  obtain ⟨lines, hlines, hf⟩ := h
  have houter : (f { indentation := e.indentation }).text.toList =
      PlacedLine.render e.indentation.toList 0 lines := by
    simp [hf, place]
  rw [onChars, houter, PlacedLine.indentLines_render hindentation e.depth hlines, hf, place]

end LineByLine

end Emitter

namespace Node

open Emitter (LineByLine)

mutual

/-- The texts of a declaration that are written in a line each, or in one line with others. -/
def pieces : Node → List String
  | .raw _ => []
  | .method signature body attributes => signature :: (body ++ attributes)
  | .type name modifiers bases attributes members =>
    name :: (modifiers ++ bases ++ attributes ++ piecesAll members)
  | .scope name usings members => name :: (usings ++ piecesAll members)

def piecesAll : List Node → List String
  | [] => []
  | node :: rest => pieces node ++ piecesAll rest

end

theorem not_mem_typeHeader {name : String} {modifiers bases : List String}
    (hname : '\n' ∉ name.toList) (hmodifiers : ∀ m ∈ modifiers, '\n' ∉ m.toList)
    (hbases : ∀ b ∈ bases, '\n' ∉ b.toList) :
    '\n' ∉ (typeHeader name modifiers bases).toList := by
  have hhead : '\n' ∉ (" ".intercalate (modifiers ++ ["class", name])).toList := by
    refine Text.not_mem_intercalate (by decide) (List.forall_mem_append.mpr ⟨hmodifiers, ?_⟩)
    exact List.forall_mem_cons.mpr ⟨by decide, List.forall_mem_singleton.mpr hname⟩
  have hlist : '\n' ∉ (", ".intercalate bases).toList :=
    Text.not_mem_intercalate (by decide) hbases
  rw [typeHeader]
  split
  · exact hhead
  · rw [String.toList_append, String.toList_append, List.mem_append, List.mem_append]
    rintro ((hc | hc) | hc)
    · exact hhead hc
    · exact absurd hc (by decide)
    · exact hlist hc

/-- Whether an empty line comes first is seen from the members, not from the depth. -/
theorem lineByLine_setOff (previous : Option Bool) (node : Node) :
    LineByLine (setOff previous node) := by
  cases previous with
  | none => exact .id
  | some wasBlock => exact .ite _ .emitBlank .id

theorem lineByLine_writeUsings {usings : List String} (h : ∀ u ∈ usings, '\n' ∉ u.toList)
    (members : List Node) : LineByLine (writeUsings usings members) := by
  refine (LineByLine.foldl fun u hu => .emit ?_).comp (.ite _ .id .emitBlank)
  simp [h u hu]

mutual

theorem lineByLine_write (node : Node) (h : ∀ piece ∈ pieces node, '\n' ∉ piece.toList) :
    LineByLine (write · node) := by
  cases node with
  | raw text =>
      refine .foldl fun line hline => .emit ?_
      obtain ⟨part, hpart, rfl⟩ := List.mem_map.mp hline
      rw [String.toList_ofList]
      exact Text.not_mem_of_mem_fields hpart
  | method signature body attributes =>
      rw [pieces, List.forall_mem_cons, List.forall_mem_append] at h
      obtain ⟨hsignature, hbody, hattributes⟩ := h
      exact (LineByLine.foldl fun a ha => .emit (hattributes a ha)).comp
        (.block hsignature (.foldl fun s hs => .emit (hbody s hs)))
  | type name modifiers bases attributes members =>
      rw [pieces, List.forall_mem_cons, List.forall_mem_append, List.forall_mem_append,
        List.forall_mem_append] at h
      obtain ⟨hname, ⟨⟨hmodifiers, hbases⟩, hattributes⟩, hmembers⟩ := h
      exact (LineByLine.foldl fun a ha => .emit (hattributes a ha)).comp
        (.block (not_mem_typeHeader hname hmodifiers hbases)
          (lineByLine_writeAll none members hmembers))
  | scope name usings members =>
      rw [pieces, List.forall_mem_cons, List.forall_mem_append] at h
      obtain ⟨hname, husings, hmembers⟩ := h
      exact .block (by simp [hname])
        ((lineByLine_writeUsings husings members).comp (lineByLine_writeAll none members hmembers))

theorem lineByLine_writeAll (previous : Option Bool) (nodes : List Node)
    (h : ∀ piece ∈ piecesAll nodes, '\n' ∉ piece.toList) :
    LineByLine (writeAll · previous nodes) := by
  cases nodes with
  | nil => exact .id
  | cons node rest =>
      rw [piecesAll, List.forall_mem_append] at h
      simp only [writeAll_cons]
      exact ((lineByLine_setOff previous node).comp (lineByLine_write node h.1)).comp
        (lineByLine_writeAll _ rest h.2)

end

/-- What a declaration adds at some depth is what it adds at the outermost level, with the margin
before each line that is not empty; all else of the emitter stays. -/
theorem write_eq_indentLines (node : Node) (hpieces : ∀ piece ∈ node.pieces, '\n' ∉ piece.toList)
    (e : Emitter) (hindentation : '\n' ∉ e.indentation.toList) :
    node.write e =
      { e with
        text := e.text ++ onChars
          (Text.indentLines (Text.copies e.depth e.indentation.toList))
          (node.write { indentation := e.indentation }).text } :=
  (lineByLine_write node hpieces).eq_indentLines hindentation

/-- A namespace with a class in it, one of whose members has an empty line and a margin of its
own. -/
theorem write_eq_indentLines_nested :
    let node : Node := .scope "Shop" ["System"]
      [.type "Cart" ["public"] ["Base"] ["[Kept]"]
        [.raw "int a;\n\n  int b;", .method "Cart()" ["a = 1;", ""] []]]
    let e : Emitter := { indentation := "\t", depth := 2, text := "// before\n" }
    (∀ piece ∈ node.pieces, '\n' ∉ piece.toList) ∧ '\n' ∉ e.indentation.toList ∧
      write e node =
        { e with
          text := e.text ++ onChars (Text.indentLines (Text.copies 2 "\t".toList))
            (write { indentation := "\t" } node).text } := by
  intro node e
  have hpieces : ∀ piece ∈ node.pieces, '\n' ∉ piece.toList := by decide
  have hindentation : '\n' ∉ e.indentation.toList := by decide
  exact ⟨hpieces, hindentation, write_eq_indentLines node hpieces e hindentation⟩

/-- Where the indentation has a line feed, and where a modifier has one, not all lines get the
margin. -/
theorem not_indentLines_broken_lines :
    (∀ piece ∈ (scope "N" [] [raw "x;"]).pieces, '\n' ∉ piece.toList) ∧
      (write { indentation := "a\nb", depth := 1 } (scope "N" [] [raw "x;"])).text ≠
        onChars (Text.indentLines (Text.copies 1 "a\nb".toList))
          (write { indentation := "a\nb" } (scope "N" [] [raw "x;"])).text ∧
      (write { depth := 1 } (type "C" ["public\nstatic"] [] [] [])).text ≠
        onChars (Text.indentLines (Text.copies 1 "    ".toList))
          (write {} (type "C" ["public\nstatic"] [] [] [])).text := by
  decide +kernel

end Node

end RouteLinks
