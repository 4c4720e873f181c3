import RouteLinks.Emit.Node
import RouteLinks.Proofs.Emit.Layout
/-!
# Writing line by line

A piece of writing adds whole lines to what an emitter has written, and what it adds depends on the
indentation and the depth alone. So the lines of a declaration are those of its parts, in order, and
the lines of a finished file are those of its declarations, after the lines that every file begins
with.
-/

namespace RouteLinks

namespace Emitter

variable {e : Emitter} {before : String} {f g : Emitter → Emitter}

def after (before : String) (e : Emitter) : Emitter := { e with text := before ++ e.text }

/-- What a piece of writing leaves as it is, and what it adds. -/
structure Writes (f : Emitter → Emitter) : Prop where
  after : ∀ before e, f (e.after before) = (f e).after before
  depth : ∀ e, (f e).depth = e.depth
  indentation : ∀ e, (f e).indentation = e.indentation
  ends : ∀ e, (f e).text = e.text ∨ ∃ front, (f e).text = front ++ "\n"

theorem exists_text_emit (e : Emitter) (code : String) :
    ∃ front, (e.emit code).text = front ++ "\n" := by
  rw [emit]
  split <;> exact ⟨_, rfl⟩

namespace Writes

theorem id : Writes fun e => e := ⟨fun _ _ => rfl, fun _ => rfl, fun _ => rfl, fun _ => .inl rfl⟩

theorem emit (code : String) : Writes (·.emit code) where
  after before e := by
    rw [Emitter.emit, Emitter.emit]
    split <;> simp [Emitter.after, margin, String.append_assoc]
  depth e := by
    rw [Emitter.emit]
    split <;> rfl
  indentation e := by
    rw [Emitter.emit]
    split <;> rfl
  ends e := .inr (exists_text_emit e code)

theorem emitBlank : Writes (·.emitBlank 1) where
  after before e := by simp [Emitter.emitBlank, Emitter.after, String.append_assoc]
  depth _ := rfl
  indentation _ := rfl
  ends e := .inr ⟨e.text, rfl⟩

theorem comp (hf : Writes f) (hg : Writes g) : Writes fun e => g (f e) where
  after before e := by rw [hf.after, hg.after]
  depth e := (hg.depth _).trans (hf.depth e)
  indentation e := (hg.indentation _).trans (hf.indentation e)
  ends e := by
    rcases hg.ends (f e) with h | h
    · rw [h]
      exact hf.ends e
    · exact .inr h

theorem foldl {α : Type} {f : Emitter → α → Emitter} (h : ∀ x, Writes (f · x)) (xs : List α) :
    Writes fun e => xs.foldl f e := by
  induction xs with
  | nil => exact id
  | cons x rest ih => exact (h x).comp ih

theorem emitAll (codes : List String) : Writes fun e => codes.foldl Emitter.emit e :=
  foldl emit codes

theorem emitLines (piece : String) : Writes (·.emitLines piece) := emitAll _

theorem ite (c : Prop) [Decidable c] (hf : Writes f) (hg : Writes g) :
    Writes fun e => if c then f e else g e := by
  by_cases h : c
  · simpa only [if_pos h] using hf
  · simpa only [if_neg h] using hg

theorem eq_after (h : Writes f) {e : Emitter} (hnothing : e.text = "") :
    f e = e.after (f e).text := by
  have hdepth := h.depth e
  have hindentation := h.indentation e
  cases hwritten : f e with
  | mk indentation depth text =>
      rw [hwritten] at hdepth hindentation
      cases hdepth
      cases hindentation
      simp [Emitter.after, hnothing]

theorem nested (h : Writes f) : Writes fun e => (f e.indent).dedent where
  after before e := by
    show (f (e.indent.after before)).dedent = _
    rw [h.after]
    rfl
  depth e := by
    show (f e.indent).depth - 1 = e.depth
    rw [h.depth]
    exact Nat.add_sub_cancel e.depth 1
  indentation e := h.indentation e.indent
  ends e := h.ends e.indent

theorem block (header : String) (h : Writes f) :
    Writes fun e => (f (e.openBlock header)).closeBlock :=
  (((emit header).comp (emit "\x7b")).comp h.nested).comp (emit "\x7d")

end Writes

/-! ### The lines of a piece of writing -/

/-- The lines that a piece of writing adds to a finished text, at some depth. -/
def lines (f : Emitter → Emitter) (depth : Nat) : List (List Char) :=
  Layout.finished (f { depth }).text.toList

theorem lines_comp (hf : Writes f) (hg : Writes g) (depth : Nat) :
    lines (fun e => g (f e)) depth = lines f depth ++ lines g depth := by
  rw [lines, hf.eq_after rfl, hg.after]
  show Layout.finished ((f { depth }).text ++ (g { depth }).text).toList = _
  rw [String.toList_append]
  rcases hf.ends { depth } with hnone | ⟨front, hfront⟩
  · rw [lines, hnone]
    rfl
  · rw [lines, hfront, String.toList_append]
    show Layout.finished (front.toList ++ ['\n'] ++ _) =
      Layout.finished (front.toList ++ ['\n']) ++ _
    rw [Layout.finished_lineWise.concat, List.append_assoc]
    exact Layout.finished_lineWise.append _ _

theorem lines_id (depth : Nat) : lines (fun e => e) depth = [] := Layout.finished_lineWise.nil

theorem lines_emitBlank (depth : Nat) : lines (·.emitBlank 1) depth = [] := by
  have htext : (({ depth } : Emitter).emitBlank 1).text.toList = [] ++ ['\n'] := by
    simp [emitBlank]
  rw [lines, htext, Layout.finished_lineWise.concat, Layout.finished_lineWise.nil]

theorem lines_ite (c : Prop) [Decidable c] (depth : Nat) :
    lines (fun e => if c then f e else g e) depth =
      if c then lines f depth else lines g depth := by
  by_cases h : c
  · simp only [if_pos h]
  · simp only [if_neg h]

theorem lines_foldl {α : Type} {f : Emitter → α → Emitter} (h : ∀ x, Writes (f · x))
    (xs : List α) (depth : Nat) :
    lines (fun e => xs.foldl f e) depth = xs.flatMap fun x => lines (f · x) depth := by
  induction xs with
  | nil => exact lines_id depth
  | cons x rest ih =>
      rw [List.flatMap_cons, ← ih]
      exact lines_comp (h x) (Writes.foldl h rest) depth

theorem toList_margin (e : Emitter) :
    e.margin.toList = Text.copies e.depth e.indentation.toList := by
  simp [margin, Text.copies, Text.intercalate_nil]

theorem eq_of_mem_margin {depth : Nat} {c : Char}
    (h : c ∈ ({ depth } : Emitter).margin.toList) : c = ' ' := by
  rw [toList_margin] at h
  simpa using Text.mem_copies h

theorem opens_margin {front : List Char} (h : Layout.Opens front) (depth : Nat) :
    Layout.Opens (({ depth } : Emitter).margin.toList ++ front) := by
  obtain ⟨blanks, c, rest, hfront, hblanks, hc, hsign⟩ := h.first
  refine ⟨?_, ?_, ({ depth } : Emitter).margin.toList ++ blanks, c, rest, ?_, ?_, hc, hsign⟩
  · rw [List.mem_append, not_or]
    exact ⟨fun hmem => absurd (eq_of_mem_margin hmem) (by decide), h.noReturn⟩
  · rw [List.mem_append, not_or]
    exact ⟨fun hmem => absurd (eq_of_mem_margin hmem) (by decide), h.noLineFeed⟩
  · rw [hfront, List.append_assoc]
  · intro b hb
    rcases List.mem_append.mp hb with hmargin | hb
    · rw [eq_of_mem_margin hmargin]
      decide
    · exact hblanks b hb

/-- A line that is not blank and switches no warnings is a line of the finished text. -/
theorem length_lines_emit {front rest : List Char} (h : Layout.Opens front) (hrest : '\n' ∉ rest)
    (depth : Nat) :
    (lines (·.emit (String.ofList (front ++ rest))) depth).length = Layout.further rest + 1 := by
  have hshown : (String.ofList (front ++ rest)).toList.all Text.isBlank = false := by
    obtain ⟨blanks, c, more, hfront, _, hc, _⟩ := h.first
    simp [hfront, hc]
  have htext : (({ depth } : Emitter).emit (String.ofList (front ++ rest))).text.toList =
      (({ depth } : Emitter).margin.toList ++ front ++ rest) ++ ['\n'] := by
    rw [emit, hshown, if_neg Bool.false_ne_true]
    simp
  rw [lines, htext, Layout.finished_lineWise.concat, (opens_margin h depth).length_finished hrest]

theorem lines_block (header : String) (h : Writes f) (depth : Nat) :
    lines (fun e => (f (e.openBlock header)).closeBlock) depth =
      lines (·.emit header) depth ++ lines (·.emit "\x7b") depth ++ lines f (depth + 1) ++
        lines (·.emit "\x7d") depth := by
  have hopen : Writes fun e => (e.emit header).emit "\x7b" := (Writes.emit _).comp (Writes.emit _)
  refine (lines_comp (hopen.comp h.nested) (Writes.emit _) depth).trans ?_
  rw [lines_comp hopen h.nested, lines_comp (Writes.emit header) (Writes.emit _)]
  rfl

end Emitter

namespace Node

open Emitter

/-- An empty line before a declaration if it or its neighbour is set off. -/
def setOff (previous : Option Bool) (node : Node) (e : Emitter) : Emitter :=
  match previous with
  | some wasBlock => if wasBlock || node.isBlock then e.emitBlank 1 else e
  | none => e

theorem writeAll_cons (e : Emitter) (previous : Option Bool) (node : Node) (rest : List Node) :
    writeAll e previous (node :: rest) =
      writeAll (write (setOff previous node e) node) (some node.isBlock) rest := by
  cases previous <;> rw [writeAll, setOff]

theorem writes_setOff (previous : Option Bool) (node : Node) : Writes (setOff previous node) := by
  cases previous with
  | none => exact .id
  | some wasBlock => exact .ite _ .emitBlank .id

theorem lines_setOff (previous : Option Bool) (node : Node) (depth : Nat) :
    lines (setOff previous node) depth = [] := by
  cases previous with
  | none => exact lines_id depth
  | some wasBlock =>
      exact (lines_ite _ depth).trans (by rw [lines_emitBlank, lines_id, ite_self])

def writeUsings (usings : List String) (members : List Node) (e : Emitter) : Emitter :=
  let e := usings.foldl (fun e u => e.emit ("using " ++ u ++ ";")) e
  if usings.isEmpty || members.isEmpty then e else e.emitBlank 1

theorem writes_emitUsings (usings : List String) :
    Writes fun e => usings.foldl (fun e u => e.emit ("using " ++ u ++ ";")) e :=
  .foldl (fun u => .emit ("using " ++ u ++ ";")) usings

theorem writes_writeUsings (usings : List String) (members : List Node) :
    Writes (writeUsings usings members) :=
  (writes_emitUsings usings).comp (.ite _ .id .emitBlank)

mutual

theorem writes_write (node : Node) : Writes (write · node) := by
  cases node with
  | raw text => exact .emitLines text
  | method signature body attributes =>
      exact (Writes.emitAll attributes).comp (.block signature (.emitAll body))
  | type name modifiers bases attributes members =>
      exact (Writes.emitAll attributes).comp (.block _ (writes_writeAll none members))
  | scope name usings members =>
      exact .block _ ((writes_writeUsings usings members).comp (writes_writeAll none members))

theorem writes_writeAll (previous : Option Bool) (nodes : List Node) :
    Writes (writeAll · previous nodes) := by
  cases nodes with
  | nil => exact .id
  | cons node rest =>
      simp only [writeAll_cons]
      exact ((writes_setOff previous node).comp (writes_write node)).comp (writes_writeAll _ rest)

end

def lines (node : Node) (depth : Nat) : List (List Char) := Emitter.lines (write · node) depth

theorem lines_writeAll (previous : Option Bool) (nodes : List Node) (depth : Nat) :
    Emitter.lines (writeAll · previous nodes) depth = nodes.flatMap (·.lines depth) := by
  induction nodes generalizing previous with
  | nil => exact lines_id depth
  | cons node rest ih =>
      simp only [writeAll_cons]
      have hnode := (writes_setOff previous node).comp (writes_write node)
      rw [lines_comp hnode (writes_writeAll _ rest),
        lines_comp (writes_setOff previous node) (writes_write node), lines_setOff, ih]
      rfl

theorem lines_raw (text : String) (depth : Nat) :
    (raw text).lines depth =
      (splitAt '\n' text).flatMap fun line => Emitter.lines (·.emit line) depth :=
  lines_foldl Writes.emit _ depth

theorem length_lines_raw {front : List Char} (h : Layout.Opens front) {rest first : List Char}
    {others : List (List Char)} (hfields : Text.fields '\n' rest = first :: others)
    (depth : Nat) :
    ((raw (String.ofList (front ++ rest))).lines depth).length = Layout.further first + 1 +
      ((others.map String.ofList).flatMap fun line =>
        Emitter.lines (·.emit line) depth).length := by
  have hfirst : '\n' ∉ first := fun hc => (Text.mem_of_mem_fields
    (hfields ▸ List.mem_cons_self : first ∈ Text.fields '\n' rest) hc).2 rfl
  rw [lines_raw, splitAt, String.toList_ofList, Text.fields_append_of_not_mem h.noLineFeed hfields,
    List.map_cons, List.flatMap_cons, List.length_append, length_lines_emit h hfirst]

theorem lines_type (name : String) (modifiers bases attributes : List String)
    (members : List Node) (depth : Nat) :
    (type name modifiers bases attributes members).lines depth =
      (attributes.flatMap fun a => Emitter.lines (·.emit a) depth) ++
        (Emitter.lines (·.emit (typeHeader name modifiers bases)) depth ++
          Emitter.lines (·.emit "\x7b") depth ++ members.flatMap (·.lines (depth + 1)) ++
            Emitter.lines (·.emit "\x7d") depth) := by
  rw [← lines_foldl Writes.emit, ← lines_writeAll none members,
    ← lines_block _ (writes_writeAll none members)]
  exact lines_comp (.emitAll attributes) (.block _ (writes_writeAll none members)) depth

theorem lines_scope (name : String) (members : List Node) (depth : Nat) :
    (scope name [] members).lines depth =
      Emitter.lines (·.emit ("namespace " ++ name)) depth ++
        Emitter.lines (·.emit "\x7b") depth ++ members.flatMap (·.lines (depth + 1)) ++
          Emitter.lines (·.emit "\x7d") depth := by
  rw [← lines_writeAll none members, ← lines_block _ (writes_writeAll none members)]
  rfl

end Node

namespace CompilationUnit

open Emitter

def writeOpening (unit : CompilationUnit) (e : Emitter) : Emitter :=
  let e := if unit.header.isEmpty then e else (e.emitLines unit.header).emitBlank 1
  let e := unit.usings.foldl (fun e u => e.emit ("using " ++ u ++ ";")) e
  if unit.usings.isEmpty then e else e.emitBlank 1

theorem writes_writeOpening (unit : CompilationUnit) : Writes unit.writeOpening :=
  ((Writes.ite _ .id ((Writes.emitLines _).comp .emitBlank)).comp
    (Node.writes_emitUsings unit.usings)).comp (.ite _ .id .emitBlank)

theorem kept_finish_eq (unit : CompilationUnit) :
    Layout.kept unit.finish.toList =
      Emitter.lines unit.writeOpening 0 ++ unit.members.flatMap (·.lines 0) := by
  rw [kept_finish, ← Node.lines_writeAll none unit.members,
    ← lines_comp unit.writes_writeOpening (Node.writes_writeAll none unit.members)]
  rfl

end CompilationUnit

end RouteLinks
