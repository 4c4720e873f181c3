import RouteLinks.Proofs.Emit.Node
import RouteLinks.Proofs.Source.Outline
import RouteLinks.Proofs.Source.Phrase
import RouteLinks.Proofs.Text.Ascii
import RouteLinks.Proofs.Text.Fields
import RouteLinks.Proofs.Text.Identifier
/-!
# The syntax of an outline

What an outline is made up of: each declaration with its parts, of the kinds that the grammar of C#
has for them, and the blanks in between. The text of it all is what the emitter writes: line by
line, a header, braces on lines of their own, and between them what is inside, one level further in.
-/

namespace RouteLinks

/-! ### Texts without blanks at their ends -/

abbrev BeginsInk (s : String) : Prop := s.toList.head?.any (!Text.isBlank ·) = true

abbrev EndsInk (s : String) : Prop := s.toList.getLast?.any (!Text.isBlank ·) = true

theorem BeginsInk.append {s : String} (h : BeginsInk s) (t : String) : BeginsInk (s ++ t) := by
  rw [BeginsInk] at h ⊢
  rw [String.toList_append]
  cases hs : s.toList with
  | nil => rw [hs] at h; cases h
  | cons c rest => rwa [hs] at h

theorem EndsInk.append {t : String} (h : EndsInk t) (s : String) : EndsInk (s ++ t) := by
  rw [EndsInk] at h ⊢
  rw [String.toList_append, List.getLast?_append]
  cases ht : t.toList.getLast? with
  | none => rw [ht] at h; cases h
  | some c => rwa [ht] at h

theorem trim_eq_of_ink {s : String} (hfirst : BeginsInk s) (hlast : EndsInk s) : trim s = s := by
  have htrim : Text.trim s.toList = s.toList := by
    apply Text.trim_eq_self
    · intro c hc
      rw [BeginsInk, Option.mem_def.mp hc] at hfirst
      simpa using hfirst
    · intro c hc
      rw [EndsInk, Option.mem_def.mp hc] at hlast
      simpa using hlast
  rw [trim, onChars, htrim, String.ofList_toList]

theorem trim_space_append {s : String} (hfirst : BeginsInk s) (hlast : EndsInk s) :
    trim (" " ++ s) = s := by
  have htrim := trim_eq_of_ink hfirst hlast
  rw [trim, onChars] at htrim ⊢
  rwa [String.toList_append, Text.trim, Text.trimStart,
    List.dropWhile_append_of_pos (forall_mem_of_all (by decide))]

theorem ink_of_forall_mem {s : String} (hne : s.toList ≠ [])
    (h : ∀ c ∈ s.toList, Text.isBlank c = false) : BeginsInk s ∧ EndsInk s := by
  rw [BeginsInk, EndsInk, List.head?_eq_some_head hne, List.getLast?_eq_some_getLast hne]
  simp [h _ (List.head_mem hne), h _ (List.getLast_mem hne)]

theorem BeginsInk.ne_empty {s : String} (h : BeginsInk s) : s ≠ "" := by
  rintro rfl
  cases h

namespace Outline

theorem isBlank_of_isPart {c : Char} (h : Identifier.isPart c = true) : Text.isBlank c = false := by
  have := bounds_of_isPart h
  exact Text.isBlank_of_bounds (by omega)

theorem Name.ink (n : Name) : BeginsInk n.text ∧ EndsInk n.text := by
  obtain ⟨c, rest, hchars, hstart, hrest⟩ := n.isIdentifier
  have hpart : ∀ d ∈ c :: rest, Identifier.isPart d = true :=
    List.forall_mem_cons.mpr ⟨Identifier.isPart_of_isStart hstart, hrest⟩
  exact ink_of_forall_mem (by simp [hchars])
    fun d hd => isBlank_of_isPart (hpart d (hchars ▸ hd))

theorem Name.trim_text (n : Name) : trim n.text = n.text := trim_eq_of_ink n.ink.1 n.ink.2

theorem BuiltinType.ink (w : BuiltinType) : BeginsInk w.text ∧ EndsInk w.text :=
  (by decide +kernel : ∀ s ∈ builtinTypes, s.toList.head?.any (!Text.isBlank ·) = true ∧
    s.toList.getLast?.any (!Text.isBlank ·) = true) w.text w.isBuiltin

theorem TypeName.beginsInk (n : TypeName) : BeginsInk n.text := by
  cases n with
  | last name arguments => exact name.ink.1.append _
  | dotted name arguments rest =>
      rw [TypeName.text, String.append_assoc, String.append_assoc]
      exact name.ink.1.append _

theorem TypeName.endsInk : ∀ (n : TypeName), EndsInk n.text
  | .last name .none => by
      rw [TypeName.text, TypeArguments.text, String.append_empty]
      exact name.ink.2
  | .last name (.some types) => by
      have hclosing : EndsInk ">" := by decide
      exact (hclosing.append _).append _
  | .dotted name arguments rest => rest.endsInk.append _

theorem TypeExpr.beginsInk : ∀ (t : TypeExpr), BeginsInk t.text
  | .builtin w => w.ink.1
  | .named n => n.beginsInk
  | .array element rank => by
      rw [TypeExpr.text, String.append_assoc, String.append_assoc]
      exact element.beginsInk.append _

theorem TypeExpr.endsInk (t : TypeExpr) : EndsInk t.text := by
  cases t with
  | builtin w => exact w.ink.2
  | named n => exact n.endsInk
  | array element rank =>
      have hclosing : EndsInk "]" := by decide
      exact hclosing.append _

theorem TypeExpr.trim_text (t : TypeExpr) : trim t.text = t.text :=
  trim_eq_of_ink t.beginsInk t.endsInk

theorem ink_toString (n : Nat) : BeginsInk (toString n) ∧ EndsInk (toString n) := by
  have hdigits : (toString n).toList = Nat.toDigits 10 n := String.toList_ofList
  refine ink_of_forall_mem (hdigits ▸ Nat.toDigits_ne_nil) fun c hc => isBlank_of_isPart ?_
  rw [hdigits] at hc
  simp [Identifier.isPart, Char.isAlphanum, Nat.isDigit_of_mem_toDigits (by decide) (by decide) hc]

theorem Default.ink : ∀ (d : Default), BeginsInk d.text ∧ EndsInk d.text
  | .number (.ofNat n) => ink_toString n
  | .number (.negSucc n) => by
      have hminus : BeginsInk "-" := by decide
      exact ⟨hminus.append _, (ink_toString (n + 1)).2.append _⟩
  | .string s _ => by
      have hquote : BeginsInk "\"" ∧ EndsInk "\"" := by decide
      rw [Default.text, Quoted.regular]
      exact ⟨(hquote.1.append _).append _, hquote.2.append _⟩

/-! ### Types and parameters -/

open Phrase

def TypeName.kind : TypeName → String
  | .last _ .none => "identifier"
  | .last _ (.some _) => "generic_name"
  | .dotted _ _ _ => "qualified_name"

def TypeExpr.kind : TypeExpr → String
  | .builtin _ => "predefined_type"
  | .named n => n.kind
  | .array _ _ => "array_type"

def TypeExpr.phrase (t : TypeExpr) (field : Option String) : Phrase :=
  .leaf field t.kind true t.text

def Name.phrase (n : Name) : Phrase := identifier n.text (some "name")

def Default.kind : Default → String
  | .number n => if n < 0 then "prefix_unary_expression" else "integer_literal"
  | .string _ _ => "string_literal"

def Default.phrases (d : Default) : List Phrase :=
  [space, token "=", space, .leaf none d.kind true d.text]

def PlainParameter.phrase (p : PlainParameter) : Phrase :=
  .node none "parameter" (p.passing.modifiers.flatMap modifier ++
    [p.type.phrase (some "type"), space, p.name.phrase] ++
    (p.default.toList.flatMap Default.phrases))

/-- The keyword, the type and the name are parts of the parameter list itself. -/
def RestParameter.phrases (p : RestParameter) : List Phrase :=
  [token "params", space, p.type.phrase (some "type"), space, p.name.phrase]

def separated : List (List Phrase) → List Phrase
  | [] => []
  | [parts] => parts
  | parts :: more => parts ++ token "," :: space :: separated more

def Method.parameterPhrases (m : Method) : List (List Phrase) :=
  m.parameters.map (fun p => [p.phrase]) ++ (m.rest.map RestParameter.phrases).toList

theorem textOf_separated (groups : List (List Phrase)) :
    textOf (separated groups) = ", ".intercalate (groups.map textOf) := by
  induction groups with
  | nil => rfl
  | cons parts more ih =>
      cases more with
      | nil => exact String.intercalate_singleton.symm
      | cons second more =>
          rw [separated, textOf_append, List.map_cons, List.map_cons, String.intercalate_cons_cons,
            String.append_assoc, ← List.map_cons, ← ih]
          · rfl
          · exact List.cons_ne_nil _ _

theorem TypeExpr.type?_eq (t : TypeExpr) {p : Parameter} (h : p.type = some t.text) :
    p.type? = some t.text := by
  rw [Parameter.type?, h]
  simp [t.beginsInk.ne_empty]

theorem PlainParameter.text_phrase (p : PlainParameter) :
    p.phrase.text = p.parameter.render := by
  rw [phrase, Phrase.text, Parameter.render, p.type.type?_eq rfl, ← String.toList_inj]
  obtain ⟨passing, type, name, default⟩ := p
  cases passing <;> cases default <;>
    simp [parameter, Passing.modifiers, textOf, Phrase.text, modifier, space, token, identifier,
      TypeExpr.phrase, Name.phrase, Default.phrases]

theorem RestParameter.textOf_phrases (p : RestParameter) :
    textOf p.phrases = p.parameter.render := by
  rw [phrases, Parameter.render, p.type.type?_eq rfl, ← String.toList_inj]
  simp [parameter, textOf, Phrase.text, space, token, identifier, TypeExpr.phrase, Name.phrase]

theorem Method.map_textOf_parameterPhrases (m : Method) :
    m.parameterPhrases.map textOf = m.allParameters.map Parameter.render := by
  rw [parameterPhrases, allParameters, List.map_append, List.map_append, List.map_map, List.map_map]
  congr 1
  · refine List.map_congr_left fun p _ => ?_
    simp [textOf, p.text_phrase]
  · cases m.rest with
    | none => rfl
    | some p => simp [p.textOf_phrases]

/-! ### Declarations -/

def margin (depth : Nat) : String := ({ depth } : Emitter).margin

def body (depth : Nat) (kind : String) (members : List Phrase) : Phrase :=
  .node (some "body") kind (token "\x7b" :: .blank "\n" ::
    (members ++ [.blank (margin depth), token "\x7d"]))

def declaration (depth : Nat) (kind bodyKind : String) (header members : List Phrase) :
    List Phrase :=
  [.blank (margin depth),
    .node none kind (header ++ [.blank ("\n" ++ margin depth), body depth bodyKind members]),
    .blank "\n"]

def Method.header (m : Method) : List Phrase :=
  modifier "public" ++ [m.returnType.phrase (some "returns"), space, m.name.phrase,
    parameterList (separated m.parameterPhrases)]

def Base.phrases (b : Base) : List Phrase :=
  [space, .node none "base_list" [token ":", space, b.type.phrase none]]

def ClassHeader.header (h : ClassHeader) : List Phrase :=
  (h.modifiers.map Modifier.text).flatMap modifier ++ [token "class", space, h.name.phrase] ++
    h.base.toList.flatMap Base.phrases

def DottedName.phrase (n : DottedName) : Phrase :=
  .leaf (some "name") (if n.more.isEmpty then "identifier" else "qualified_name") true n.text

def separator (previous : Option Bool) : List Phrase :=
  match previous with
  | some _ => [.blank "\n"]
  | none => []

def Members.phrases (depth : Nat) (previous : Option Bool) : Members → List Phrase
  | .done => []
  | .method m rest =>
    separator previous ++ (declaration depth "method_declaration" "block" m.header [] ++
      rest.phrases depth (some true))
  | .type header members rest =>
    separator previous ++ (declaration depth "class_declaration" "declaration_list" header.header
      (members.phrases (depth + 1) none) ++ rest.phrases depth (some true))

def Items.phrases (depth : Nat) (previous : Option Bool) : Items → List Phrase
  | .done => []
  | .scope name items rest =>
    separator previous ++ (declaration depth "namespace_declaration" "declaration_list"
      [token "namespace", space, name.phrase] (items.phrases (depth + 1) none) ++
        rest.phrases depth (some true))
  | .type header members rest =>
    separator previous ++ (declaration depth "class_declaration" "declaration_list" header.header
      (members.phrases (depth + 1) none) ++ rest.phrases depth (some true))

theorem Method.textOf_header (m : Method) : textOf m.header = m.signature := by
  have hparameters := textOf_separated m.parameterPhrases
  rw [m.map_textOf_parameterPhrases] at hparameters
  rw [← String.toList_inj]
  simp [header, signature, textOf, textOf_append, Phrase.text, modifier, space, token, identifier,
    TypeExpr.phrase, Name.phrase, parameterList, hparameters]

theorem textOf_modifiers (words : List String) {rest : List String} (h : rest ≠ []) :
    textOf (words.flatMap modifier) ++ " ".intercalate rest = " ".intercalate (words ++ rest) := by
  induction words with
  | nil => rw [List.flatMap_nil, textOf, String.empty_append, List.nil_append]
  | cons word more ih =>
      obtain ⟨next, others, hnext⟩ :=
        List.exists_cons_of_ne_nil (List.append_ne_nil_of_right_ne_nil more h)
      rw [List.flatMap_cons, textOf_append, List.cons_append, hnext,
        String.intercalate_cons_cons, ← hnext, ← ih]
      simp [modifier, textOf, Phrase.text, space, String.append_assoc]

theorem ClassHeader.textOf_header (h : ClassHeader) :
    textOf h.header =
      Node.typeHeader h.name.text (h.modifiers.map Modifier.text)
        (h.base.toList.map (·.type.text)) := by
  have hname : textOf [token "class", space, h.name.phrase] =
      " ".intercalate ["class", h.name.text] := by
    rw [← String.toList_inj]
    simp [textOf, Phrase.text, token, space, Name.phrase, identifier]
  rw [header, textOf_append, textOf_append, hname, textOf_modifiers _ (by simp), Node.typeHeader]
  cases h.base with
  | none => simp [textOf]
  | some b =>
      rw [← String.toList_inj]
      simp [textOf, Base.phrases, Phrase.text, space, token, TypeExpr.phrase]

theorem Method.beginsInk (m : Method) : BeginsInk (textOf m.header) := by
  have hpublic : BeginsInk "public " := by decide
  simp only [m.textOf_header, Method.signature, String.append_assoc]
  exact hpublic.append _

theorem ClassHeader.beginsInk (h : ClassHeader) : BeginsInk (textOf h.header) := by
  have hwords : ∀ w ∈ modifierWords, w.toList.head?.any (!Text.isBlank ·) = true := by
    decide +kernel
  have hclass : BeginsInk "class" := by decide
  rw [header, textOf_append, textOf_append]
  refine BeginsInk.append ?_ _
  cases h.modifiers with
  | nil =>
      rw [List.map_nil, List.flatMap_nil, textOf, String.empty_append]
      exact hclass.append _
  | cons m more =>
      have hmodifier : BeginsInk m.text := hwords m.text m.isModifier
      rw [List.map_cons, List.flatMap_cons, textOf_append, String.append_assoc]
      exact (hmodifier.append _).append _

end Outline

/-! ### What a piece of writing adds -/

namespace Emitter

variable {f g : Emitter → Emitter}

/-- The text that a piece of writing adds, at some depth. -/
def added (f : Emitter → Emitter) (depth : Nat) : String := (f { depth }).text

theorem added_comp (hf : Writes f) (hg : Writes g) (depth : Nat) :
    added (fun e => g (f e)) depth = added f depth ++ added g depth := by
  rw [added, hf.eq_after rfl, hg.after]
  rfl

theorem added_emit {code : String} (h : BeginsInk code) (depth : Nat) :
    added (·.emit code) depth = Outline.margin depth ++ code ++ "\n" := by
  have hshown : code.toList.all Text.isBlank = false := by
    rw [BeginsInk] at h
    cases hcode : code.toList with
    | nil => rw [hcode] at h; cases h
    | cons c rest =>
        rw [hcode] at h
        simp_all
  rw [added, emit, hshown, if_neg Bool.false_ne_true, String.empty_append]
  rfl

theorem added_block (header : String) (h : Writes f) (depth : Nat) :
    added (fun e => (f (e.openBlock header)).closeBlock) depth =
      added (·.emit header) depth ++ added (·.emit "\x7b") depth ++ added f (depth + 1) ++
        added (·.emit "\x7d") depth := by
  have hopen : Writes fun e => (e.emit header).emit "\x7b" := (Writes.emit _).comp (Writes.emit _)
  refine (added_comp (hopen.comp h.nested) (Writes.emit _) depth).trans ?_
  rw [added_comp hopen h.nested, added_comp (Writes.emit header) (Writes.emit _)]
  rfl

end Emitter

namespace Outline

open Phrase Emitter

theorem textOf_declaration {f : Emitter → Emitter} (h : Writes f) {header : List Phrase}
    (hheader : BeginsInk (textOf header)) (depth : Nat) (kind bodyKind : String)
    {members : List Phrase} (hmembers : textOf members = added f (depth + 1)) :
    textOf (declaration depth kind bodyKind header members) =
      added (fun e => (f (e.openBlock (textOf header))).closeBlock) depth := by
  have hopening : BeginsInk "\x7b" := by decide
  have hclosing : BeginsInk "\x7d" := by decide
  rw [added_block _ h, added_emit hheader, added_emit hopening, added_emit hclosing, ← hmembers,
    ← String.toList_inj]
  simp [declaration, body, textOf, textOf_append, Phrase.text, token]

theorem textOf_separator (previous : Option Bool) {node : Node} (h : node.isBlock = true)
    (depth : Nat) : textOf (separator previous) = added (Node.setOff previous node) depth := by
  cases previous with
  | none => rfl
  | some wasBlock =>
      rw [added, Node.setOff, h, Bool.or_true, if_pos rfl]
      rfl

theorem added_writeAll_cons (previous : Option Bool) {node : Node} (hblock : node.isBlock = true)
    (rest : List Node) (depth : Nat) :
    added (Node.writeAll · previous (node :: rest)) depth =
      textOf (separator previous) ++ (added (Node.write · node) depth ++
        added (Node.writeAll · (some true) rest) depth) := by
  simp only [Node.writeAll_cons, hblock]
  have hnode := (Node.writes_setOff previous node).comp (Node.writes_write node)
  rw [added_comp hnode (Node.writes_writeAll _ rest),
    added_comp (Node.writes_setOff previous node) (Node.writes_write node),
    textOf_separator previous hblock, String.append_assoc]

theorem Method.textOf_declaration (m : Method) (depth : Nat) :
    textOf (declaration depth "method_declaration" "block" m.header []) =
      added (Node.write · m.node) depth := by
  rw [Outline.textOf_declaration .id m.beginsInk depth _ _ rfl, m.textOf_header]
  rfl

theorem ClassHeader.textOf_declaration (h : ClassHeader) (depth : Nat) {members : List Phrase}
    {nodes : List Node}
    (hmembers : textOf members = added (Node.writeAll · none nodes) (depth + 1)) :
    textOf (declaration depth "class_declaration" "declaration_list" h.header members) =
      added (Node.write · (h.node nodes)) depth := by
  rw [Outline.textOf_declaration (Node.writes_writeAll none nodes) h.beginsInk depth _ _ hmembers,
    h.textOf_header]
  rfl

theorem Members.textOf_phrases (members : Members) (depth : Nat) (previous : Option Bool) :
    textOf (members.phrases depth previous) =
      added (Node.writeAll · previous members.nodes) depth := by
  induction members generalizing depth previous with
  | done => rfl
  | method m rest ih =>
      rw [Members.phrases, Members.nodes, added_writeAll_cons previous rfl, textOf_append,
        textOf_append, m.textOf_declaration, ih]
  | type header members rest ihMembers ih =>
      rw [Members.phrases, Members.nodes, added_writeAll_cons previous rfl, textOf_append,
        textOf_append, header.textOf_declaration depth (ihMembers _ _), ih]

theorem Items.textOf_phrases (items : Items) (depth : Nat) (previous : Option Bool) :
    textOf (items.phrases depth previous) =
      added (Node.writeAll · previous items.nodes) depth := by
  induction items generalizing depth previous with
  | done => rfl
  | scope name items rest ihItems ih =>
      have hheader : textOf [token "namespace", space, name.phrase] =
          "namespace " ++ name.text := by
        rw [← String.toList_inj]
        simp [textOf, Phrase.text, token, space, DottedName.phrase]
      have hword : BeginsInk "namespace " := by decide
      rw [Items.phrases, Items.nodes, added_writeAll_cons previous rfl, textOf_append,
        textOf_append, ih, textOf_declaration (Node.writes_writeAll none items.nodes)
          (hheader ▸ hword.append _) depth _ _ (ihItems _ _), hheader]
      rfl
  | type header members rest ih =>
      rw [Items.phrases, Items.nodes, added_writeAll_cons previous rfl, textOf_append,
        textOf_append, header.textOf_declaration depth (members.textOf_phrases _ _), ih]

/-- The text of a file is that of what it is made up of. -/
theorem Items.textOf_eq_render (items : Items) : textOf (items.phrases 0 none) = items.render :=
  items.textOf_phrases 0 none

end Outline

end RouteLinks
