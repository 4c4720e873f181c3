import RouteLinks.Proofs.Order
import RouteLinks.Proofs.Text.Utf8
import RouteLinks.Source.SyntaxTree
/-!
# Concrete syntax

A source as it is put together: words and signs, what they make up, and the blanks in between. A
phrase has a text and, at a place in a source, a tree. So it says of a text what tree there has to
be, and a few phrases make a grammar for samples.

Of the tree only so much is said as is fixed by the text: in which rows something stands and what is
inside a word or sign is left open. A node that has the tree of a phrase stands for it: whatever a
reader looks at in the node can be looked up in the phrase.
-/

namespace RouteLinks

def NodeInfo.withoutRows (i : NodeInfo) : NodeInfo := { i with startRow := 0, endRow := 0 }

/-- A piece of a source: blanks, which are in no tree, a word or sign, or something made up of
others. A word or sign and what is made up of others can fill a field. -/
inductive Phrase where
  | blank (text : String)
  | leaf (field : Option String) (kind : String) (isNamed : Bool) (text : String)
  | node (field : Option String) (kind : String) (parts : List Phrase)

namespace Phrase

mutual

def text : Phrase → String
  | .blank text => text
  | .leaf _ _ _ text => text
  | .node _ _ parts => textOf parts

def textOf : List Phrase → String
  | [] => ""
  | p :: rest => p.text ++ textOf rest

end

def size (text : String) : Nat := (Utf8.encode text).length

mutual

/-- The tree of a phrase that stands at a place, none of blanks. -/
def trees (start : Nat) : Phrase → List SyntaxNode
  | .blank _ => []
  | .leaf field kind isNamed text =>
    [.mk { kind, field, isNamed, start, stop := start + size text } []]
  | .node field kind parts =>
    [.mk { kind, field, start, stop := start + size (textOf parts) } (treesOf start parts)]

/-- The trees of phrases one after another. -/
def treesOf (start : Nat) : List Phrase → List SyntaxNode
  | [] => []
  | p :: rest => p.trees start ++ treesOf (start + size p.text) rest

end

def root (parts : List Phrase) : SyntaxNode :=
  .mk { kind := "compilation_unit", start := 0, stop := size (textOf parts) } (treesOf 0 parts)

def source (parts : List Phrase) : Bytes := Utf8.encode (textOf parts)

/-- A grammar that knows the trees of some sources, and finds nothing in any other. -/
def grammar (sources : List (List Phrase)) : Grammar := fun bytes =>
  match sources.find? fun parts => source parts == bytes with
  | some parts => root parts
  | none => .mk { kind := "compilation_unit", start := 0, stop := bytes.length } []

/-! ### Trees of phrases -/

def isBlank : Phrase → Bool
  | .blank _ => true
  | _ => false

def kind : Phrase → String
  | .blank _ => ""
  | .leaf _ kind _ _ => kind
  | .node _ kind _ => kind

def field : Phrase → Option String
  | .blank _ => none
  | .leaf field _ _ _ => field
  | .node field _ _ => field

def isNamed : Phrase → Bool
  | .leaf _ _ isNamed _ => isNamed
  | _ => true

/-- What a grammar says of a phrase at a place, apart from the rows. -/
def info (start : Nat) (p : Phrase) : NodeInfo :=
  { kind := p.kind, field := p.field, isNamed := p.isNamed, start, stop := start + size p.text }

mutual

/-- Whether a node has the tree of a phrase at a place. -/
def Shows (start : Nat) : Phrase → SyntaxNode → Prop
  | .blank _, _ => False
  | .leaf field kind isNamed text, n =>
    n.info.withoutRows = info start (.leaf field kind isNamed text)
  | .node field kind parts, n =>
    n.info.withoutRows = info start (.node field kind parts) ∧ ShowsAll start parts n.children

/-- Whether nodes have the trees of phrases one after another. -/
def ShowsAll (start : Nat) : List Phrase → List SyntaxNode → Prop
  | [], nodes => nodes = []
  | p :: rest, nodes =>
    if p.isBlank then ShowsAll (start + size p.text) rest nodes
    else ∃ n more, nodes = n :: more ∧ Shows start p n ∧ ShowsAll (start + size p.text) rest more

end

/-- Whether a tree is that of a source that is made up of some phrases. -/
structure IsTreeOf (parts : List Phrase) (root : SyntaxNode) : Prop where
  isWhole : root.info.hasError = false
  shows : ShowsAll 0 parts root.children

mutual

theorem shows_trees (start : Nat) : ∀ (p : Phrase), p.isBlank = false →
    ∃ n, p.trees start = [n] ∧ Shows start p n
  | .blank _, h => by cases h
  | .leaf field kind isNamed text, _ => ⟨_, rfl, rfl⟩
  | .node field kind parts, _ => by
      refine ⟨_, rfl, ?_⟩
      rw [Shows]
      exact ⟨rfl, showsAll_treesOf start parts⟩

/-- The trees that phrases are given are theirs. -/
theorem showsAll_treesOf (start : Nat) : ∀ (parts : List Phrase),
    ShowsAll start parts (treesOf start parts)
  | [] => rfl
  | p :: rest => by
      rw [ShowsAll, treesOf]
      split
      · next hblank =>
        have hnone : p.trees start = [] := by
          cases p with
          | blank => rfl
          | leaf => cases hblank
          | node => cases hblank
        rw [hnone, List.nil_append]
        exact showsAll_treesOf _ rest
      · next hblank =>
        obtain ⟨n, htrees, hshows⟩ := shows_trees start p (Bool.eq_false_iff.mpr hblank)
        exact ⟨n, _, by rw [htrees]; rfl, hshows, showsAll_treesOf _ rest⟩

end

theorem isTreeOf_root (parts : List Phrase) : IsTreeOf parts (root parts) :=
  ⟨rfl, showsAll_treesOf 0 parts⟩

theorem grammar_eq (before : List (List Phrase)) {after : List (List Phrase)}
    {parts : List Phrase} {bytes : Bytes}
    (h : source parts = bytes) (hbefore : ∀ other ∈ before, source other ≠ bytes) :
    grammar (before ++ parts :: after) bytes = root parts := by
  have hfind : (before ++ parts :: after).find? (fun other => source other == bytes) =
      some parts := by
    rw [List.find?_append, List.find?_eq_none.mpr (by simpa using hbefore), Option.none_or,
      List.find?_cons_of_pos (by simp [h])]
  rw [grammar, hfind]

theorem isTreeOf_grammar (parts : List Phrase) :
    IsTreeOf parts (grammar [parts] (source parts)) := by
  have hroot : grammar [parts] (source parts) = root parts := grammar_eq [] rfl (by simp)
  rw [hroot]
  exact isTreeOf_root parts

/-! ### Nodes and their texts -/

variable {bytes : Bytes} {start : Nat} {p : Phrase} {n : SyntaxNode}

theorem textOf_append (a b : List Phrase) : textOf (a ++ b) = textOf a ++ textOf b := by
  induction a with
  | nil => rw [List.nil_append, textOf, String.empty_append]
  | cons p rest ih => rw [List.cons_append, textOf, textOf, ih, String.append_assoc]

theorem encode_append (a b : String) : Utf8.encode (a ++ b) = Utf8.encode a ++ Utf8.encode b := by
  simp [Utf8.encode]

theorem size_append (a b : String) : size (a ++ b) = size a + size b := by
  rw [size, encode_append, List.length_append]
  rfl

/-- A source has a text at a place. -/
def IsAt (bytes : Bytes) (start : Nat) (text : String) : Prop :=
  Utf8.encode text <+: bytes.drop start

theorem isAt_source (parts : List Phrase) : IsAt (source parts) 0 (textOf parts) :=
  List.prefix_refl _

theorem IsAt.left {a b : String} (h : IsAt bytes start (a ++ b)) : IsAt bytes start a := by
  rw [IsAt, encode_append] at h
  exact (List.prefix_append _ _).trans h

theorem IsAt.right {a b : String} (h : IsAt bytes start (a ++ b)) :
    IsAt bytes (start + size a) b := by
  rw [IsAt, encode_append] at h
  obtain ⟨rest, hrest⟩ := h
  refine ⟨rest, ?_⟩
  rw [← List.drop_drop, ← hrest, List.append_assoc, size, List.drop_left]

theorem IsAt.sliceText_eq {text : String} (h : IsAt bytes start text) :
    sliceText bytes start (start + size text) = text := by
  obtain ⟨rest, hrest⟩ := h
  rw [sliceText, slice, Nat.add_sub_cancel_left, ← hrest, size, List.take_left, Utf8.decodeLossy,
    Utf8.encode, Utf8.scan_flatMap_utf8EncodeChar, List.map_map]
  exact (congrArg String.ofList (List.map_id _)).trans String.ofList_toList

theorem Shows.info_eq (h : Shows start p n) : n.info.withoutRows = p.info start := by
  cases p with
  | blank => rw [Shows] at h; exact h.elim
  | leaf => rwa [Shows] at h
  | node => rw [Shows] at h; exact h.1

theorem Shows.kind_eq (h : Shows start p n) : n.kind = p.kind := congrArg NodeInfo.kind h.info_eq

theorem Shows.field_eq (h : Shows start p n) : n.info.field = p.field :=
  congrArg NodeInfo.field h.info_eq

theorem Shows.start_eq (h : Shows start p n) : n.start = start := congrArg NodeInfo.start h.info_eq

theorem Shows.stop_eq (h : Shows start p n) : n.stop = start + size p.text :=
  congrArg NodeInfo.stop h.info_eq

theorem exists_append_of_showsAll {a b : List Phrase} {nodes : List SyntaxNode}
    (h : ShowsAll start (a ++ b) nodes) :
    ∃ x y, nodes = x ++ y ∧ ShowsAll start a x ∧ ShowsAll (start + size (textOf a)) b y := by
  induction a generalizing start nodes with
  | nil => exact ⟨[], nodes, rfl, rfl, h⟩
  | cons p rest ih =>
      rw [List.cons_append, ShowsAll] at h
      rw [textOf, size_append, ← Nat.add_assoc]
      split at h
      · next hblank =>
        obtain ⟨x, y, rfl, hx, hy⟩ := ih h
        exact ⟨x, y, rfl, by rwa [ShowsAll, if_pos hblank], hy⟩
      · next hblank =>
        obtain ⟨n, more, rfl, hshows, hmore⟩ := h
        obtain ⟨x, y, rfl, hx, hy⟩ := ih hmore
        exact ⟨n :: x, y, rfl, by rw [ShowsAll, if_neg hblank]; exact ⟨n, x, rfl, hshows, hx⟩, hy⟩

theorem start_lt_of_showsAll {parts : List Phrase} {nodes : List SyntaxNode}
    (h : ShowsAll start parts nodes) (hsize : ∀ p ∈ parts, 0 < size p.text) {m : SyntaxNode}
    (hm : m ∈ nodes) : m.start < start + size (textOf parts) := by
  induction parts generalizing start nodes with
  | nil => rw [h] at hm; cases hm
  | cons p rest ih =>
      obtain ⟨hp, hrest⟩ := List.forall_mem_cons.mp hsize
      rw [ShowsAll] at h
      rw [textOf, size_append, ← Nat.add_assoc]
      split at h
      · exact ih h hrest hm
      · obtain ⟨n, more, rfl, hshows, hmore⟩ := h
        rcases List.mem_cons.mp hm with rfl | hm
        · rw [hshows.start_eq]
          omega
        · exact ih hmore hrest hm

/-- The first phrase of a kind is shown by the first node of the kind. -/
theorem find?_of_showsAll {a b : List Phrase} {nodes : List SyntaxNode} {q : SyntaxNode → Bool}
    {t : Phrase → Bool} (h : ShowsAll start (a ++ p :: b) nodes)
    (hq : ∀ start p n, Shows start p n → q n = t p) (ha : ∀ x ∈ a, x.isBlank = false → t x = false)
    (hp : t p = true) (hblank : p.isBlank = false) :
    ∃ x n y, nodes = x ++ n :: y ∧ nodes.find? q = some n ∧ ShowsAll start a x ∧
      Shows (start + size (textOf a)) p n := by
  obtain ⟨x, y, rfl, hx, hy⟩ := exists_append_of_showsAll h
  rw [ShowsAll, if_neg (Bool.eq_false_iff.mp hblank)] at hy
  obtain ⟨n, more, rfl, hn, -⟩ := hy
  refine ⟨x, n, more, rfl, ?_, hx, hn⟩
  rw [List.find?_append, List.find?_cons_of_pos (by rw [hq _ _ _ hn, hp]), List.find?_eq_none.mpr,
    Option.none_or]
  clear h
  induction a generalizing start x with
  | nil => rw [hx]; simp
  | cons first rest ih =>
      obtain ⟨hfirst, hrest⟩ := List.forall_mem_cons.mp ha
      rw [ShowsAll] at hx
      split at hx
      · rw [textOf, size_append, ← Nat.add_assoc] at hn
        exact ih hrest x hx hn
      · next hnode =>
        obtain ⟨m, others, rfl, hm, hothers⟩ := hx
        rw [textOf, size_append, ← Nat.add_assoc] at hn
        refine List.forall_mem_cons.mpr ⟨?_, ih hrest others hothers hn⟩
        rw [hq _ _ _ hm, hfirst (Bool.eq_false_iff.mpr hnode)]
        exact Bool.false_ne_true

/-- A node of a source has the tree of a phrase, and the phrase is there. -/
def Stands (bytes : Bytes) (p : Phrase) (n : SyntaxNode) : Prop :=
  ∃ start, Shows start p n ∧ IsAt bytes start p.text

namespace Stands

theorem kind_eq (h : Stands bytes p n) : n.kind = p.kind :=
  h.choose_spec.1.kind_eq

theorem field_eq (h : Stands bytes p n) : n.info.field = p.field :=
  h.choose_spec.1.field_eq

theorem isNamed_eq (h : Stands bytes p n) : n.info.isNamed = p.isNamed :=
  congrArg NodeInfo.isNamed h.choose_spec.1.info_eq

theorem hasError_eq (h : Stands bytes p n) : n.info.hasError = false :=
  congrArg NodeInfo.hasError h.choose_spec.1.info_eq

theorem rawText_eq (h : Stands bytes p n) : n.rawText bytes = p.text := by
  obtain ⟨start, hshows, hat⟩ := h
  rw [SyntaxNode.rawText, hshows.start_eq, hshows.stop_eq, hat.sliceText_eq]

theorem text_eq (h : Stands bytes p n) : n.text bytes = trim p.text := by
  rw [SyntaxNode.text, h.rawText_eq]

end Stands

/-- The phrases that are in a tree. -/
def pieces (parts : List Phrase) : List Phrase := parts.filter (!·.isBlank)

theorem stands_of_showsAll {parts : List Phrase} {nodes : List SyntaxNode}
    (h : ShowsAll start parts nodes) (hat : IsAt bytes start (textOf parts)) :
    List.Forall₂ (Stands bytes) (pieces parts) nodes := by
  induction parts generalizing start nodes with
  | nil => rw [h]; exact .nil
  | cons p rest ih =>
      rw [ShowsAll] at h
      rw [textOf] at hat
      cases hblank : p.isBlank with
      | true =>
          rw [if_pos hblank] at h
          rw [pieces, List.filter_cons_of_neg (by simp [hblank])]
          exact ih h hat.right
      | false =>
          rw [if_neg (by simp [hblank])] at h
          obtain ⟨n, more, rfl, hshows, hmore⟩ := h
          rw [pieces, List.filter_cons_of_pos (by simp [hblank])]
          exact .cons ⟨start, hshows, hat.left⟩ (ih hmore hat.right)

theorem Stands.children {field : Option String} {kind : String} {parts : List Phrase}
    (h : Stands bytes (.node field kind parts) n) :
    List.Forall₂ (Stands bytes) (pieces parts) n.children := by
  obtain ⟨start, hshows, hat⟩ := h
  rw [Shows] at hshows
  exact stands_of_showsAll hshows.2 hat

theorem map_text_of_stands {parts : List Phrase} {nodes : List SyntaxNode}
    (h : List.Forall₂ (Stands bytes) parts nodes) :
    nodes.map (·.text bytes) = parts.map (trim ·.text) :=
  map_eq_of_forall₂ h fun _ _ hstands => hstands.text_eq

/-! ### Words and declarations -/

def token (text : String) : Phrase := .leaf none text false text

def identifier (name : String) (field : Option String := none) : Phrase :=
  .leaf field "identifier" true name

def space : Phrase := .blank " "

def modifier (word : String) : List Phrase := [.leaf none "modifier" true word, space]

def braces (kind : String) (inner : List Phrase) : Phrase :=
  .node (some "body") kind (token "\x7b" :: inner ++ [token "\x7d"])

def parameterList (parameters : List Phrase) (field : Option String := some "parameters") :
    Phrase :=
  .node field "parameter_list" (token "(" :: parameters ++ [token ")"])

/-- A class; `head` is what stands between its name and its body. -/
def classOf (modifiers : List String) (name : String) (head members : List Phrase) : Phrase :=
  .node none "class_declaration" (modifiers.flatMap modifier ++
    [token "class", space, identifier name (some "name")] ++ head ++
      [braces "declaration_list" members])

def methodOf (modifiers : List String) (type name : String) (parameters : List Phrase) : Phrase :=
  .node none "method_declaration" (modifiers.flatMap modifier ++
    [identifier type (some "returns"), space, identifier name (some "name"),
      parameterList parameters, braces "block" []])

def constructorOf (modifiers : List String) (name : String) (parameters : List Phrase) : Phrase :=
  .node none "constructor_declaration" (modifiers.flatMap modifier ++
    [identifier name (some "name"), parameterList parameters, braces "block" []])

def controllerOf (name : String) : List Phrase :=
  [classOf ["public"] name [] [methodOf ["public"] "IActionResult" "Index" []]]

end Phrase

end RouteLinks
