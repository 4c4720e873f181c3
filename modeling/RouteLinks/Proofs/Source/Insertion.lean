import RouteLinks.Proofs.Source.Occurrences
import RouteLinks.Proofs.Source.Phrase
import RouteLinks.Proofs.Text.Fields
/-!
# A comment is put into a source

A block comment is put between two tokens of a source. What ends in front of it stays where it is,
and what begins behind it is moved by its length. In the tree the comment is one more named node, a
child of the innermost node that it is put into; all other nodes are as they were.

Of a text nothing has to be known but its slashes: a comment has some, and decoding, trimming and
cutting at blanks lose none.
-/

namespace RouteLinks

/-! ### Slashes -/

def slashes (s : String) : Nat := s.toList.count '/'

theorem Text.count_dropWhile {p : Char → Bool} {d : Char} (hd : p d = false) (cs : List Char) :
    (cs.dropWhile p).count d = cs.count d := by
  have hnone : (cs.takeWhile p).count d = 0 :=
    List.count_eq_zero_of_not_mem fun hmem => by
      rw [List.mem_takeWhile_imp hmem] at hd
      cases hd
  rw [← Nat.zero_add (List.count d _), ← hnone, ← List.count_append,
    List.takeWhile_append_dropWhile]

theorem Text.count_dropEndWhile {p : Char → Bool} {d : Char} (hd : p d = false) (cs : List Char) :
    (Text.dropEndWhile p cs).count d = cs.count d := by
  rw [Text.dropEndWhile, List.count_reverse, Text.count_dropWhile hd, List.count_reverse]

theorem Text.count_trim {d : Char} (hd : isBlank d = false) (cs : List Char) :
    (Text.trim cs).count d = cs.count d := by
  rw [Text.trim, Text.trimEnd, Text.count_dropEndWhile hd, Text.trimStart, Text.count_dropWhile hd]

theorem slashes_trim (s : String) : slashes (trim s) = slashes s := by
  rw [slashes, trim, onChars, String.toList_ofList, Text.count_trim (by decide), slashes]

theorem slashes_append (text text' : String) :
    slashes (text ++ text') = slashes text + slashes text' := by
  rw [slashes, String.toList_append, List.count_append]
  rfl

theorem slashes_decodeLossy (bytes : Bytes) :
    slashes (Utf8.decodeLossy bytes) = bytes.count 0x2F :=
  @Utf8.count_decodeLossy 0x2F (by decide) bytes

theorem slice_append_slice (bytes : Bytes) {a b d : Nat} (hab : a ≤ b) (hbd : b ≤ d) :
    slice bytes a b ++ slice bytes b d = slice bytes a d := by
  have hlength : d - a = (b - a) + (d - b) := by omega
  rw [slice, slice, slice, hlength, List.take_add, List.drop_drop, Nat.add_sub_cancel' hab]

namespace Source

open SyntaxNode

/-- A comment and the place where it is put. -/
structure Comment where
  place : Nat
  bytes : Bytes

/-- The bytes of a comment with its marks, an opening and a closing one. -/
def IsBlock (bytes : Bytes) : Prop :=
  ∃ inside, bytes = 0x2F :: 0x2A :: (inside ++ [0x2A, 0x2F])

namespace Comment

def text (c : Comment) : String := trim (Utf8.decodeLossy c.bytes)

/-- The bytes of a source with the comment in them. -/
def insert (c : Comment) (bytes : Bytes) : Bytes :=
  bytes.take c.place ++ c.bytes ++ bytes.drop c.place

/-- A block comment is put into a source. -/
structure Fits (c : Comment) (bytes : Bytes) : Prop where
  block : IsBlock c.bytes
  place : c.place ≤ bytes.length

def isIn (c : Comment) (n : SyntaxNode) : Bool := n.start < c.place && c.place < n.stop

/-- Whether the comment is put into none of some nodes. -/
def isBeside (c : Comment) (nodes : List SyntaxNode) : Bool := nodes.all (!c.isIn ·)

/-- Whether the comment becomes a child of a node. -/
def isAmong (c : Comment) (n : SyntaxNode) : Bool := c.isIn n && c.isBeside n.children

/-- Where a node stands with the comment in the source. -/
def moved (c : Comment) (i : NodeInfo) : NodeInfo :=
  { i with
    start := if i.start < c.place then i.start else i.start + c.bytes.length
    stop :=
      if i.start < c.place ∧ i.stop ≤ c.place then i.stop else i.stop + c.bytes.length }

/-- The node of the comment. -/
def info (c : Comment) : NodeInfo :=
  { kind := "comment", start := c.place, stop := c.place + c.bytes.length }

def isNode (c : Comment) (n : SyntaxNode) : Bool :=
  n.info.withoutRows == c.info && n.children.isEmpty

/-- A node is as it was but for its place. Its children stand between its ends. -/
structure Moves (c : Comment) (n n' : SyntaxNode) : Prop where
  info : n'.info.withoutRows = (c.moved n.info).withoutRows
  nested : ∀ child ∈ n.children, n.IsNested child

/-- What a node becomes with the comment in the source. -/
inductive Becomes (c : Comment) : SyntaxNode → SyntaxNode → Prop where
  | keeps {n n' : SyntaxNode} (hmoves : c.Moves n n')
      (hone : c.isIn n = true → n.children.countP c.isIn = 1)
      (hchildren : List.Forall₂ (Becomes c) n.children n'.children) : Becomes c n n'
  | gains {n n' node : SyntaxNode} {before after before' after' : List SyntaxNode}
      (hmoves : c.Moves n n') (hin : c.isIn n = true)
      (hold : n.children = before ++ after) (hnew : n'.children = before' ++ node :: after')
      (hfront : ∀ child ∈ before, child.start < c.place ∧ child.stop ≤ c.place)
      (hbehind : ∀ child ∈ after, c.place ≤ child.start) (hnode : c.isNode node = true)
      (hbefore : List.Forall₂ (Becomes c) before before')
      (hafter : List.Forall₂ (Becomes c) after after') : Becomes c n n'

end Comment

theorem IsBlock.length_pos {bytes : Bytes} (h : IsBlock bytes) : 0 < bytes.length := by
  obtain ⟨inside, rfl⟩ := h
  exact Nat.succ_pos _

theorem IsBlock.slashes_pos {bytes : Bytes} (h : IsBlock bytes) : 0 < bytes.count 0x2F := by
  obtain ⟨inside, rfl⟩ := h
  simp

/-! ### Bytes -/

section Bytes

variable {c : Comment} {bytes : Bytes} {a b : Nat} (hplace : c.place ≤ bytes.length)

theorem slice_eq_drop_take (bytes : Bytes) (a b : Nat) :
    slice bytes a b = (bytes.take b).drop a := by
  rw [slice, List.drop_take]

include hplace

theorem slice_insert_before (hb : b ≤ c.place) : slice (c.insert bytes) a b = slice bytes a b := by
  have hlength : (bytes.take c.place).length = c.place := List.length_take_of_le hplace
  rw [slice_eq_drop_take, slice_eq_drop_take, Comment.insert, List.append_assoc,
    List.take_append_of_le_length (by omega), List.take_take, Nat.min_eq_left hb]

theorem slice_insert_behind (ha : c.place ≤ a) :
    slice (c.insert bytes) (a + c.bytes.length) (b + c.bytes.length) = slice bytes a b := by
  have hlength : (bytes.take c.place).length = c.place := List.length_take_of_le hplace
  have hbehind : a + c.bytes.length =
      (bytes.take c.place ++ c.bytes).length + (a - c.place) := by
    rw [List.length_append, hlength]
    omega
  have hdrop : (c.insert bytes).drop (a + c.bytes.length) = bytes.drop a := by
    rw [Comment.insert, hbehind, List.drop_length_add_append, List.drop_drop,
      Nat.add_sub_cancel' ha]
  rw [slice, slice, hdrop, Nat.add_sub_add_right]

theorem slice_insert_across (ha : a ≤ c.place) (hb : c.place ≤ b) :
    slice (c.insert bytes) a (b + c.bytes.length) =
      slice bytes a c.place ++ c.bytes ++ slice bytes c.place b := by
  have hlength : (bytes.take c.place).length = c.place := List.length_take_of_le hplace
  have hbehind : b + c.bytes.length =
      (bytes.take c.place ++ c.bytes).length + (b - c.place) := by
    rw [List.length_append, hlength]
    omega
  rw [slice_eq_drop_take, Comment.insert, hbehind, List.take_length_add_append, List.append_assoc,
    List.drop_append_of_le_length (by omega), slice_eq_drop_take bytes a, slice, List.append_assoc]

end Bytes

/-! ### Nodes -/

namespace Comment

variable {c : Comment} {n n' : SyntaxNode}

theorem isIn_eq_true_iff : c.isIn n = true ↔ n.start < c.place ∧ c.place < n.stop := by
  rw [isIn, Bool.and_eq_true, decide_eq_true_eq, decide_eq_true_eq]

theorem isIn_eq_false_iff : c.isIn n = false ↔ ¬(n.start < c.place ∧ c.place < n.stop) := by
  rw [← isIn_eq_true_iff, Bool.not_eq_true]

theorem isBeside_iff {nodes : List SyntaxNode} :
    c.isBeside nodes = true ↔ ∀ n ∈ nodes, c.isIn n = false := by
  simp only [isBeside, List.all_eq_true, Bool.not_eq_true']

theorem isBeside_append (nodes others : List SyntaxNode) :
    c.isBeside (nodes ++ others) = (c.isBeside nodes && c.isBeside others) :=
  List.all_append

/-- The comment is in no part of what it is not in. -/
theorem isIn_of_isNested {outer : SyntaxNode} (h : outer.IsNested n) (hin : c.isIn n = true) :
    c.isIn outer = true := by
  rw [isIn_eq_true_iff] at hin ⊢
  have hfront := h.front
  have hback := h.back
  omega

namespace Moves

theorem kind_eq (h : c.Moves n n') : n'.kind = n.kind := by
  have hsame := congrArg NodeInfo.kind h.info
  exact hsame

theorem field_eq (h : c.Moves n n') : n'.info.field = n.info.field := by
  have hsame := congrArg NodeInfo.field h.info
  exact hsame

theorem isNamed_eq (h : c.Moves n n') : n'.info.isNamed = n.info.isNamed := by
  have hsame := congrArg NodeInfo.isNamed h.info
  exact hsame

theorem hasError_eq (h : c.Moves n n') : n'.info.hasError = n.info.hasError := by
  have hsame := congrArg NodeInfo.hasError h.info
  exact hsame

theorem start_eq (h : c.Moves n n') :
    n'.start = if n.start < c.place then n.start else n.start + c.bytes.length :=
  congrArg NodeInfo.start h.info

theorem stop_eq (h : c.Moves n n') : n'.stop =
    if n.start < c.place ∧ n.stop ≤ c.place then n.stop else n.stop + c.bytes.length :=
  congrArg NodeInfo.stop h.info

end Moves

namespace Becomes

theorem moves (h : c.Becomes n n') : c.Moves n n' := by
  cases h <;> assumption

theorem kind_eq (h : c.Becomes n n') : n'.kind = n.kind := h.moves.kind_eq

theorem isNode_eq_false (h : c.Becomes n n') (hpos : 0 < c.bytes.length) :
    c.isNode n' = false := by
  have hstart := h.moves.start_eq
  by_contra hnode
  rw [Bool.not_eq_false, isNode, Bool.and_eq_true, beq_iff_eq] at hnode
  have hplace : n'.start = c.place := congrArg NodeInfo.start hnode.1
  split at hstart <;> omega

end Becomes

theorem kind_of_isNode (h : c.isNode n = true) : n.kind = "comment" := by
  rw [isNode, Bool.and_eq_true, beq_iff_eq] at h
  exact congrArg NodeInfo.kind h.1

theorem isNamed_of_isNode (h : c.isNode n = true) : n.info.isNamed = true := by
  rw [isNode, Bool.and_eq_true, beq_iff_eq] at h
  exact congrArg NodeInfo.isNamed h.1

theorem field_of_isNode (h : c.isNode n = true) : n.info.field = none := by
  rw [isNode, Bool.and_eq_true, beq_iff_eq] at h
  exact congrArg NodeInfo.field h.1

theorem start_of_isNode (h : c.isNode n = true) : n.start = c.place := by
  rw [isNode, Bool.and_eq_true, beq_iff_eq] at h
  exact congrArg NodeInfo.start h.1

theorem stop_of_isNode (h : c.isNode n = true) : n.stop = c.place + c.bytes.length := by
  rw [isNode, Bool.and_eq_true, beq_iff_eq] at h
  exact congrArg NodeInfo.stop h.1

/-! ### Lists of nodes -/

/-- Nodes are as they were but for the one of the comment. -/
def Alike (c : Comment) (nodes nodes' : List SyntaxNode) : Prop :=
  List.Forall₂ c.Becomes nodes (nodes'.filter (!c.isNode ·))

variable {nodes nodes' : List SyntaxNode}

theorem filter_isNode (hpos : 0 < c.bytes.length) (h : List.Forall₂ c.Becomes nodes nodes') :
    nodes'.filter (!c.isNode ·) = nodes' := by
  induction h with
  | nil => rfl
  | cons hn _ ih => rw [List.filter_cons_of_pos (by rw [hn.isNode_eq_false hpos]; rfl), ih]

theorem alike_of_forall₂ (hpos : 0 < c.bytes.length) (h : List.Forall₂ c.Becomes nodes nodes') :
    c.Alike nodes nodes' := by
  rwa [Alike, filter_isNode hpos h]

theorem Becomes.alike (hpos : 0 < c.bytes.length) (h : c.Becomes n n') :
    c.Alike n.children n'.children := by
  cases h with
  | keeps _ _ hchildren => exact alike_of_forall₂ hpos hchildren
  | gains _ _ hold hnew _ _ hnode hbefore hafter =>
      rw [Alike, hold, hnew, List.filter_append, List.filter_cons_of_neg (by simp [hnode]),
        filter_isNode hpos hbefore, filter_isNode hpos hafter]
      exact List.rel_append hbefore hafter

namespace Alike

variable {q : SyntaxNode → Bool}

theorem filter (h : c.Alike nodes nodes') (hnode : ∀ n, c.isNode n = true → q n = false)
    (hq : ∀ n n', c.Becomes n n' → q n' = q n) :
    List.Forall₂ c.Becomes (nodes.filter q) (nodes'.filter q) := by
  have hselected : (nodes'.filter (!c.isNode ·)).filter q = nodes'.filter q := by
    rw [List.filter_filter]
    refine List.filter_congr fun n _ => ?_
    cases hcomment : c.isNode n with
    | false => simp
    | true => simp [hnode n hcomment]
  rw [← hselected]
  exact List.rel_filter (fun n n' hn => by simp only [hq n n' hn]) h

theorem find? (h : c.Alike nodes nodes') (hnode : ∀ n, c.isNode n = true → q n = false)
    (hq : ∀ n n', c.Becomes n n' → q n' = q n) :
    Option.Rel c.Becomes (nodes.find? q) (nodes'.find? q) := by
  rw [← List.head?_filter, ← List.head?_filter]
  exact rel_head? (h.filter hnode hq)

theorem append {others others' : List SyntaxNode} (h : c.Alike nodes nodes')
    (hothers : c.Alike others others') : c.Alike (nodes ++ others) (nodes' ++ others') := by
  rw [Alike, List.filter_append]
  exact List.rel_append h hothers

end Alike

section Children

variable (hpos : 0 < c.bytes.length) (h : c.Becomes n n')

include hpos h

theorem Becomes.field? (name : String) :
    Option.Rel c.Becomes (n.field? name) (n'.field? name) := by
  refine (h.alike hpos).find? (fun m hm => ?_) fun m m' hm => ?_
  · rw [field_of_isNode hm]
    rfl
  · rw [hm.moves.field_eq]

theorem Becomes.filter_kind {kind : String} (hkind : kind ≠ "comment") :
    List.Forall₂ c.Becomes (n.children.filter (·.kind == kind))
      (n'.children.filter (·.kind == kind)) := by
  refine (h.alike hpos).filter (fun m hm => ?_) fun m m' hm => ?_
  · rw [kind_of_isNode hm]
    exact beq_false_of_ne hkind.symm
  · rw [hm.kind_eq]

theorem Becomes.child? (kind : String) (hkind : kind ≠ "comment") :
    Option.Rel c.Becomes (n.child? kind) (n'.child? kind) := by
  rw [SyntaxNode.child?, SyntaxNode.child?, ← List.head?_filter, ← List.head?_filter]
  exact rel_head? (h.filter_kind hpos hkind)

end Children

/-! ### Texts -/

/-- What the text of a node is with the comment in the source. -/
def rawTextWith (c : Comment) (bytes : Bytes) (n : SyntaxNode) : String :=
  if c.isIn n then
    Utf8.decodeLossy (slice bytes n.start c.place ++ c.bytes ++ slice bytes c.place n.stop)
  else n.rawText bytes

def textWith (c : Comment) (bytes : Bytes) (n : SyntaxNode) : String :=
  trim (c.rawTextWith bytes n)

variable {bytes : Bytes}

theorem slashes_rawTextWith (c : Comment) (bytes : Bytes) (n : SyntaxNode) :
    slashes (c.rawTextWith bytes n) =
      slashes (n.rawText bytes) + if c.isIn n then c.bytes.count 0x2F else 0 := by
  rw [rawTextWith]
  cases hin : c.isIn n with
  | false => simp
  | true =>
      obtain ⟨hstart, hstop⟩ := isIn_eq_true_iff.mp hin
      rw [if_pos rfl, if_pos rfl, SyntaxNode.rawText, sliceText, slashes_decodeLossy,
        slashes_decodeLossy, ← slice_append_slice bytes hstart.le hstop.le, List.count_append,
        List.count_append, List.count_append]
      omega

theorem slashes_textWith (c : Comment) (bytes : Bytes) (n : SyntaxNode) :
    slashes (c.textWith bytes n) =
      slashes (n.text bytes) + if c.isIn n then c.bytes.count 0x2F else 0 := by
  rw [textWith, SyntaxNode.text, slashes_trim, slashes_trim, slashes_rawTextWith]

section Fits

variable (hfits : c.Fits bytes)

include hfits

theorem Fits.length_pos : 0 < c.bytes.length := hfits.block.length_pos

theorem rawTextWith_eq_iff : c.rawTextWith bytes n = n.rawText bytes ↔ c.isIn n = false := by
  constructor
  · intro hsame
    have hslashes := c.slashes_rawTextWith bytes n
    have hpos := hfits.block.slashes_pos
    rw [hsame] at hslashes
    cases hin : c.isIn n with
    | false => rfl
    | true =>
        rw [hin, if_pos rfl] at hslashes
        omega
  · intro hin
    rw [rawTextWith, hin, if_neg Bool.false_ne_true]

/-- The text of a node stays if the comment is not put into it, and not otherwise. -/
theorem textWith_eq_iff : c.textWith bytes n = n.text bytes ↔ c.isIn n = false := by
  constructor
  · intro hsame
    have hslashes := c.slashes_textWith bytes n
    have hpos := hfits.block.slashes_pos
    rw [hsame] at hslashes
    cases hin : c.isIn n with
    | false => rfl
    | true =>
        rw [hin, if_pos rfl] at hslashes
        omega
  · intro hin
    rw [textWith, (rawTextWith_eq_iff hfits).mpr hin, SyntaxNode.text]

theorem Becomes.rawText_eq (h : c.Becomes n n') :
    n'.rawText (c.insert bytes) = c.rawTextWith bytes n := by
  have hstart := h.moves.start_eq
  have hstop := h.moves.stop_eq
  rw [rawTextWith, SyntaxNode.rawText, SyntaxNode.rawText, sliceText, sliceText, hstart, hstop]
  cases hin : c.isIn n with
  | true =>
      obtain ⟨hbefore, hbehind⟩ := isIn_eq_true_iff.mp hin
      rw [if_pos rfl, if_pos hbefore, if_neg (by omega),
        slice_insert_across hfits.place hbefore.le hbehind.le]
  | false =>
      have hout := isIn_eq_false_iff.mp hin
      rw [if_neg Bool.false_ne_true]
      by_cases hbefore : n.start < c.place
      · rw [if_pos hbefore, if_pos (by omega), slice_insert_before hfits.place (by omega)]
      · rw [if_neg hbefore, if_neg (by omega), slice_insert_behind hfits.place (by omega)]

theorem Becomes.text_eq (h : c.Becomes n n') :
    n'.text (c.insert bytes) = c.textWith bytes n := by
  rw [SyntaxNode.text, h.rawText_eq hfits, textWith]

theorem text_of_isNode (h : c.isNode n = true) : n.text (c.insert bytes) = c.text := by
  have hacross := slice_insert_across hfits.place (Nat.le_refl c.place) (Nat.le_refl c.place)
  rw [slice, slice, Nat.sub_self, List.take_zero, List.nil_append, List.append_nil] at hacross
  rw [SyntaxNode.text, SyntaxNode.rawText, sliceText, start_of_isNode h, stop_of_isNode h, text]
  exact congrArg (fun bytes => trim (Utf8.decodeLossy bytes)) hacross

theorem map_text_eq_iff (h : List.Forall₂ c.Becomes nodes nodes') :
    nodes'.map (·.text (c.insert bytes)) = nodes.map (·.text bytes) ↔
      c.isBeside nodes = true := by
  rw [isBeside_iff]
  refine map_eq_iff_of_forall₂ h fun m m' hm => ?_
  rw [hm.text_eq hfits, textWith_eq_iff hfits]

end Fits

end Comment

end Source

end RouteLinks
