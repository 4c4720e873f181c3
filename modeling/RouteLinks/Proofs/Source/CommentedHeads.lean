import Mathlib.Algebra.BigOperators.Group.List.Basic
import Mathlib.Algebra.Order.Ring.Nat
import RouteLinks.Proofs.Source.Insertion
import RouteLinks.Source.Reader
/-!
# Heads with a comment in them

Names, modifiers, attributes, return types, base lists and type parameters with a comment in the
source. Each is the same if the comment is not put where it is read, and another one otherwise. What
a base list names are its named children, so a comment between the names is one of them.
-/

namespace RouteLinks.Source

open SyntaxNode

/-! ### Slashes of lists -/

def totalSlashes (texts : List String) : Nat := (texts.map slashes).sum

theorem totalSlashes_append (texts others : List String) :
    totalSlashes (texts ++ others) = totalSlashes texts + totalSlashes others := by
  rw [totalSlashes, List.map_append, List.sum_append]
  rfl

theorem totalSlashes_filter (texts : List String) :
    totalSlashes (texts.filter (!·.isEmpty)) = totalSlashes texts := by
  induction texts with
  | nil => rfl
  | cons text rest ih =>
      rw [List.filter_cons]
      split
      · simp only [totalSlashes, List.map_cons, List.sum_cons] at ih ⊢
        rw [ih]
      · next hempty =>
        have hnone : slashes text = 0 := by
          rw [Bool.not_eq_true', Bool.not_eq_false, String.isEmpty_iff] at hempty
          rw [hempty]
          rfl
        simp only [totalSlashes, List.map_cons, List.sum_cons, hnone] at ih ⊢
        rw [ih, Nat.zero_add]

theorem totalSlashes_divideBases (names : List String) :
    totalSlashes ((divideBases names).1.toList ++ (divideBases names).2) = totalSlashes names := by
  induction names with
  | nil => rfl
  | cons name rest ih =>
      rw [divideBases]
      split
      · simp only [totalSlashes, List.map_append, List.map_cons, List.sum_append,
          List.sum_cons] at ih ⊢
        omega
      · rfl

theorem totalSlashes_trimmed (parts : List (List Char)) :
    totalSlashes ((parts.map Text.trim).filterMap fun p =>
      if p.isEmpty then none else some (String.ofList p)) = (parts.map (List.count '/')).sum := by
  induction parts with
  | nil => rfl
  | cons part rest ih =>
      have hcount := Text.count_trim (by decide : Text.isBlank '/' = false) part
      rw [List.map_cons, List.filterMap_cons, List.map_cons, List.sum_cons, ← ih, ← hcount]
      cases htrim : Text.trim part with
      | nil => simp
      | cons c cs => simp [totalSlashes, slashes]

theorem sum_count_fields {d separator : Char} (hd : separator ≠ d) (cs : List Char) :
    ((Text.fields separator cs).map (List.count d)).sum = cs.count d := by
  induction cs with
  | nil => rfl
  | cons c rest ih =>
      rw [Text.fields]
      split
      · next hc =>
        rw [List.map_cons, List.sum_cons, ih, eq_of_beq hc, List.count_cons_of_ne hd,
          List.count_nil, Nat.zero_add]
      · cases hfields : Text.fields separator rest with
        | nil => exact absurd hfields (Text.fields_ne_nil separator rest)
        | cons first others =>
            rw [hfields, List.map_cons, List.sum_cons] at ih
            simp only [List.map_cons, List.sum_cons, List.count_cons, ← ih]
            omega

theorem totalSlashes_namesInBrackets (text : String) :
    totalSlashes (namesInBrackets text) = slashes text := by
  rw [namesInBrackets, totalSlashes_trimmed, sum_count_fields (by decide), slashes]
  split
  · next hbrackets =>
    simp only [Bool.and_eq_true, beginsWith, endsWith, List.isPrefixOf_iff_prefix,
      List.isSuffixOf_iff_suffix] at hbrackets
    obtain ⟨⟨rest, hopening⟩, inside, hclosing⟩ := hbrackets
    rw [← hclosing] at hopening ⊢
    cases inside with
    | nil => simp at hopening
    | cons first inside =>
        obtain rfl : '<' = first := List.head_eq_of_cons_eq hopening
        simp
  · rfl

variable {c : Comment} {bytes : Bytes} {n n' : SyntaxNode} {nodes nodes' : List SyntaxNode}
  {node? node?' : Option SyntaxNode}

namespace Comment

theorem totalSlashes_map_text (hfits : c.Fits bytes) (h : List.Forall₂ c.Becomes nodes nodes') :
    totalSlashes (nodes'.map (·.text (c.insert bytes))) =
      totalSlashes (nodes.map (·.text bytes)) + nodes.countP c.isIn * c.bytes.count 0x2F := by
  induction h with
  | nil => simp [totalSlashes]
  | cons hfirst _ ih =>
      rw [List.countP_cons]
      simp only [totalSlashes, List.map_cons, List.sum_cons, hfirst.text_eq hfits,
        c.slashes_textWith] at ih ⊢
      rw [ih, Nat.add_mul]
      split <;> omega

theorem slashes_text (c : Comment) : slashes c.text = c.bytes.count 0x2F := by
  rw [text, slashes_trim, slashes_decodeLossy]

theorem isBeside_of_countP (h : nodes.countP c.isIn = 0) : c.isBeside nodes = true :=
  isBeside_iff.mpr fun n hn => eq_false_of_ne_true (List.countP_eq_zero.mp h n hn)

/-- The comment is in a child of a node, or beside the node, or it becomes a child. -/
theorem Becomes.cases_children (h : c.Becomes n n') :
    (c.isAmong n = false ∧ (c.isIn n = true → n.children.countP c.isIn = 1) ∧
        List.Forall₂ c.Becomes n.children n'.children) ∨
      c.isAmong n = true ∧ ∃ before node after before' after',
        n.children = before ++ after ∧ n'.children = before' ++ node :: after' ∧
          (∀ child ∈ before, child.start < c.place) ∧ (∀ child ∈ after, c.place ≤ child.start) ∧
          c.isNode node = true ∧ List.Forall₂ c.Becomes before before' ∧
            List.Forall₂ c.Becomes after after' := by
  cases h with
  | keeps _ hone hchildren =>
      refine .inl ⟨Bool.eq_false_iff.mpr fun hamong => ?_, hone, hchildren⟩
      rw [isAmong, Bool.and_eq_true] at hamong
      have hcount := hone hamong.1
      rw [List.countP_eq_zero.mpr fun x hx => by rw [isBeside_iff.mp hamong.2 x hx]; simp] at hcount
      cases hcount
  | @gains _ _ node before after before' after' _
      hin hold hnew hfront hbehind hnode hbefore hafter =>
      refine .inr ⟨?_, before, node, after, before', after', hold, hnew,
        fun child hchild => (hfront child hchild).1, hbehind, hnode, hbefore, hafter⟩
      rw [isAmong, hin, Bool.true_and, isBeside_iff, hold]
      refine List.forall_mem_append.mpr ⟨fun x hx => ?_, fun x hx => ?_⟩
      · have hstop := (hfront x hx).2
        rw [isIn_eq_false_iff]
        omega
      · have hstart := hbehind x hx
        rw [isIn_eq_false_iff]
        omega

theorem Moves.isBeside_children (h : c.Moves n n') (hin : c.isIn n = false) :
    c.isBeside n.children = true := by
  refine isBeside_iff.mpr fun child hchild => Bool.eq_false_iff.mpr fun hinside => ?_
  rw [isIn_of_isNested (h.nested child hchild) hinside] at hin
  cases hin

theorem isBeside_children (h : c.isAmong n = true) : c.isBeside n.children = true :=
  (Bool.and_eq_true_iff.mp h).2

theorem isBeside_of_subset {others : List SyntaxNode} (h : c.isBeside nodes = true)
    (hsubset : others ⊆ nodes) : c.isBeside others = true :=
  isBeside_iff.mpr fun n hn => isBeside_iff.mp h n (hsubset hn)

theorem map_text_toList_eq_iff (hfits : c.Fits bytes) (h : Option.Rel c.Becomes node? node?') :
    node?'.map (·.text (c.insert bytes)) = node?.map (·.text bytes) ↔
      c.isBeside node?.toList = true := by
  cases h with
  | none => simp [isBeside]
  | some hnode =>
      rw [Option.map_some, Option.map_some, Option.some_inj, hnode.text_eq hfits,
        textWith_eq_iff hfits]
      simp [isBeside]

/-! ### Names -/

def nameNodes (n : SyntaxNode) : List SyntaxNode := (n.field? "name").toList

theorem isEmpty_rawText (hfits : c.Fits bytes) (hin : c.isIn n = true) :
    (n.rawText bytes).isEmpty = false := by
  obtain ⟨hstart, hstop⟩ := isIn_eq_true_iff.mp hin
  have hplace := hfits.place
  have hslice : slice bytes n.start n.stop ≠ [] := by
    rw [slice, Ne, ← List.length_eq_zero_iff, List.length_take, List.length_drop]
    omega
  rw [Bool.eq_false_iff, Ne, String.isEmpty_iff, ← String.toList_eq_nil_iff]
  exact Utf8.decodeLossy_ne_nil hslice

theorem isEmpty_rawTextWith (hfits : c.Fits bytes) (n : SyntaxNode) :
    (c.rawTextWith bytes n).isEmpty = (n.rawText bytes).isEmpty := by
  cases hin : c.isIn n with
  | false => rw [(rawTextWith_eq_iff hfits).mpr hin]
  | true =>
      rw [isEmpty_rawText hfits hin, Bool.eq_false_iff, Ne, String.isEmpty_iff]
      intro hempty
      have hslashes := c.slashes_rawTextWith bytes n
      have hpos := hfits.block.slashes_pos
      have hnone : slashes "" = 0 := rfl
      rw [hempty, hin, if_pos rfl, hnone] at hslashes
      omega

theorem Becomes.isSome_nameOf? (hfits : c.Fits bytes) (h : c.Becomes n n') :
    (nameOf? (c.insert bytes) n').isSome = (nameOf? bytes n).isSome := by
  have hname := h.field? hfits.length_pos "name"
  rw [nameOf?, nameOf?]
  generalize n.field? "name" = o, n'.field? "name" = o' at hname
  cases hname with
  | none => rfl
  | some hm =>
      simp only [Option.map_some, Option.filter_some, hm.rawText_eq hfits,
        isEmpty_rawTextWith hfits]
      split <;> rfl

/-- A name stays what it is if the comment is not put into it. -/
theorem Becomes.nameOf?_eq_iff (hfits : c.Fits bytes) (h : c.Becomes n n') :
    nameOf? (c.insert bytes) n' = nameOf? bytes n ↔ c.isBeside (nameNodes n) = true := by
  have hname := h.field? hfits.length_pos "name"
  rw [nameOf?, nameOf?, nameNodes]
  generalize n.field? "name" = o, n'.field? "name" = o' at hname
  cases hname with
  | none => exact iff_of_true rfl rfl
  | @some m m' hm =>
      simp only [Option.map_some, Option.filter_some, hm.rawText_eq hfits,
        isEmpty_rawTextWith hfits, Option.toList_some, isBeside, List.all_cons, List.all_nil,
        Bool.and_true, Bool.not_eq_true']
      cases hempty : (m.rawText bytes).isEmpty with
      | true =>
          refine iff_of_true rfl (Bool.eq_false_iff.mpr fun hin => ?_)
          rw [isEmpty_rawText hfits hin] at hempty
          cases hempty
      | false =>
          rw [if_pos rfl, if_pos rfl, Option.some_inj]
          exact rawTextWith_eq_iff hfits

/-! ### Modifiers, attributes and return types -/

def modifierNodes (n : SyntaxNode) : List SyntaxNode := n.children.filter (·.kind == "modifier")

def attributeNodes (n : SyntaxNode) : List SyntaxNode :=
  (n.children.filter (·.kind == "attribute_list")).flatMap fun list =>
    list.namedChildren.filter (·.kind == "attribute")

theorem modifiersOf_eq_iff (hfits : c.Fits bytes) (h : c.Becomes n n') :
    modifiersOf (c.insert bytes) n' = modifiersOf bytes n ↔
      c.isBeside (modifierNodes n) = true :=
  map_text_eq_iff hfits (h.filter_kind hfits.length_pos (by decide))

theorem Becomes.attributeNodes (hpos : 0 < c.bytes.length) (h : c.Becomes n n') :
    List.Forall₂ c.Becomes (attributeNodes n) (attributeNodes n') := by
  refine List.rel_flatMap (h.filter_kind hpos (by decide)) fun list list' hlist => ?_
  rw [SyntaxNode.namedChildren, SyntaxNode.namedChildren, List.filter_filter, List.filter_filter]
  refine (hlist.alike hpos).filter (fun m hm => ?_) fun m m' hm => ?_
  · rw [kind_of_isNode hm]
    rfl
  · rw [hm.kind_eq, hm.moves.isNamed_eq]

theorem attributesOf_eq_iff (hfits : c.Fits bytes) (h : c.Becomes n n') :
    attributesOf (c.insert bytes) n' = attributesOf bytes n ↔
      c.isBeside (Comment.attributeNodes n) = true := by
  have hnodes : ∀ (bytes : Bytes) (n : SyntaxNode), attributesOf bytes n =
      (Comment.attributeNodes n).map fun m => "[" ++ m.text bytes ++ "]" := by
    intro bytes n
    rw [attributesOf, Comment.attributeNodes, List.map_flatMap]
  rw [hnodes, hnodes, isBeside_iff]
  refine map_eq_iff_of_forall₂ (h.attributeNodes hfits.length_pos) fun m m' hm => ?_
  rw [String.append_left_inj, String.append_right_inj, hm.text_eq hfits, textWith_eq_iff hfits]

theorem Becomes.or {other? other?' : Option SyntaxNode} (h : Option.Rel c.Becomes node? node?')
    (hother : Option.Rel c.Becomes other? other?') :
    Option.Rel c.Becomes (node?.or other?) (node?'.or other?') := by
  cases h with
  | none => exact hother
  | some hnode => exact .some hnode

theorem returnType?_eq_iff (hfits : c.Fits bytes) (h : c.Becomes n n') :
    (Reading.returnType? n').map (·.text (c.insert bytes)) =
        (Reading.returnType? n).map (·.text bytes) ↔
      c.isBeside (Reading.returnType? n).toList = true :=
  map_text_toList_eq_iff hfits
    (Becomes.or (h.field? hfits.length_pos "returns") (h.field? hfits.length_pos "type"))

/-! ### Base lists -/

/-- Whether the comment is put neither between the names of a base list nor into one. -/
def sparesBases (c : Comment) (n : SyntaxNode) : Bool :=
  (n.child? "base_list").all fun list => !c.isAmong list && c.isBeside list.namedChildren

theorem forall₂_named (h : List.Forall₂ c.Becomes nodes nodes') :
    List.Forall₂ c.Becomes (nodes.filter (·.info.isNamed)) (nodes'.filter (·.info.isNamed)) :=
  List.rel_filter (fun _ _ hm => by simp only [hm.moves.isNamed_eq]) h

theorem totalSlashes_namedChildren (hfits : c.Fits bytes) (h : c.Becomes n n') :
    totalSlashes (n'.namedChildren.map (·.text (c.insert bytes))) =
      totalSlashes (n.namedChildren.map (·.text bytes)) +
        (n.namedChildren.countP c.isIn + (if c.isAmong n then 1 else 0)) * c.bytes.count 0x2F := by
  rcases h.cases_children with ⟨hamong, -, hchildren⟩ |
    ⟨hamong, before, node, after, before', after', hold, hnew, -, -, hnode, hbefore, hafter⟩
  · rw [hamong, if_neg Bool.false_ne_true, Nat.add_zero]
    exact totalSlashes_map_text hfits (forall₂_named hchildren)
  · have hbeside := isBeside_children hamong
    have hnone : n.namedChildren.countP c.isIn = 0 := List.countP_eq_zero.mpr fun m hm =>
      Bool.eq_false_iff.mp (isBeside_iff.mp hbeside m (List.mem_of_mem_filter hm))
    have hfront := totalSlashes_map_text hfits (forall₂_named hbefore)
    have hback := totalSlashes_map_text hfits (forall₂_named hafter)
    rw [SyntaxNode.namedChildren, hold, List.filter_append, List.countP_append] at hnone
    rw [SyntaxNode.namedChildren, SyntaxNode.namedChildren, hold, hnew, List.filter_append,
      List.filter_append, List.filter_cons, if_pos (isNamed_of_isNode hnode), List.map_append,
      List.map_append, List.map_cons, totalSlashes_append, totalSlashes_append,
      text_of_isNode hfits hnode, List.countP_append, hnone, if_pos hamong, Nat.zero_add,
      Nat.one_mul]
    rw [Nat.eq_zero_of_add_eq_zero_right hnone, Nat.zero_mul] at hfront
    rw [Nat.eq_zero_of_add_eq_zero_left hnone, Nat.zero_mul] at hback
    simp only [totalSlashes, List.map_cons, List.sum_cons, slashes_text] at hfront hback ⊢
    omega

theorem divideBases_basesOf_eq_iff (hfits : c.Fits bytes) (h : c.Becomes n n') :
    divideBases (basesOf (c.insert bytes) n') = divideBases (basesOf bytes n) ↔
      c.sparesBases n = true := by
  have hlist := h.child? hfits.length_pos "base_list" (by decide)
  rw [basesOf, basesOf, sparesBases]
  generalize n.child? "base_list" = o, n'.child? "base_list" = o' at hlist
  cases hlist with
  | none => exact iff_of_true rfl rfl
  | @some list list' hm =>
      dsimp only [Option.all_some]
      rw [Bool.and_eq_true, Bool.not_eq_true']
      constructor
      · intro hsame
        have hpos := hfits.block.slashes_pos
        have htotal := totalSlashes_namedChildren hfits hm
        rw [← totalSlashes_filter, ← totalSlashes_divideBases, hsame, totalSlashes_divideBases,
          totalSlashes_filter] at htotal
        have hnone : list.namedChildren.countP c.isIn + (if c.isAmong list then 1 else 0) = 0 := by
          rcases Nat.eq_zero_or_pos (list.namedChildren.countP c.isIn +
            (if c.isAmong list then 1 else 0)) with hzero | hsome
          · exact hzero
          · have := Nat.mul_pos hsome hpos
            omega
        refine ⟨Bool.eq_false_iff.mpr fun hamong => ?_, isBeside_of_countP (by omega)⟩
        rw [hamong, if_pos rfl] at hnone
        cases hnone
      · rintro ⟨hamong, hbeside⟩
        rcases hm.cases_children with ⟨-, -, hchildren⟩ | ⟨hin, -⟩
        · exact congrArg (fun texts => divideBases (texts.filter (!·.isEmpty)))
            ((map_text_eq_iff hfits (forall₂_named hchildren)).mpr hbeside)
        · rw [hin] at hamong
          cases hamong

/-! ### Type parameters -/

theorem typeParameterNames_eq_iff (hfits : c.Fits bytes) (h : Option.Rel c.Becomes node? node?') :
    typeParameterNames (c.insert bytes) node?' = typeParameterNames bytes node? ↔
      c.isBeside node?.toList = true := by
  cases h with
  | none => exact iff_of_true rfl rfl
  | @some list list' hlist =>
      have htext := hlist.text_eq hfits
      rw [Option.toList_some, isBeside, List.all_cons, List.all_nil, Bool.and_true,
        Bool.not_eq_true', ← textWith_eq_iff hfits, ← htext]
      constructor
      · intro hsame
        have htotal := congrArg totalSlashes hsame
        rw [typeParameterNames, typeParameterNames, totalSlashes_namesInBrackets,
          totalSlashes_namesInBrackets, htext, slashes_textWith] at htotal
        have hpos := hfits.block.slashes_pos
        rw [htext, textWith_eq_iff hfits]
        cases hin : c.isIn list with
        | false => rfl
        | true =>
            rw [hin, if_pos rfl] at htotal
            omega
      · intro hsame
        rw [typeParameterNames, typeParameterNames, hsame]

end Comment

end RouteLinks.Source
