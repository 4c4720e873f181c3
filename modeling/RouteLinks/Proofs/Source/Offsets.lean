import Mathlib.Data.List.Pairwise
import RouteLinks.Proofs.Source.Reading
import RouteLinks.Proofs.Text.Fields
import RouteLinks.Proofs.Text.Utf8
/-!
# Offsets that are read

A class is read with the offset of its keyword and a method with that of its return type. What a
grammar has to promise for this to hit the tokens is that ranges are nested and in order and that
nodes cover their tokens; the bytes need not be text. No two declarations have the same offset: of
two nodes either one ends before the other begins, or one is inside of the other, and what is read
inside of a declaration is in the body of a class, apart from the keyword.
-/

namespace RouteLinks

/-- The offset in front of which a declaration is edited. -/
def SourceUnit.editAt? (u : SourceUnit) : Option Nat :=
  match u.head with
  | .ofClass head => head.keywordAt
  | .ofMethod head => head.returnTypeAt
  | .ofConstructor _ => none

/-- A declaration has the offset of its keyword or its return type. -/
structure SourceUnit.IsAt (bytes : Bytes) (u : SourceUnit) : Prop where
  keyword : ∀ head offset, u.head = .ofClass head → head.keywordAt = some offset →
    u.startByte ≤ offset ∧ Utf8.encode "class" <+: bytes.drop offset
  returnType : ∀ head offset, u.head = .ofMethod head → head.returnTypeAt = some offset →
    u.startByte ≤ offset ∧ ∃ type, head.returnType = some type ∧
      type.toList <+: (Utf8.decodeLossy (bytes.drop offset)).toList

/-- The declarations of a source have the offsets of their tokens, all of them different. -/
structure HitTokens (bytes : Bytes) (units : List SourceUnit) : Prop where
  isAt : ∀ u ∈ units, u.IsAt bytes
  within : ∀ u ∈ units, ∀ offset, u.editAt? = some offset → offset < bytes.length
  distinct : (units.filterMap SourceUnit.editAt?).Nodup

namespace SyntaxNode

/-- A node begins with a token, and no character is cut where it ends. -/
structure IsWhole (bytes : Bytes) (n : SyntaxNode) : Prop where
  begins : ∀ c ∈ (n.rawText bytes).toList.head?, Text.isBlank c = false
  ends : Utf8.IsCut (slice bytes n.start n.stop) (bytes.drop n.stop)

theorem IsWhole.startsWith {bytes : Bytes} {n : SyntaxNode} (h : n.IsWhole bytes) :
    (n.text bytes).toList <+: (Utf8.decodeLossy (bytes.drop n.start)).toList := by
  have htext : (n.text bytes).toList <+: (n.rawText bytes).toList := by
    obtain ⟨blanks, hraw, -⟩ := Text.exists_eq_trimEnd_append (n.rawText bytes).toList
    have hstart : Text.trimStart (n.rawText bytes).toList = (n.rawText bytes).toList := by
      cases hchars : (n.rawText bytes).toList with
      | nil => rfl
      | cons c rest =>
          have hc := h.begins c (by rw [hchars]; rfl)
          exact List.dropWhile_cons_of_neg (by simp [hc])
    refine ⟨blanks, ?_⟩
    rw [text, trim, onChars, String.toList_ofList, Text.trim, hstart]
    exact hraw.symm
  refine htext.trans ?_
  rw [rawText, sliceText]
  rcases le_or_gt n.start n.stop with horder | hempty
  · have hsplit : bytes.drop n.start = slice bytes n.start n.stop ++ bytes.drop n.stop := by
      rw [slice]
      nth_rewrite 1 [← List.take_append_drop (n.stop - n.start) (bytes.drop n.start)]
      rw [List.drop_drop, Nat.add_sub_cancel' horder]
    rw [hsplit, h.ends.decodeLossy_append]
    exact List.prefix_append _ _
  · rw [slice, Nat.sub_eq_zero_of_le hempty.le, List.take_zero]
    exact List.nil_prefix

instance (bytes : Bytes) (n : SyntaxNode) : Decidable (n.IsWhole bytes) :=
  decidable_of_iff
    ((n.rawText bytes).toList.head?.all (!Text.isBlank ·) = true ∧
      Utf8.IsCut (slice bytes n.start n.stop) (bytes.drop n.stop))
    ⟨fun h => ⟨by simpa [Option.all_eq_true] using h.1, h.2⟩,
      fun h => ⟨by simpa [Option.all_eq_true] using h.begins, h.ends⟩⟩

def isReturnType (n : SyntaxNode) : Bool :=
  n.info.field == some "returns" || n.info.field == some "type"

/-- The ranges of a tree are nested and in order, and nodes cover their tokens. The return type of a
method stands before its name; it may be missing, and then covers nothing. -/
structure Covers (root : SyntaxNode) (bytes : Bytes) : Prop where
  within : root.stop ≤ bytes.length
  nested : ∀ o ∈ root.occurrences, ∀ child ∈ o.node.children, o.node.IsNested child
  ordered : ∀ o ∈ root.occurrences, o.node.children.Pairwise (·.stop ≤ ·.start)
  keyword : ∀ o ∈ root.occurrences, o.node.kind = "class" →
    slice bytes o.node.start o.node.stop = Utf8.encode "class"
  returnType : ∀ o ∈ root.occurrences, o.node.kind = "method_declaration" →
    ∀ type ∈ o.node.children, type.isReturnType = true → type.IsWhole bytes
  beforeName : ∀ o ∈ root.occurrences, o.node.kind = "method_declaration" →
    ∀ type ∈ o.node.children, type.isReturnType = true →
      ∀ name ∈ o.node.children, name.info.field = some "name" → type.stop ≤ name.start

variable {root n m : SyntaxNode} {bytes : Bytes} {way : List Enclosure}

theorem IsNested.trans {outer : SyntaxNode} (h : outer.IsNested m) (h' : m.IsNested n) :
    outer.IsNested n :=
  ⟨h.front.trans h'.front, h'.order, h'.back.trans h.back⟩

namespace Covers

variable (h : root.Covers bytes)

include h

theorem isNested (hway : Leads way root n) {child : SyntaxNode} (hchild : child ∈ n.children) :
    n.IsNested child :=
  h.nested ⟨way, n⟩ (mem_occurrences_iff.mpr hway) child hchild

theorem isNested_of_leads {way' : List Enclosure} (hway : Leads way root m)
    (hway' : Leads way' m n) (hne : way' ≠ []) : m.IsNested n := by
  induction hway' generalizing way with
  | here => exact absurd rfl hne
  | @inside e rest inner child n hchildren hinner ih =>
      have hchild : e.parent.IsNested child :=
        h.isNested hway (hchildren ▸ List.mem_append_right _ List.mem_cons_self)
      rcases eq_or_ne inner [] with rfl | hdeeper
      · cases hinner
        exact hchild
      · exact hchild.trans (ih (hway.concat hchildren) hdeeper)

theorem keyword_child (hway : Leads way root n) {child : SyntaxNode} (hchild : child ∈ n.children)
    (hkind : child.kind = "class") :
    slice bytes child.start child.stop = Utf8.encode "class" := by
  obtain ⟨before, after, hchildren⟩ := List.append_of_mem hchild
  exact h.keyword ⟨way ++ [⟨n, before⟩], child⟩
    (mem_occurrences_iff.mpr (hway.concat hchildren)) hkind

theorem stop_le (hway : Leads way root n) : n.stop ≤ bytes.length := by
  rcases eq_or_ne way [] with rfl | hne
  · cases hway
    exact h.within
  · exact (h.isNested_of_leads (.here root) hway hne).back.trans h.within

end Covers

/-- Of two nodes the first ends before the second begins, or has the second inside. -/
def ComesBefore (o o' : Occurrence) : Prop :=
  o.node.stop ≤ o'.node.start ∨ ∃ e way, e.parent = o.node ∧ o'.around = o.around ++ e :: way ∧
    Leads (e :: way) o.node o'.node

mutual

theorem Covers.pairwise_occurrencesFrom (h : root.Covers bytes) : ∀ (n : SyntaxNode)
    {around : List Enclosure}, Leads around root n → (occurrencesFrom around n).Pairwise ComesBefore
  | .mk info children, around, hway => by
      rw [occurrencesFrom]
      refine List.pairwise_cons.mpr ⟨fun o ho => .inr ?_, ?_⟩
      · obtain ⟨before, child, after, hchildren, way, haround, hleads⟩ :=
          (mem_occurrencesAmong_iff around _ [] children).mp ho
        exact ⟨⟨.mk info children, before⟩, way, rfl, haround, .inside hchildren hleads⟩
      · exact h.pairwise_occurrencesAmong children hway rfl

theorem Covers.pairwise_occurrencesAmong (h : root.Covers bytes) : ∀ (nodes : List SyntaxNode)
    {around : List Enclosure} {parent : SyntaxNode} {front : List SyntaxNode},
    Leads around root parent → parent.children = front ++ nodes →
    (occurrencesAmong around parent front nodes).Pairwise ComesBefore
  | [], _, _, _, _, _ => by simp [occurrencesAmong]
  | n :: rest, around, parent, front, hway, hchildren => by
      have hn : Leads (around ++ [⟨parent, front⟩]) root n := hway.concat hchildren
      have hrest : parent.children = (front ++ [n]) ++ rest := by simp [hchildren]
      rw [occurrencesAmong]
      refine List.pairwise_append.mpr ⟨h.pairwise_occurrencesFrom n hn,
        h.pairwise_occurrencesAmong rest hway hrest, fun o ho o' ho' => .inl ?_⟩
      obtain ⟨way, -, hleads⟩ := (mem_occurrencesFrom_iff _ n).mp ho
      obtain ⟨before, child, after, rfl, way', -, hleads'⟩ :=
        (mem_occurrencesAmong_iff around parent _ rest).mp ho'
      have hstop : o.node.stop ≤ n.stop := by
        rcases eq_or_ne way [] with rfl | hne
        · cases hleads
          exact le_rfl
        · exact (h.isNested_of_leads hn hleads hne).back
      have hsplit : parent.children = (front ++ n :: before) ++ child :: after := by
        simp [hchildren]
      have hchild : Leads (around ++ [⟨parent, front ++ n :: before⟩]) root child :=
        hway.concat hsplit
      have hstart : child.start ≤ o'.node.start := by
        rcases eq_or_ne way' [] with rfl | hne
        · cases hleads'
          exact le_rfl
        · exact (h.isNested_of_leads hchild hleads' hne).front
      have hordered := h.ordered ⟨around, parent⟩ (mem_occurrences_iff.mpr hway)
      rw [hchildren, List.pairwise_append] at hordered
      have hbetween := List.rel_of_pairwise_cons hordered.2.1
        (List.mem_append_right before List.mem_cons_self)
      exact (hstop.trans hbetween).trans hstart

end

/-- Two children of a node have no byte in common. -/
theorem Covers.disjoint (h : root.Covers bytes) (hway : Leads way root n) {a b : SyntaxNode}
    (ha : a ∈ n.children) (hb : b ∈ n.children) (hne : a ≠ b) :
    a.stop ≤ b.start ∨ b.stop ≤ a.start := by
  have hordered := h.ordered ⟨way, n⟩ (mem_occurrences_iff.mpr hway)
  have : Std.Symm fun a b : SyntaxNode => a.stop ≤ b.start ∨ b.stop ≤ a.start :=
    ⟨fun _ _ => Or.symm⟩
  have heither : n.children.Pairwise fun a b => a.stop ≤ b.start ∨ b.stop ≤ a.start :=
    hordered.imp Or.inl
  exact heither.forall ha hb hne

end SyntaxNode

namespace Source

open SyntaxNode

variable {r : Reading} {s : Spot} {root n : SyntaxNode} {u : SourceUnit}
  {around : List Enclosure} {offset : Nat}

theorem lt_of_slice_eq_class {bytes : Bytes} {start stop : Nat}
    (h : slice bytes start stop = Utf8.encode "class") : start < stop := by
  have hlength := congrArg List.length h
  have hfive : (Utf8.encode "class").length = 5 := by decide
  rw [slice, List.length_take, hfive] at hlength
  omega

theorem mem_of_returnType? {mark : SyntaxNode} (h : Reading.returnType? n = some mark) :
    mark ∈ n.children ∧ mark.isReturnType = true := by
  rcases Option.or_eq_some_iff.mp h with hfirst | ⟨-, hsecond⟩
  · exact ⟨List.mem_of_find?_eq_some hfirst, by
      have := List.find?_some hfirst
      simp_all [isReturnType]⟩
  · exact ⟨List.mem_of_find?_eq_some hsecond, by
      have := List.find?_some hsecond
      simp_all [isReturnType]⟩

theorem exists_of_nameOf? {bytes : Bytes} {name : String} (h : nameOf? bytes n = some name) :
    ∃ child ∈ n.children, child.info.field = some "name" ∧ child.start < child.stop := by
  obtain ⟨hmap, hname⟩ := Option.filter_eq_some_iff.mp h
  obtain ⟨child, hchild, rfl⟩ := Option.map_eq_some_iff.mp hmap
  refine ⟨child, List.mem_of_find?_eq_some hchild, by simpa using List.find?_some hchild, ?_⟩
  by_contra hempty
  have hnil : slice bytes child.start child.stop = [] := by
    rw [slice, Nat.sub_eq_zero_of_le (Nat.le_of_not_lt hempty), List.take_zero]
  rw [rawText, sliceText, hnil] at hname
  exact absurd hname (by decide)

/-- The node in front of which a declaration is edited. -/
structure Marks (n mark : SyntaxNode) : Prop where
  mem : mark ∈ n.children
  kind : n.kind = "class_declaration" ∧ mark.kind = "class" ∨
    n.kind = "method_declaration" ∧ mark.isReturnType = true

/-- A declaration is edited in front of its keyword or its return type, which is in front of its
end. -/
theorem exists_marks (h : root.Covers r.bytes) (hway : Leads around root n)
    (hunit : r.unitAt? s n = some u) (hoffset : u.editAt? = some offset) :
    ∃ mark, Marks n mark ∧ mark.start = offset ∧ n.start ≤ offset ∧ offset < n.stop := by
  rcases Reading.unitAt?_eq_some hunit with
    ⟨hkind, -, name, -, rfl⟩ | ⟨-, ⟨hkind, hmethod⟩ | ⟨-, rfl⟩⟩
  · obtain ⟨mark, hmark, rfl⟩ := Option.map_eq_some_iff.mp (hoffset : (n.child? "class").map _ = _)
    have hmem : mark ∈ n.children := List.mem_of_find?_eq_some hmark
    have hclass : mark.kind = "class" := by simpa using List.find?_some hmark
    have hnested := h.isNested hway hmem
    have hlong := lt_of_slice_eq_class (h.keyword_child hway hmem hclass)
    exact ⟨mark, ⟨hmem, .inl ⟨hkind, hclass⟩⟩, rfl, hnested.front, hlong.trans_le hnested.back⟩
  · obtain ⟨name, hname, rfl⟩ := Option.map_eq_some_iff.mp hmethod
    obtain ⟨mark, hmark, rfl⟩ :=
      Option.map_eq_some_iff.mp (hoffset : (Reading.returnType? n).map _ = _)
    obtain ⟨hmem, htype⟩ := mem_of_returnType? hmark
    obtain ⟨child, hchild, hfield, hlong⟩ := exists_of_nameOf? hname
    have hfirst := h.beforeName ⟨around, n⟩ (mem_occurrences_iff.mpr hway) hkind mark hmem htype
      child hchild hfield
    have hnested := h.isNested hway hmem
    have horder := hnested.order
    have hback := (h.isNested hway hchild).back
    exact ⟨mark, ⟨hmem, .inr ⟨hkind, htype⟩⟩, rfl, hnested.front, by omega⟩
  · cases hoffset

/-- Whoever goes into a declaration that is read goes into a class. -/
theorem isClass_of_entered {e : Enclosure} {inner : Spot} (hne : around ≠ [])
    (hs : Spot.of? r.bytes around = some s) (hunit : r.unitAt? s n = some u)
    (hparent : e.parent = n) (hinner : Spot.of? r.bytes (around ++ [e]) = some inner) :
    n.kind = "class_declaration" ∧ inner.level = .parts := by
  rcases Reading.unitAt?_eq_some hunit with ⟨hkind, hlevel, name, hname, -⟩ | ⟨hlevel, hmember⟩
  · obtain ⟨parent, before⟩ := e
    obtain rfl : parent = n := hparent
    rw [Spot.of?_inside hne hs hlevel hkind (by rw [hname]; rfl),
      Option.ite_none_right_eq_some] at hinner
    exact ⟨hkind, Option.some.inj hinner.2 ▸ rfl⟩
  · rw [Spot.of?_concat _ hne, hs, Option.bind_some, Spot.enter?, hlevel] at hinner
    have hkind := (Spot.inside?_eq_some hinner).1
    rw [hparent] at hkind
    rcases hmember with ⟨hother, -⟩ | ⟨hother, -⟩
    · exact absurd (hother.symm.trans hkind) (by decide)
    · exact absurd (hother.symm.trans hkind) (by decide)

theorem exists_body_of_inside {e : Enclosure} {way : List Enclosure} {t : Spot} {v : SourceUnit}
    {m : SyntaxNode} (hne : around ≠ []) (hs : Spot.of? r.bytes around = some s)
    (hunit : r.unitAt? s n = some u) (hparent : e.parent = n)
    (ht : Spot.of? r.bytes (around ++ e :: way) = some t) (hinner : r.unitAt? t m = some v)
    (hway : Leads (e :: way) n m) :
    n.kind = "class_declaration" ∧ ∃ body ∈ n.children, body.kind = "declaration_list" ∧
      ∃ way', way' ≠ [] ∧ Leads way' body m := by
  rw [List.append_cons] at ht
  obtain ⟨inner, hinto⟩ := Spot.exists_of?_of_append (by simp) ht
  obtain ⟨hkind, hparts⟩ := isClass_of_entered hne hs hunit hparent hinto
  refine ⟨hkind, ?_⟩
  cases hway with
  | @inside _ rest way body _ hchildren hway =>
  cases hway with
  | here =>
      rw [List.append_nil] at ht
      obtain rfl : inner = t := Option.some.inj (hinto.symm.trans ht)
      rcases Reading.unitAt?_eq_some hinner with ⟨-, hlevel, -⟩ | ⟨hlevel, -⟩
      · exact absurd hparts hlevel
      · cases hparts.symm.trans hlevel
  | @inside e' rest' way' child _ hchildren' hway' =>
      rw [List.append_cons] at ht
      obtain ⟨spot, hspot⟩ := Spot.exists_of?_of_append (by simp) ht
      rw [Spot.of?_concat _ (by simp), hinto, Option.bind_some, Spot.enter?, hparts,
        Option.ite_none_right_eq_some] at hspot
      exact ⟨e'.parent, hparent ▸ hchildren ▸ List.mem_append_right _ List.mem_cons_self,
        by simpa using hspot.1, _, List.cons_ne_nil _ _, .inside hchildren' hway'⟩

theorem isAt_of_unitAt? (h : root.Covers r.bytes) (hway : Leads around root n)
    (hunit : r.unitAt? s n = some u) : u.IsAt r.bytes := by
  have hplace : ∀ offset, u.editAt? = some offset → u.startByte ≤ offset := by
    intro offset hoffset
    obtain ⟨mark, -, -, hstart, -⟩ := exists_marks h hway hunit hoffset
    obtain ⟨head, name, signature, rfl, -⟩ := Reading.exists_unit_eq hunit
    exact hstart
  constructor
  case keyword =>
    intro head offset hhead hoffset
    refine ⟨hplace offset (by rw [SourceUnit.editAt?, hhead]; exact hoffset), ?_⟩
    rcases Reading.unitAt?_eq_some hunit with ⟨-, -, name, -, rfl⟩ | ⟨-, ⟨-, hmethod⟩ | ⟨-, rfl⟩⟩
    · cases hhead
      obtain ⟨mark, hmark, rfl⟩ := Option.map_eq_some_iff.mp hoffset
      rw [← h.keyword_child hway (List.mem_of_find?_eq_some hmark)
        (by simpa using List.find?_some hmark)]
      exact List.take_prefix _ _
    · obtain ⟨name, -, rfl⟩ := Option.map_eq_some_iff.mp hmethod
      cases hhead
    · cases hhead
  case returnType =>
    intro head offset hhead hoffset
    refine ⟨hplace offset (by rw [SourceUnit.editAt?, hhead]; exact hoffset), ?_⟩
    rcases Reading.unitAt?_eq_some hunit with
      ⟨-, -, name, -, rfl⟩ | ⟨-, ⟨hkind, hmethod⟩ | ⟨-, rfl⟩⟩
    · cases hhead
    · obtain ⟨name, -, rfl⟩ := Option.map_eq_some_iff.mp hmethod
      cases hhead
      obtain ⟨mark, hmark, rfl⟩ := Option.map_eq_some_iff.mp hoffset
      obtain ⟨hmem, htype⟩ := mem_of_returnType? hmark
      refine ⟨_, congrArg (Option.map _) hmark, ?_⟩
      have hwhole := h.returnType ⟨around, n⟩ (mem_occurrences_iff.mpr hway) hkind mark hmem htype
      exact hwhole.startsWith
    · cases hhead

/-- Two declarations at different places have different offsets. -/
theorem ne_of_comesBefore {o o' : Occurrence} {u' : SourceUnit} {offset' : Nat}
    (h : root.Covers r.bytes) (ho : Leads o.around root o.node) (ho' : Leads o'.around root o'.node)
    (hcomes : ComesBefore o o') (hunit : r.unitOf? o = some u) (hunit' : r.unitOf? o' = some u')
    (hoffset : u.editAt? = some offset) (hoffset' : u'.editAt? = some offset') :
    offset ≠ offset' := by
  obtain ⟨s, hs, hu⟩ := Option.bind_eq_some_iff.mp hunit
  obtain ⟨t, ht, hu'⟩ := Option.bind_eq_some_iff.mp hunit'
  obtain ⟨mark, hmarks, hmark, hstart, hstop⟩ := exists_marks h ho hu hoffset
  obtain ⟨-, -, -, hstart', hstop'⟩ := exists_marks h ho' hu' hoffset'
  rcases hcomes with hbefore | ⟨e, way, hparent, haround, hway⟩
  · omega
  have hne : o.around ≠ [] := by
    intro hnil
    rw [hnil] at hs
    cases hs
  rw [haround] at ht
  obtain ⟨hclass, body, hbody, hlist, way', hne', hway'⟩ :=
    exists_body_of_inside hne hs hu hparent ht hu' hway
  have hkeyword : mark.kind = "class" := by
    rcases hmarks.kind with ⟨-, hkeyword⟩ | ⟨hmethod, -⟩
    · exact hkeyword
    · exact absurd (hmethod.symm.trans hclass) (by decide)
  have hdifferent : mark ≠ body := by
    rintro rfl
    exact absurd (hkeyword.symm.trans hlist) (by decide)
  obtain ⟨before, after, hchildren⟩ := List.append_of_mem hbody
  have hnested := h.isNested_of_leads (ho.concat (e := ⟨o.node, before⟩) hchildren) hway' hne'
  have hfront := hnested.front
  have hback := hnested.back
  have hlong := lt_of_slice_eq_class (h.keyword_child ho hmarks.mem hkeyword)
  rcases h.disjoint ho hmarks.mem hbody hdifferent with hdisjoint | hdisjoint
  · omega
  · omega

/-- What is read from a source has the offsets of its tokens, if the tree covers them. -/
theorem hitTokens_read {g : Grammar} {bytes : Bytes} (h : (g bytes).Covers bytes)
    (filePath : String) : HitTokens bytes (read g bytes filePath).units := by
  constructor
  case isAt =>
    intro u hu
    obtain ⟨around, n, s, v, hway, -, hv, rfl⟩ := mem_read_iff.mp hu
    have hv := isAt_of_unitAt? (r := ⟨bytes, filePath⟩) h hway hv
    exact ⟨hv.keyword, hv.returnType⟩
  case within =>
    intro u hu offset hoffset
    obtain ⟨around, n, s, v, hway, -, hv, rfl⟩ := mem_read_iff.mp hu
    obtain ⟨mark, -, -, -, hstop⟩ := exists_marks (r := ⟨bytes, filePath⟩) h hway hv hoffset
    exact hstop.trans_le (h.stop_le hway)
  case distinct =>
    rw [units_read, List.filterMap_map, List.Nodup, List.pairwise_filterMap,
      List.pairwise_filterMap]
    refine (h.pairwise_occurrencesFrom (g bytes) (.here _)).imp_of_mem ?_
    intro o o' ho ho' hcomes u hu u' hu' offset hoffset offset' hoffset'
    exact ne_of_comesBefore (r := ⟨bytes, filePath⟩) h (mem_occurrences_iff.mp ho)
      (mem_occurrences_iff.mp ho') hcomes hu hu' hoffset hoffset'

end Source

end RouteLinks
