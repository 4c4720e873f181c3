import RouteLinks.Proofs.Source.CommentedHeads
/-!
# Parameters with a comment in them

A parameter is read in three places: its modifiers from what stands in front of its type, its
default from what stands behind the sign, and its type. A comment in the type stays there. After the
word `params` whatever is named counts as the type, and so does a comment. So a parameter is the
same up to a comment in its type unless the comment is put in front of the type with a modifying
word in it, into the name or the default, or first behind `params`.
-/

namespace RouteLinks

namespace Source

open SyntaxNode

/-! ### Types -/

/-- Whether a text names no type: there is none, or a comment stands where the type is looked
for. -/
def namesNoType (text : String) : Bool := text.toList.head?.all (· == '/')

namespace Comment

variable {c : Comment} {bytes : Bytes} {n n' : SyntaxNode} {nodes nodes' : List SyntaxNode}

/-- Two types are the same up to a comment. It may be put into the first, or stand where the type
is looked for and there was none. -/
inductive KeepsType (c : Comment) : String → String → Prop where
  | same (type : String) : KeepsType c type type
  | inside (front back : Bytes) : KeepsType c (trim (Utf8.decodeLossy (front ++ back)))
      (trim (Utf8.decodeLossy (front ++ c.bytes ++ back)))
  | noType {type type' : String} (h : namesNoType type = true) (h' : namesNoType type' = true) :
      KeepsType c type type'

theorem Becomes.keepsType (hfits : c.Fits bytes) (h : c.Becomes n n') :
    c.KeepsType (n.text bytes) (n'.text (c.insert bytes)) := by
  rw [h.text_eq hfits, textWith, rawTextWith]
  split
  · next hin =>
    obtain ⟨hstart, hstop⟩ := isIn_eq_true_iff.mp hin
    rw [SyntaxNode.text, SyntaxNode.rawText, sliceText,
      ← slice_append_slice bytes hstart.le hstop.le]
    exact .inside _ _
  · exact .same _

/-! ### Parts of parameters -/

def follows (c : Comment) (n : SyntaxNode) : Bool := n.start < c.place && n.stop ≤ c.place

/-- Whether the comment is not put into the default of a parameter, nor between the sign and it. -/
def sparesDefault (c : Comment) (n : SyntaxNode) : Bool :=
  match (n.field? "default_value").or (n.child? "equals_value_clause") with
  | some clause => !c.isIn clause
  | none => (n.child? "=").all fun equals => !(c.isIn n && c.follows equals)

/-- Whether the comment is put in front of the type of a parameter. -/
def precedesType (c : Comment) (n : SyntaxNode) : Bool :=
  ((parameterType? n).or (parameterName? n)).all (decide <| c.place ≤ ·.start)

/-- The modifying words of some nodes. -/
def wordsOf (bytes : Bytes) (nodes : List SyntaxNode) : List String :=
  (nodes.filter (·.kind != "attribute_list")).flatMap fun child =>
    modifyingWords (child.text bytes)

def wordsWith (c : Comment) (bytes : Bytes) (n : SyntaxNode) : List String :=
  if c.isAmong n then
    wordsOf bytes ((beforeType n).filter (·.start < c.place)) ++
      (if c.precedesType n then modifyingWords c.text else []) ++
        wordsOf bytes ((beforeType n).filter fun child => !decide (child.start < c.place))
  else ((beforeType n).filter (·.kind != "attribute_list")).flatMap fun child =>
    modifyingWords (c.textWith bytes child)

/-- The modifiers of a parameter with some words in front of its type. -/
def modifiersFrom (n : SyntaxNode) (words : List String) : List String :=
  if isRestParameter n && !words.contains "params" then words ++ ["params"] else words

/-- Whether the comment adds no modifying word in front of the type of a parameter. -/
def sparesModifiers (c : Comment) (bytes : Bytes) (n : SyntaxNode) : Bool :=
  modifiersFrom n (c.wordsWith bytes n) == parameterModifiers bytes n

def sparesParameter (c : Comment) (bytes : Bytes) (n : SyntaxNode) : Bool :=
  c.isBeside (parameterName? n).toList && c.sparesDefault n && c.sparesModifiers bytes n

section Parts

variable (hpos : 0 < c.bytes.length) (h : c.Becomes n n')

include h

theorem Becomes.isRestParameter : isRestParameter n' = isRestParameter n := by
  rw [Source.isRestParameter, Source.isRestParameter, h.kind_eq]

include hpos

theorem Becomes.parameterName? :
    Option.Rel c.Becomes (parameterName? n) (parameterName? n') := by
  have hlast : Option.Rel c.Becomes (n.namedChildren.filter (·.kind == "identifier")).getLast?
      (n'.namedChildren.filter (·.kind == "identifier")).getLast? := by
    rw [SyntaxNode.namedChildren, SyntaxNode.namedChildren, List.filter_filter, List.filter_filter]
    refine rel_getLast? ((h.alike hpos).filter (fun m hm => ?_) fun m m' hm => ?_)
    · rw [kind_of_isNode hm]
      rfl
    · rw [hm.kind_eq, hm.moves.isNamed_eq]
  rw [Source.parameterName?, Source.parameterName?, h.isRestParameter]
  refine Becomes.or ?_ (h.field? hpos "name")
  split
  · exact hlast
  · exact .none

theorem Becomes.parameterType? :
    Option.Rel c.Becomes (parameterType? n) (parameterType? n') := by
  have hfirst : Option.Rel c.Becomes
      (n.namedChildren.find? fun child => ["array_type", "nullable_type"].contains child.kind)
      (n'.namedChildren.find?
        fun child => ["array_type", "nullable_type"].contains child.kind) := by
    rw [SyntaxNode.namedChildren, SyntaxNode.namedChildren, List.find?_filter, List.find?_filter]
    refine (h.alike hpos).find? (fun m hm => ?_) fun m m' hm => ?_
    · rw [kind_of_isNode hm]
      simp
    · rw [hm.kind_eq, hm.moves.isNamed_eq]
  rw [Source.parameterType?, Source.parameterType?, h.isRestParameter]
  refine Becomes.or (h.field? hpos "type") ?_
  split
  · exact hfirst
  · exact .none

end Parts

/-! ### Defaults -/

theorem slashes_dropWhile {p : Char → Bool} (hp : p '/' = false) (text : String) :
    slashes (String.ofList (Text.trim (text.toList.dropWhile p))) = slashes text := by
  rw [slashes, String.toList_ofList, Text.count_trim (by decide), Text.count_dropWhile hp, slashes]

theorem slice_stop (hfits : c.Fits bytes) {child child' : SyntaxNode} (h : c.Moves n n')
    (hchild : c.Moves child child') (hnested : n.IsNested child)
    (hspares : (c.isIn n && c.follows child) = false) :
    slice (c.insert bytes) child'.stop n'.stop = slice bytes child.stop n.stop := by
  have hfront := hnested.front
  have horder := hnested.order
  have hback := hnested.back
  rw [Bool.and_eq_false_iff, isIn_eq_false_iff, follows, Bool.and_eq_false_iff,
    decide_eq_false_iff_not, decide_eq_false_iff_not] at hspares
  rw [h.stop_eq, hchild.stop_eq]
  by_cases hbefore : n.start < c.place ∧ n.stop ≤ c.place
  · rw [if_pos hbefore]
    split
    · exact slice_insert_before hfits.place hbefore.2
    · have hempty : ∀ {a b : Nat} (bytes : Bytes), b ≤ a → slice bytes a b = [] := by
        intro a b bytes hle
        rw [slice, Nat.sub_eq_zero_of_le hle, List.take_zero]
      rw [hempty _ (by omega), hempty _ (by omega)]
  · rw [if_neg hbefore, if_neg (by omega)]
    exact slice_insert_behind hfits.place (by omega)

/-- A default that is a node of its own stays as it is unless the comment is put into the node: it
has the slashes of the comment then. -/
theorem text_dropWhile_eq_iff (hfits : c.Fits bytes) (h : c.Becomes n n') :
    String.ofList (Text.trim ((n'.text (c.insert bytes)).toList.dropWhile (· == '='))) =
        String.ofList (Text.trim ((n.text bytes).toList.dropWhile (· == '='))) ↔
      c.isIn n = false := by
  have hpos := hfits.block.slashes_pos
  rw [h.text_eq hfits]
  constructor
  · intro hsame
    have hslashes := congrArg slashes hsame
    rw [slashes_dropWhile (by decide), slashes_dropWhile (by decide), slashes_textWith] at hslashes
    cases hin : c.isIn n with
    | false => rfl
    | true =>
        rw [hin, if_pos rfl] at hslashes
        omega
  · intro hin
    rw [(textWith_eq_iff hfits).mpr hin]

/-- What stands behind the sign stays as it is unless the comment is put there. -/
theorem trim_sliceText_eq_iff (hfits : c.Fits bytes) {sign sign' : SyntaxNode}
    (h : c.Moves n n') (hsign : c.Moves sign sign') (hnested : n.IsNested sign) :
    trim (sliceText (c.insert bytes) sign'.stop n'.stop) =
        trim (sliceText bytes sign.stop n.stop) ↔
      (c.isIn n && c.follows sign) = false := by
  have hpos := hfits.block.slashes_pos
  constructor
  · intro hsame
    refine Bool.eq_false_iff.mpr fun hbetween => ?_
    rw [Bool.and_eq_true, follows, Bool.and_eq_true, decide_eq_true_eq,
      decide_eq_true_eq] at hbetween
    obtain ⟨hin, hstart, hstop⟩ := hbetween
    obtain ⟨hbefore, hbehind⟩ := isIn_eq_true_iff.mp hin
    have hslashes := congrArg slashes hsame
    rw [slashes_trim, slashes_trim, sliceText, sliceText, slashes_decodeLossy,
      slashes_decodeLossy, hsign.stop_eq, h.stop_eq, if_pos ⟨hstart, hstop⟩,
      if_neg (by omega), slice_insert_across hfits.place hstop hbehind.le,
      ← slice_append_slice bytes hstop hbehind.le, List.count_append, List.count_append,
      List.count_append] at hslashes
    omega
  · intro hspares
    rw [sliceText, sliceText, slice_stop hfits h hsign hnested hspares]

theorem nonempty?_eq_iff {text text' : String} :
    (if text'.isEmpty then none else some text') = (if text.isEmpty then none else some text) ↔
      text' = text := by
  constructor
  · intro hsame
    split at hsame <;> split at hsame
    · next hempty' hempty => rw [String.isEmpty_iff.mp hempty', String.isEmpty_iff.mp hempty]
    · cases hsame
    · cases hsame
    · exact Option.some.inj hsame
  · rintro rfl
    rfl

theorem parameterDefault?_eq_iff (hfits : c.Fits bytes) (h : c.Becomes n n') :
    parameterDefault? (c.insert bytes) n' = parameterDefault? bytes n ↔
      c.sparesDefault n = true := by
  have hclause := Becomes.or (h.field? hfits.length_pos "default_value")
    (h.child? hfits.length_pos "equals_value_clause" (by decide))
  have hequals := h.child? hfits.length_pos "=" (by decide)
  have hmem : ∀ equals, n.child? "=" = some equals → n.IsNested equals := fun equals hfind =>
    h.moves.nested equals (List.mem_of_find?_eq_some hfind)
  rw [parameterDefault?, parameterDefault?, sparesDefault]
  generalize (n.field? "default_value").or (n.child? "equals_value_clause") = clause,
    (n'.field? "default_value").or (n'.child? "equals_value_clause") = clause' at hclause
  cases hclause with
  | some hm =>
      dsimp only
      rw [Option.some_inj, Bool.not_eq_true']
      exact text_dropWhile_eq_iff hfits hm
  | none =>
      dsimp only
      generalize n.child? "=" = equals, n'.child? "=" = equals' at hequals hmem
      cases hequals with
      | none => simp
      | @some sign sign' hsign =>
          simp only [Option.bind_some, Option.all_some, Bool.not_eq_true', nonempty?_eq_iff]
          exact trim_sliceText_eq_iff hfits h.moves hsign.moves (hmem sign rfl)

/-! ### Modifiers -/

theorem start_lt_start {m m' : SyntaxNode} (h : c.Moves n n') (hm : c.Moves m m') :
    n'.start < m'.start ↔ n.start < m.start := by
  rw [h.start_eq, hm.start_eq]
  split <;> split <;> omega

theorem place_lt_start (hpos : 0 < c.bytes.length) (h : c.Moves n n') :
    c.place < n'.start ↔ c.place ≤ n.start := by
  rw [h.start_eq]
  split <;> omega

theorem wordsOf_append (bytes : Bytes) (nodes others : List SyntaxNode) :
    wordsOf bytes (nodes ++ others) = wordsOf bytes nodes ++ wordsOf bytes others := by
  rw [wordsOf, List.filter_append, List.flatMap_append, wordsOf, wordsOf]

theorem wordsOf_eq (hfits : c.Fits bytes) (h : List.Forall₂ c.Becomes nodes nodes') :
    wordsOf (c.insert bytes) nodes' =
      (nodes.filter (·.kind != "attribute_list")).flatMap fun child =>
        modifyingWords (c.textWith bytes child) := by
  have hkept := List.rel_filter (p := (·.kind != "attribute_list"))
    (q := (·.kind != "attribute_list")) (fun m m' hm => by simp only [hm.kind_eq]) h
  refine flatMap_eq_of_forall₂ hkept fun m m' hm => ?_
  rw [hm.text_eq hfits]

theorem wordsOf_eq_of_isBeside (hfits : c.Fits bytes) (h : List.Forall₂ c.Becomes nodes nodes')
    (hbeside : c.isBeside nodes = true) :
    wordsOf (c.insert bytes) nodes' = wordsOf bytes nodes := by
  rw [wordsOf_eq hfits h, wordsOf]
  refine List.flatMap_congr fun m hm => ?_
  rw [(textWith_eq_iff hfits).mpr (isBeside_iff.mp hbeside m (List.mem_of_mem_filter hm))]

theorem takeWhile_append_of_eq_nil {α : Type} {p : α → Bool} (xs : List α) {ys : List α}
    (h : ys.takeWhile p = []) : (xs ++ ys).takeWhile p = xs.takeWhile p := by
  induction xs with
  | nil => exact h
  | cons x rest ih => rw [List.cons_append, List.takeWhile_cons, List.takeWhile_cons, ih]

/-- Nodes around the comment, cut off in front of a node that begins behind it: the comment is among
what is left. -/
theorem takeWhile_place_le {before after before' after' : List SyntaxNode} {node b b' : SyntaxNode}
    (hpos : 0 < c.bytes.length) (hb : c.Becomes b b') (hnode : c.isNode node = true)
    (hfront : ∀ child ∈ before, child.start < c.place)
    (hbefore : List.Forall₂ c.Becomes before before') (hplace : c.place ≤ b.start) :
    (before ++ after).takeWhile (·.start < b.start) =
        before ++ after.takeWhile (·.start < b.start) ∧
      (before' ++ node :: after').takeWhile (·.start < b'.start) =
        before' ++ node :: after'.takeWhile (·.start < b'.start) := by
  have hpass : ∀ child ∈ before, decide (child.start < b.start) = true := fun child hchild =>
    decide_eq_true ((hfront child hchild).trans_le hplace)
  have hpass' : ∀ child ∈ before', decide (child.start < b'.start) = true := by
    intro child' hchild'
    obtain ⟨child, hchild, hrel⟩ := exists_left_of_forall₂ hbefore hchild'
    exact decide_eq_true ((start_lt_start hrel.moves hb.moves).mpr
      (of_decide_eq_true (hpass child hchild)))
  refine ⟨List.takeWhile_append_of_pos hpass, ?_⟩
  rw [List.takeWhile_append_of_pos hpass', List.takeWhile_cons_of_pos]
  rw [start_of_isNode hnode, decide_eq_true_eq]
  exact (place_lt_start hpos hb.moves).mpr hplace

/-- Nodes around the comment, cut off in front of a node that begins before it: neither the comment
nor anything behind it is left. -/
theorem takeWhile_start_lt (before before' after' : List SyntaxNode) {after : List SyntaxNode}
    {node b b' : SyntaxNode} (hpos : 0 < c.bytes.length) (hb : c.Becomes b b')
    (hnode : c.isNode node = true)
    (hbehind : ∀ child ∈ after, c.place ≤ child.start) (hplace : ¬c.place ≤ b.start) :
    (before ++ after).takeWhile (·.start < b.start) = before.takeWhile (·.start < b.start) ∧
      (before' ++ node :: after').takeWhile (·.start < b'.start) =
        before'.takeWhile (·.start < b'.start) := by
  constructor <;> refine takeWhile_append_of_eq_nil _ ?_
  · cases after with
    | nil => rfl
    | cons first rest =>
        have hfirst := hbehind first List.mem_cons_self
        exact List.takeWhile_cons_of_neg (by rw [decide_eq_true_eq]; omega)
  · refine List.takeWhile_cons_of_neg ?_
    rw [start_of_isNode hnode, decide_eq_true_eq]
    exact fun hless => hplace ((place_lt_start hpos hb.moves).mp hless)

/-- What stands in front of the type still does, and the comment among it if it is put there. -/
theorem Becomes.beforeType_cases (hpos : 0 < c.bytes.length) (h : c.Becomes n n') :
    c.isAmong n = false ∧ List.Forall₂ c.Becomes (beforeType n) (beforeType n') ∨
      c.isAmong n = true ∧ ∃ before after before' after', beforeType n = before ++ after ∧
        (∀ child ∈ before, child.start < c.place) ∧ (∀ child ∈ after, c.place ≤ child.start) ∧
        List.Forall₂ c.Becomes before before' ∧ List.Forall₂ c.Becomes after after' ∧
          (c.precedesType n = false ∧ after = [] ∧ beforeType n' = before' ∨
            c.precedesType n = true ∧ ∃ node, c.isNode node = true ∧
              beforeType n' = before' ++ node :: after') := by
  have hboundary := Becomes.or (h.parameterType? hpos) (h.parameterName? hpos)
  have hless : ∀ {b b'}, c.Becomes b b' → ∀ m m', c.Becomes m m' →
      decide (m'.start < b'.start) = decide (m.start < b.start) := fun hb m m' hm =>
    decide_eq_decide.mpr (start_lt_start hm.moves hb.moves)
  rw [Comment.precedesType, beforeType, beforeType]
  generalize (Source.parameterType? n).or (Source.parameterName? n) = boundary,
    (Source.parameterType? n').or (Source.parameterName? n') = boundary' at hboundary
  rcases h.cases_children with ⟨hamong, -, hchildren⟩ |
    ⟨hamong, before, node, after, before', after', hold, hnew, hfront, hbehind, hnode, hbefore,
      hafter⟩
  · refine .inl ⟨hamong, ?_⟩
    cases hboundary with
    | none => exact hchildren
    | some hb => exact rel_takeWhile hchildren (hless hb)
  · refine .inr ⟨hamong, ?_⟩
    cases hboundary with
    | none =>
        exact ⟨before, after, before', after', hold, hfront, hbehind, hbefore, hafter,
          .inr ⟨rfl, node, hnode, hnew⟩⟩
    | @some b b' hb =>
        dsimp only [Option.all_some]
        rw [hold, hnew]
        by_cases hplace : c.place ≤ b.start
        · obtain ⟨hcut, hcut'⟩ := takeWhile_place_le hpos hb hnode hfront hbefore hplace
          exact ⟨before, _, before', _, hcut, hfront,
            fun child hchild => hbehind child ((List.takeWhile_prefix _).subset hchild), hbefore,
            rel_takeWhile hafter (hless hb), .inr ⟨decide_eq_true hplace, node, hnode, hcut'⟩⟩
        · obtain ⟨hcut, hcut'⟩ :=
            takeWhile_start_lt before before' after' hpos hb hnode hbehind hplace
          exact ⟨before.takeWhile (·.start < b.start), [], _, [],
            hcut.trans (List.append_nil _).symm,
            fun child hchild => hfront child ((List.takeWhile_prefix _).subset hchild),
            fun child hchild => (nomatch hchild), rel_takeWhile hbefore (hless hb), .nil,
            .inl ⟨decide_eq_false hplace, rfl, hcut'⟩⟩

theorem filter_start {before after : List SyntaxNode}
    (hfront : ∀ child ∈ before, child.start < c.place)
    (hbehind : ∀ child ∈ after, c.place ≤ child.start) :
    (before ++ after).filter (·.start < c.place) = before ∧
      ((before ++ after).filter fun child => !decide (child.start < c.place)) = after := by
  constructor
  · rw [List.filter_append, List.filter_eq_self.mpr fun m hm => decide_eq_true (hfront m hm),
      List.filter_eq_nil_iff.mpr fun m hm => by simpa using hbehind m hm, List.append_nil]
  · rw [List.filter_append, List.filter_eq_nil_iff.mpr fun m hm => by simpa using hfront m hm,
      List.filter_eq_self.mpr fun m hm => by simpa using hbehind m hm, List.nil_append]

theorem wordsOf_beforeType (hfits : c.Fits bytes) (h : c.Becomes n n') :
    wordsOf (c.insert bytes) (beforeType n') = c.wordsWith bytes n := by
  rcases h.beforeType_cases hfits.length_pos with ⟨hamong, hnodes⟩ |
    ⟨hamong, before, after, before', after', hold, hfront, hbehind, hbefore, hafter, hnew⟩
  · rw [wordsWith, hamong, if_neg Bool.false_ne_true]
    exact wordsOf_eq hfits hnodes
  · have hbeside : c.isBeside (before ++ after) = true := by
      refine isBeside_of_subset (isBeside_children hamong) (hold ▸ ?_)
      rw [beforeType]
      split
      · exact (List.takeWhile_prefix _).subset
      · exact List.Subset.refl _
    rw [isBeside_append, Bool.and_eq_true] at hbeside
    have hbefore := wordsOf_eq_of_isBeside hfits hbefore hbeside.1
    have hafter := wordsOf_eq_of_isBeside hfits hafter hbeside.2
    obtain ⟨hfirst, hlast⟩ := filter_start hfront hbehind
    rw [wordsWith, if_pos hamong, hold, hfirst, hlast]
    rcases hnew with ⟨hprecedes, rfl, hnew⟩ | ⟨hprecedes, node, hnode, hnew⟩
    · rw [hprecedes, if_neg Bool.false_ne_true, hnew, hbefore, List.append_nil]
      exact (List.append_nil _).symm
    · have hcomment : wordsOf (c.insert bytes) (node :: after') =
          modifyingWords c.text ++ wordsOf bytes after := by
        rw [← hafter, wordsOf, List.filter_cons_of_pos (by rw [kind_of_isNode hnode]; rfl),
          List.flatMap_cons, text_of_isNode hfits hnode, wordsOf]
      rw [hprecedes, if_pos rfl, hnew, wordsOf_append, hbefore, hcomment, List.append_assoc]

theorem parameterModifiers_eq (bytes : Bytes) (n : SyntaxNode) :
    parameterModifiers bytes n = modifiersFrom n (wordsOf bytes (beforeType n)) := rfl

theorem parameterModifiers_eq_iff (hfits : c.Fits bytes) (h : c.Becomes n n') :
    parameterModifiers (c.insert bytes) n' = parameterModifiers bytes n ↔
      c.sparesModifiers bytes n = true := by
  have hrest : ∀ words, modifiersFrom n' words = modifiersFrom n words := fun words => by
    rw [modifiersFrom, modifiersFrom, h.isRestParameter]
  rw [parameterModifiers_eq, wordsOf_beforeType hfits h, hrest, sparesModifiers, beq_iff_eq]

/-! ### Parameters -/

/-- A parameter is the same up to a comment in its type. -/
structure KeepsParameter (c : Comment) (p q : Parameter) : Prop where
  type : Option.Rel c.KeepsType p.type q.type
  rest : { q with type := p.type } = p

theorem keepsParameter_iff {p q : Parameter} : c.KeepsParameter p q ↔
    Option.Rel c.KeepsType p.type q.type ∧ q.name = p.name ∧ q.default = p.default ∧
      q.modifiers = p.modifiers := by
  obtain ⟨name, type, default, modifiers⟩ := p
  constructor
  · rintro ⟨htype, hrest⟩
    obtain ⟨hname, -, hdefault, hmodifiers⟩ := Parameter.mk.inj hrest
    exact ⟨htype, hname, hdefault, hmodifiers⟩
  · rintro ⟨htype, rfl, rfl, rfl⟩
    exact ⟨htype, rfl⟩

theorem KeepsParameter.refl (p : Parameter) : c.KeepsParameter p p := by
  refine keepsParameter_iff.mpr ⟨?_, rfl, rfl, rfl⟩
  cases p.type with
  | none => exact .none
  | some type => exact .some (.same type)

theorem keepsParameter_readParameter_iff (hfits : c.Fits bytes) (h : c.Becomes n n') :
    c.KeepsParameter (readParameter bytes n) (readParameter (c.insert bytes) n') ↔
      c.sparesParameter bytes n = true := by
  have htype : Option.Rel c.KeepsType ((parameterType? n).map (·.text bytes))
      ((parameterType? n').map (·.text (c.insert bytes))) := by
    have hnode := h.parameterType? hfits.length_pos
    generalize parameterType? n = o, parameterType? n' = o' at hnode
    cases hnode with
    | none => exact .none
    | some hm => exact .some (hm.keepsType hfits)
  have hname : ((parameterName? n').map (·.text (c.insert bytes))).getD "?" =
      ((parameterName? n).map (·.text bytes)).getD "?" ↔
        c.isBeside (parameterName? n).toList = true := by
    have hnode := h.parameterName? hfits.length_pos
    rw [← map_text_toList_eq_iff hfits hnode]
    generalize parameterName? n = o, parameterName? n' = o' at hnode
    cases hnode with
    | none => simp
    | some hm => simp
  rw [keepsParameter_iff, sparesParameter, Bool.and_eq_true, Bool.and_eq_true, ← hname,
    ← parameterDefault?_eq_iff hfits h, ← parameterModifiers_eq_iff hfits h]
  exact ⟨fun ⟨_, hname, hdefault, hmodifiers⟩ => ⟨⟨hname, hdefault⟩, hmodifiers⟩,
    fun ⟨⟨hname, hdefault⟩, hmodifiers⟩ => ⟨htype, hname, hdefault, hmodifiers⟩⟩

/-! ### Beside a parameter -/

theorem isBeside_toList {o : Option SyntaxNode} (h : c.isBeside nodes = true)
    (hmem : ∀ m, o = some m → m ∈ nodes) : c.isBeside o.toList = true :=
  isBeside_iff.mpr fun m hm => isBeside_iff.mp h m (hmem m (Option.mem_toList.mp hm))

theorem mem_of_field? {name : String} {m : SyntaxNode} (h : n.field? name = some m) :
    m ∈ n.children :=
  List.mem_of_find?_eq_some h

theorem mem_of_parameterName? {m : SyntaxNode} (h : parameterName? n = some m) :
    m ∈ n.children := by
  rw [parameterName?, Option.or_eq_some_iff] at h
  rcases h with h | ⟨-, h⟩
  · split at h
    · exact List.mem_of_mem_filter (List.mem_of_mem_filter (List.mem_of_getLast? h))
    · cases h
  · exact mem_of_field? h

theorem mem_of_parameterType? {m : SyntaxNode} (h : parameterType? n = some m) :
    m ∈ n.children := by
  rw [parameterType?, Option.or_eq_some_iff] at h
  rcases h with h | ⟨-, h⟩
  · exact mem_of_field? h
  · split at h
    · exact List.mem_of_mem_filter (List.mem_of_find?_eq_some h)
    · cases h

theorem sparesParameter_of_isIn (hfits : c.Fits bytes) (h : c.Moves n n') (hin : c.isIn n = false) :
    c.sparesParameter bytes n = true := by
  have hbeside := h.isBeside_children hin
  have hdefault : c.sparesDefault n = true := by
    rw [sparesDefault, hin]
    split
    · next clause hclause =>
      have hmem : clause ∈ n.children := by
        rcases Option.or_eq_some_iff.mp hclause with hfield | ⟨-, hchild⟩
        · exact mem_of_field? hfield
        · exact List.mem_of_find?_eq_some hchild
      rw [isBeside_iff.mp hbeside clause hmem]
      rfl
    · cases n.child? "=" <;> rfl
  have hwords : c.wordsWith bytes n = wordsOf bytes (beforeType n) := by
    rw [wordsWith, isAmong, hin, Bool.false_and, if_neg Bool.false_ne_true, wordsOf]
    refine List.flatMap_congr fun m hm => ?_
    have hmem : m ∈ n.children := by
      have hm := List.mem_of_mem_filter hm
      rw [beforeType] at hm
      split at hm
      · exact (List.takeWhile_prefix _).subset hm
      · exact hm
    rw [(textWith_eq_iff hfits).mpr (isBeside_iff.mp hbeside m hmem)]
  rw [sparesParameter, isBeside_toList hbeside fun m hm => mem_of_parameterName? hm, hdefault,
    sparesModifiers, hwords, parameterModifiers_eq, beq_self_eq_true]
  rfl

theorem readParameter_eq_of_isIn (hfits : c.Fits bytes) (h : c.Becomes n n')
    (hin : c.isIn n = false) : readParameter (c.insert bytes) n' = readParameter bytes n := by
  have hkeeps := (keepsParameter_readParameter_iff hfits h).mpr
    (sparesParameter_of_isIn hfits h.moves hin)
  have htype : (readParameter (c.insert bytes) n').type = (readParameter bytes n).type :=
    (map_text_toList_eq_iff hfits (h.parameterType? hfits.length_pos)).mpr
      (isBeside_toList (h.moves.isBeside_children hin) fun m hm => mem_of_parameterType? hm)
  rw [← hkeeps.rest, ← htype]

/-! ### Lists of parameters -/

/-- What one node of a list adds to the parameters, and the type that is found behind it. -/
def readStep (bytes : Bytes) (rest : Option (Option String)) (n : SyntaxNode) :
    List Parameter × Option (Option String) :=
  match rest with
  | some (some type) =>
    if n.kind == "identifier" then
      ([{ name := n.text bytes, type := some type, modifiers := ["params"] }], none)
    else ([], rest)
  | some none =>
    if n.info.isNamed && n.kind != "attribute_list" then ([], some (some (n.text bytes)))
    else ([], rest)
  | none =>
    if n.kind == "params" then ([], some none)
    else if n.kind == "__arglist" then ([{ name := "__arglist", type := none }], none)
    else if n.kind == "parameter" || n.kind == "parameter_array" then
      ([readParameter bytes n], none)
    else ([], none)

theorem readStep_none (bytes : Bytes) (n : SyntaxNode) : readStep bytes none n =
    if n.kind == "params" then ([], some none)
    else if n.kind == "__arglist" then ([{ name := "__arglist", type := none }], none)
    else if n.kind == "parameter" || n.kind == "parameter_array" then
      ([readParameter bytes n], none)
    else ([], none) := rfl

theorem readParametersFrom_cons (bytes : Bytes) (rest : Option (Option String)) (n : SyntaxNode)
    (more : List SyntaxNode) : readParametersFrom bytes rest (n :: more) =
      (readStep bytes rest n).1 ++ readParametersFrom bytes (readStep bytes rest n).2 more := by
  rcases rest with _ | _ | type
  · rw [readParametersFrom, readStep]
    split
    · rfl
    split
    · rfl
    split <;> rfl
  · rw [readParametersFrom, readStep]
    split <;> rfl
  · rw [readParametersFrom, readStep]
    split <;> rfl

/-- The type that is found behind some nodes of a list. -/
def restBehind (bytes : Bytes) (rest : Option (Option String)) (nodes : List SyntaxNode) :
    Option (Option String) :=
  nodes.foldl (fun rest n => (readStep bytes rest n).2) rest

theorem restBehind_nil (bytes : Bytes) (rest : Option (Option String)) :
    restBehind bytes rest [] = rest := rfl

theorem restBehind_cons (bytes : Bytes) (rest : Option (Option String)) (n : SyntaxNode)
    (more : List SyntaxNode) :
    restBehind bytes rest (n :: more) = restBehind bytes (readStep bytes rest n).2 more := rfl

theorem readParametersFrom_append (bytes : Bytes) (rest : Option (Option String))
    (nodes more : List SyntaxNode) : readParametersFrom bytes rest (nodes ++ more) =
      readParametersFrom bytes rest nodes ++
        readParametersFrom bytes (restBehind bytes rest nodes) more := by
  induction nodes generalizing rest with
  | nil => rw [readParametersFrom]; rfl
  | cons n others ih =>
      rw [List.cons_append, readParametersFrom_cons, readParametersFrom_cons, ih, List.append_assoc]
      rfl

/-- Whether the comment changes nothing of what one node of a list adds. -/
def sparesStep (c : Comment) (bytes : Bytes) (rest : Option (Option String)) (n : SyntaxNode) :
    Bool :=
  match rest with
  | some (some _) => n.kind != "identifier" || !c.isIn n
  | some none => true
  | none =>
    !(n.kind == "parameter" || n.kind == "parameter_array") || c.sparesParameter bytes n

/-- Whether the comment changes nothing of what the nodes of a list add. -/
def sparesSteps (c : Comment) (bytes : Bytes) (rest : Option (Option String)) :
    List SyntaxNode → Bool
  | [] => true
  | n :: more => c.sparesStep bytes rest n && c.sparesSteps bytes (readStep bytes rest n).2 more

theorem keepsParameter_rest {type type' name name' : String} {modifiers : List String}
    (htype : c.KeepsType type type') :
    c.KeepsParameter { name, type := some type, modifiers }
      { name := name', type := some type', modifiers } ↔ name' = name := by
  rw [keepsParameter_iff]
  exact ⟨fun ⟨_, hname, _⟩ => hname, fun hname => ⟨.some htype, hname, rfl, rfl⟩⟩

/-- One step keeps what is added up to comments in types, and the type that is found. -/
theorem keepsStep (hfits : c.Fits bytes) (h : c.Becomes n n') {rest rest' : Option (Option String)}
    (hrest : Option.Rel (Option.Rel c.KeepsType) rest rest') :
    (readStep bytes rest n).1.length = (readStep (c.insert bytes) rest' n').1.length ∧
      (List.Forall₂ c.KeepsParameter (readStep bytes rest n).1
          (readStep (c.insert bytes) rest' n').1 ↔ c.sparesStep bytes rest n = true) ∧
        Option.Rel (Option.Rel c.KeepsType) (readStep bytes rest n).2
          (readStep (c.insert bytes) rest' n').2 := by
  cases hrest with
  | none =>
      rw [readStep_none, readStep_none, sparesStep, h.kind_eq]
      split
      · next hword =>
        rw [eq_of_beq hword]
        exact ⟨rfl, by simp, .some .none⟩
      split
      · next hlist =>
        rw [eq_of_beq hlist]
        exact ⟨by simp, by simp [KeepsParameter.refl], .none⟩
      split
      · next hparameter =>
        rw [hparameter, Bool.not_true, Bool.false_or, ← keepsParameter_readParameter_iff hfits h]
        exact ⟨by simp, by simp, .none⟩
      · next hother =>
        rw [Bool.eq_false_iff.mpr hother]
        exact ⟨rfl, by simp, .none⟩
  | some hfound =>
      cases hfound with
      | none =>
          rw [readStep, readStep, sparesStep, h.kind_eq, h.moves.isNamed_eq]
          split
          · exact ⟨rfl, by simp, .some (.some (h.keepsType hfits))⟩
          · exact ⟨rfl, by simp, .some .none⟩
      | some htype =>
          rw [readStep, readStep, sparesStep, h.kind_eq]
          split
          · next hname =>
            rw [bne, hname, Bool.not_true, Bool.false_or, Bool.not_eq_true',
              ← textWith_eq_iff hfits, ← h.text_eq hfits]
            exact ⟨by simp, by simp [keepsParameter_rest htype], .none⟩
          · next hother =>
            rw [bne, Bool.eq_false_iff.mpr hother]
            exact ⟨rfl, by simp, .some (.some htype)⟩

theorem keepsParametersFrom_iff (hfits : c.Fits bytes) (h : List.Forall₂ c.Becomes nodes nodes')
    {rest rest' : Option (Option String)} (hrest : Option.Rel (Option.Rel c.KeepsType) rest rest') :
    List.Forall₂ c.KeepsParameter (readParametersFrom bytes rest nodes)
        (readParametersFrom (c.insert bytes) rest' nodes') ↔
      c.sparesSteps bytes rest nodes = true := by
  induction h generalizing rest rest' with
  | nil =>
      rw [readParametersFrom, readParametersFrom, sparesSteps]
      simp
  | cons hfirst _ ih =>
      obtain ⟨hlength, hstep, hnext⟩ := keepsStep hfits hfirst hrest
      rw [readParametersFrom_cons, readParametersFrom_cons, forall₂_append_iff hlength, hstep,
        ih hnext, sparesSteps, Bool.and_eq_true]

/-! ### The comment between parameters -/

theorem readStep_eq_of_isIn (hfits : c.Fits bytes) (h : c.Becomes n n') (hin : c.isIn n = false)
    (rest : Option (Option String)) :
    readStep (c.insert bytes) rest n' = readStep bytes rest n := by
  have htext : n'.text (c.insert bytes) = n.text bytes := by
    rw [h.text_eq hfits, textWith_eq_iff hfits]
    exact hin
  rcases rest with _ | _ | type
  · rw [readStep, readStep, h.kind_eq, readParameter_eq_of_isIn hfits h hin]
  · rw [readStep, readStep, h.kind_eq, h.moves.isNamed_eq, htext]
  · rw [readStep, readStep, h.kind_eq, htext]

theorem readParametersFrom_eq_of_isBeside (hfits : c.Fits bytes)
    (h : List.Forall₂ c.Becomes nodes nodes') (hbeside : c.isBeside nodes = true)
    (rest : Option (Option String)) :
    readParametersFrom (c.insert bytes) rest nodes' = readParametersFrom bytes rest nodes ∧
      restBehind (c.insert bytes) rest nodes' = restBehind bytes rest nodes := by
  induction h generalizing rest with
  | nil =>
      rw [readParametersFrom, readParametersFrom, restBehind_nil, restBehind_nil]
      exact ⟨rfl, rfl⟩
  | cons hfirst _ ih =>
      obtain ⟨hin, hothers⟩ := List.forall_mem_cons.mp (isBeside_iff.mp hbeside)
      have hstep := readStep_eq_of_isIn hfits hfirst hin rest
      rw [readParametersFrom_cons, readParametersFrom_cons, restBehind_cons, restBehind_cons, hstep]
      obtain ⟨hread, hrest⟩ := ih (isBeside_iff.mpr hothers) (readStep bytes rest _).2
      rw [hread, hrest]
      exact ⟨rfl, rfl⟩

theorem sparesSteps_of_isBeside (hfits : c.Fits bytes) (h : List.Forall₂ c.Becomes nodes nodes')
    (hbeside : c.isBeside nodes = true) (rest : Option (Option String)) :
    c.sparesSteps bytes rest nodes = true := by
  have hrest : Option.Rel (Option.Rel c.KeepsType) rest rest := by
    rcases rest with _ | _ | type
    · exact .none
    · exact .some .none
    · exact .some (.some (.same type))
  rw [← keepsParametersFrom_iff hfits h hrest,
    (readParametersFrom_eq_of_isBeside hfits h hbeside rest).1]
  exact List.forall₂_same.mpr fun p _ => .refl p

/-- What stands behind the comment, if it stands where a type is looked for behind `params`. -/
def standIn? (c : Comment) (bytes : Bytes) (list : SyntaxNode) : Option (List SyntaxNode) :=
  let before := list.children.filter (·.start < c.place)
  if c.isAmong list && restBehind bytes none before == some none then
    some (list.children.filter fun child => !decide (child.start < c.place))
  else none

/-- A comment changes nothing of a parameter list: none of its parameters, nor what is read behind
`params`, where it would be the type. -/
def SparesParameters (c : Comment) (bytes : Bytes) (list? : Option SyntaxNode) : Prop :=
  ∀ list ∈ list?, match c.standIn? bytes list with
    | some after =>
      List.Forall₂ c.KeepsParameter (readParametersFrom bytes (some none) after)
        (readParametersFrom bytes (some (some c.text)) after)
    | none => c.sparesSteps bytes none list.children = true

/-- What a comment adds to parameters: it is the type where one is looked for. -/
theorem readStep_of_isNode (hfits : c.Fits bytes) (h : c.isNode n = true)
    (rest : Option (Option String)) : readStep (c.insert bytes) rest n =
      ([], if rest = some none then some (some c.text) else rest) := by
  have hkind := kind_of_isNode h
  rcases rest with _ | _ | type
  · simp [readStep_none, hkind]
  · simp [readStep, hkind, isNamed_of_isNode h, text_of_isNode hfits h]
  · simp [readStep, hkind]

theorem keepsParameters_iff (hfits : c.Fits bytes) {list? list?' : Option SyntaxNode}
    (h : Option.Rel c.Becomes list? list?') :
    List.Forall₂ c.KeepsParameter (readParameters bytes list?)
        (readParameters (c.insert bytes) list?') ↔ c.SparesParameters bytes list? := by
  cases h with
  | none => simp [readParameters, SparesParameters]
  | @some list list' hlist =>
      simp only [SparesParameters, readParameters, Option.mem_some_iff, forall_eq']
      rcases hlist.cases_children with ⟨hamong, -, hchildren⟩ |
        ⟨hamong, before, node, after, before', after', hold, hnew, hfront, hbehind, hnode, hbefore,
          hafter⟩
      · rw [standIn?, hamong, Bool.false_and, if_neg Bool.false_ne_true]
        exact keepsParametersFrom_iff hfits hchildren .none
      · have hbeside := isBeside_children hamong
        rw [hold, isBeside_append, Bool.and_eq_true] at hbeside
        obtain ⟨hread, hrest⟩ := readParametersFrom_eq_of_isBeside hfits hbefore hbeside.1 none
        have hreadAfter := fun rest =>
          (readParametersFrom_eq_of_isBeside hfits hafter hbeside.2 rest).1
        obtain ⟨hfirst, hlast⟩ := filter_start hfront hbehind
        rw [standIn?, hold, hnew, hamong, Bool.true_and, hfirst, hlast, readParametersFrom_append,
          readParametersFrom_append, forall₂_append_iff (by rw [hread]), hread, hrest,
          and_iff_right (List.forall₂_same.mpr fun p _ => .refl p), readParametersFrom_cons,
          readStep_of_isNode hfits hnode, List.nil_append, hreadAfter]
        by_cases hlooked : restBehind bytes none before = some none
        · rw [if_pos hlooked, if_pos (by rw [hlooked]; rfl), hlooked]
        · rw [if_neg hlooked, if_neg (by simpa using hlooked)]
          refine iff_of_true (List.forall₂_same.mpr fun p _ => .refl p) ?_
          exact sparesSteps_of_isBeside hfits (List.rel_append hbefore hafter)
            (by rw [isBeside_append, hbeside.1, hbeside.2]; rfl) none

end Comment

end Source

end RouteLinks
