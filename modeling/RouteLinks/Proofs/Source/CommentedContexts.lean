import RouteLinks.Proofs.Source.CommentedHeads
/-!
# What is around a declaration with a comment in it

A declaration is named by the namespaces and classes around it, and the directives in front of it
are in force. A directive brings a namespace into scope if its text is two words; a comment in it
makes more words or becomes a part of one, so what has a target has another one or none with the
comment. The comment is in one directive at most, and so the targets change as a list if and only if
that directive does.
-/

namespace RouteLinks

/-! ### The target of a directive -/

theorem Text.sum_count_words_go {d : Char} (hd : isBlank d = false) (word cs : List Char) :
    ((Text.words.go word cs).map (List.count d)).sum = word.count d + cs.count d := by
  induction cs generalizing word with
  | nil =>
      rw [words.go]
      split
      · next hword =>
        rw [List.isEmpty_iff] at hword
        simp [hword]
      · simp
  | cons c rest ih =>
      rw [words.go]
      split
      · next hblank =>
        have hother : c ≠ d := by
          rintro rfl
          rw [hd] at hblank
          cases hblank
        rw [List.count_cons_of_ne hother]
        split
        · next hword =>
          rw [List.isEmpty_iff] at hword
          rw [ih, hword]
        · rw [List.map_cons, List.sum_cons, ih, List.count_reverse, List.count_nil, Nat.zero_add]
      · rw [ih, List.count_cons, List.count_cons]
        omega

theorem Text.sum_count_words {d : Char} (hd : isBlank d = false) (cs : List Char) :
    ((Text.words cs).map (List.count d)).sum = cs.count d := by
  rw [words, sum_count_words_go hd, List.count_nil, Nat.zero_add]

theorem Text.count_replace_go {d : Char} {old : List Char} (hold : old ≠ []) (hd : d ∉ old)
    (skip : Nat) (cs : List Char) :
    (Text.replace.go old [] skip cs).count d = (cs.drop skip).count d := by
  induction cs generalizing skip with
  | nil => cases skip <;> rfl
  | cons c rest ih =>
      cases skip with
      | succ n => rw [replace.go, ih, List.drop_succ_cons]
      | zero =>
          rw [replace.go]
          split
          · next hprefix =>
            obtain ⟨behind, hbehind⟩ := List.isPrefixOf_iff_prefix.mp hprefix
            have hlength : old.length - 1 + 1 = old.length :=
              Nat.sub_add_cancel (List.length_pos_iff.mpr hold)
            have hdrop : rest.drop (old.length - 1) = behind := by
              rw [← List.drop_succ_cons (a := c), hlength, ← hbehind, List.drop_left]
            rw [List.nil_append, ih, hdrop, List.drop_zero, ← hbehind, List.count_append,
              List.count_eq_zero_of_not_mem hd, Nat.zero_add]
          · rw [List.count_cons, ih, List.drop_zero, List.drop_zero, List.count_cons]

theorem Text.count_replace {d : Char} {old : List Char} (hd : d ∉ old) (cs : List Char) :
    (Text.replace old [] cs).count d = cs.count d := by
  rw [replace]
  split
  · rfl
  · next hold => rw [count_replace_go (by simpa using hold) hd, List.drop_zero]

namespace Source

open SyntaxNode

/-- A target has all slashes of its directive. -/
theorem slashes_of_usingTarget? {text target : String} (h : usingTarget? text = some target) :
    slashes target = slashes text := by
  have htotal : ((Text.words (Text.dropEndWhile (· == ';') (Text.trim text.toList))).map
      (List.count '/')).sum = slashes text := by
    rw [Text.sum_count_words (by decide), Text.count_dropEndWhile (by decide),
      Text.count_trim (by decide)]
    rfl
  have htarget : ∀ last, (Text.replace "global::".toList [] last).count '/' = last.count '/' :=
    fun last => Text.count_replace (by simp) last
  unfold usingTarget? at h
  dsimp only at h
  generalize Text.words (Text.dropEndWhile (· == ';') (Text.trim text.toList)) = ws at h htotal
  rcases ws with _ | ⟨word, rest⟩
  · cases h
  dsimp only at h
  split at h
  · next first last heq =>
    have hused : ((if word == "global".toList then rest else word :: rest).map
        (List.count '/')).sum = slashes text := by
      rw [← htotal]
      split
      · next hglobal =>
        rw [List.map_cons, List.sum_cons, eq_of_beq hglobal]
        simp
      · rfl
    obtain ⟨hfirst, h⟩ := Option.ite_none_right_eq_some.mp h
    obtain rfl := Option.some.inj h
    rw [heq, eq_of_beq (Bool.and_eq_true_iff.mp hfirst).1] at hused
    rw [slashes, String.toList_ofList, htarget, ← hused]
    simp
  · cases h

def targetsOf (text : String) : List String := ((usingTarget? text).filter (!·.isEmpty)).toList

theorem targets_eq (r : Reading) (n : SyntaxNode) : r.targets n = targetsOf (n.rawText r.bytes) :=
  rfl

theorem slashes_of_targetsOf {text target : String} (h : target ∈ targetsOf text) :
    slashes target = slashes text :=
  slashes_of_usingTarget? (Option.filter_eq_some_iff.mp (Option.mem_toList.mp h)).1

variable {c : Comment} {bytes : Bytes} {n n' root root' : SyntaxNode}
  {nodes nodes' : List SyntaxNode} {filePath : String}

namespace Comment

/-! ### Directives -/

/-- Whether the comment is not put into a directive, or this brings nothing into scope with it or
without it. -/
def sparesDirective (c : Comment) (bytes : Bytes) (n : SyntaxNode) : Bool :=
  !c.isIn n ||
    ((targetsOf (n.rawText bytes)).isEmpty && (targetsOf (c.rawTextWith bytes n)).isEmpty)

theorem targetsOf_rawTextWith_eq_iff (hfits : c.Fits bytes) (n : SyntaxNode) :
    targetsOf (c.rawTextWith bytes n) = targetsOf (n.rawText bytes) ↔
      c.sparesDirective bytes n = true := by
  rw [sparesDirective]
  cases hin : c.isIn n with
  | false => exact iff_of_true (by rw [(rawTextWith_eq_iff hfits).mpr hin]) rfl
  | true =>
      rw [Bool.not_true, Bool.false_or, Bool.and_eq_true, List.isEmpty_iff, List.isEmpty_iff]
      constructor
      · intro hsame
        have hnone : targetsOf (n.rawText bytes) = [] := by
          refine List.eq_nil_iff_forall_not_mem.mpr fun target htarget => ?_
          have hwith : target ∈ targetsOf (c.rawTextWith bytes n) := by rwa [hsame]
          have hslashes := slashes_of_targetsOf htarget
          have hpos := hfits.block.slashes_pos
          rw [slashes_of_targetsOf hwith, c.slashes_rawTextWith, hin, if_pos rfl] at hslashes
          omega
        exact ⟨hnone, hsame.trans hnone⟩
      · rintro ⟨hold, hnew⟩
        rw [hold, hnew]

theorem flatMap_targetsOf_eq_iff (hfits : c.Fits bytes) (hone : nodes.countP c.isIn ≤ 1) :
    (nodes.flatMap fun n => targetsOf (c.rawTextWith bytes n)) =
        (nodes.flatMap fun n => targetsOf (n.rawText bytes)) ↔
      nodes.all (c.sparesDirective bytes) = true := by
  induction nodes with
  | nil => simp
  | cons n rest ih =>
      have hfirst := targetsOf_rawTextWith_eq_iff hfits n
      rw [List.countP_cons] at hone
      rw [List.flatMap_cons, List.flatMap_cons, List.all_cons, Bool.and_eq_true]
      cases hin : c.isIn n with
      | false =>
          have hspares : c.sparesDirective bytes n = true := by
            rw [sparesDirective, hin]
            rfl
          rw [hin, if_neg Bool.false_ne_true, Nat.add_zero] at hone
          rw [hfirst.mpr hspares, List.append_right_inj, ih hone]
          exact (and_iff_right hspares).symm
      | true =>
          rw [hin, if_pos rfl] at hone
          have hnone : rest.countP c.isIn = 0 := by omega
          have hrest : rest.all (c.sparesDirective bytes) = true := by
            refine List.all_eq_true.mpr fun d hd => ?_
            rw [sparesDirective, eq_false_of_ne_true (List.countP_eq_zero.mp hnone d hd)]
            rfl
          rw [(ih (by omega)).mpr hrest, List.append_left_inj, ← hfirst, and_iff_left hrest]

/-- What directives bring into scope is the same if each of them is spared. -/
theorem targets_eq_iff (filePath : String) (hfits : c.Fits bytes)
    (h : List.Forall₂ c.Becomes nodes nodes')
    (hone : nodes.countP c.isIn ≤ 1) :
    nodes'.flatMap (Reading.targets ⟨c.insert bytes, filePath⟩) =
        nodes.flatMap (Reading.targets ⟨bytes, filePath⟩) ↔
      nodes.all (c.sparesDirective bytes) = true := by
  rw [← flatMap_targetsOf_eq_iff hfits hone]
  have hnew : nodes'.flatMap (Reading.targets ⟨c.insert bytes, filePath⟩) =
      nodes.flatMap fun n => targetsOf (c.rawTextWith bytes n) :=
    flatMap_eq_of_forall₂ h fun m m' hm => by rw [targets_eq, hm.rawText_eq hfits]
  rw [hnew]
  rfl

/-! ### The comment is in one directive at most -/

/-- The comment is in one child of a node at most, and in none if it is not in the node. -/
theorem Becomes.countP_children (h : c.Becomes n n') :
    n.children.countP c.isIn ≤ if c.isIn n then 1 else 0 := by
  have hnone : c.isBeside n.children = true → n.children.countP c.isIn = 0 := fun hbeside =>
    List.countP_eq_zero.mpr fun m hm => Bool.eq_false_iff.mp (isBeside_iff.mp hbeside m hm)
  cases hin : c.isIn n with
  | false => exact (hnone (h.moves.isBeside_children hin)).le
  | true =>
      rw [if_pos rfl]
      rcases h.cases_children with ⟨-, hone, -⟩ | ⟨hamong, -⟩
      · exact (hone hin).le
      · rw [hnone (isBeside_children hamong)]
        exact Nat.zero_le 1

theorem Becomes.of_leads {way : List Enclosure} (h : c.Becomes root root')
    (hpos : 0 < c.bytes.length) (hway : Leads way root n) : ∃ n', c.Becomes n n' := by
  induction hway generalizing root' with
  | here => exact ⟨root', h⟩
  | @inside e rest way child n hchildren _ ih =>
      have hchild : child ∈ e.parent.children :=
        hchildren ▸ List.mem_append_right _ List.mem_cons_self
      obtain ⟨child', -, hbecomes⟩ := exists_left_of_forall₂ (h.alike hpos).flip hchild
      exact ih hbecomes

theorem directives_foldl_behind (s : Spot) (nodes : List SyntaxNode) :
    (nodes.foldl Spot.behind s).directives =
      s.directives ++ nodes.filter (·.kind == "using_directive") := by
  induction nodes generalizing s with
  | nil => exact (List.append_nil _).symm
  | cons n rest ih =>
      rw [List.foldl_cons, ih, Spot.behind, List.filter_cons]
      split
      · rw [List.append_assoc]
        rfl
      split <;> rfl

theorem directives_enter? {s t : Spot} {e : Enclosure} (h : s.enter? bytes e = some t) :
    t.directives = s.directives ∨
      t.directives = s.directives ++ e.before.filter (·.kind == "using_directive") := by
  have hinside : s.inside? bytes e = some t → t.directives = s.directives := by
    intro h
    obtain ⟨-, -, -, rfl⟩ := Spot.inside?_eq_some h
    rfl
  rw [Spot.enter?] at h
  split at h
  · split at h
    · cases h
      exact .inr (directives_foldl_behind _ _)
    split at h
    · cases h
      exact .inr (directives_foldl_behind _ _)
    · exact .inl (hinside h)
  · split at h
    · cases h
      exact .inl rfl
    · cases h
  · exact .inl (hinside h)

theorem countP_directives {around : List Enclosure} {s : Spot} (h : c.Becomes root root')
    (hpos : 0 < c.bytes.length) (hway : Leads around root n)
    (hs : Spot.of? bytes around = some s) :
    s.directives.countP c.isIn + (if c.isIn n then 1 else 0) ≤ 1 := by
  induction around using List.reverseRecOn generalizing n s with
  | nil => cases hs
  | append_singleton way e ih =>
      obtain ⟨hway, rest, hchildren⟩ := hway.of_concat
      obtain ⟨parent', hparent⟩ := h.of_leads hpos hway
      have hcount := hparent.countP_children
      rw [hchildren, List.countP_append, List.countP_cons] at hcount
      have hfilter : (e.before.filter (·.kind == "using_directive")).countP c.isIn ≤
          e.before.countP c.isIn := List.filter_sublist.countP_le
      have hone : (if c.isIn e.parent then 1 else 0) ≤ 1 := by split <;> decide
      rcases eq_or_ne way [] with rfl | hne
      · obtain rfl := Option.some.inj hs
        have hnone : ({} : Spot).directives = [] := rfl
        rw [directives_foldl_behind, hnone, List.nil_append]
        omega
      · rw [Spot.of?_concat bytes hne] at hs
        obtain ⟨t, ht, henter⟩ := Option.bind_eq_some_iff.mp hs
        have hbefore := ih hway ht
        rcases directives_enter? henter with hsame | hmore
        · rw [hsame]
          omega
        · rw [hmore, List.countP_append]
          omega

/-! ### Names around a declaration -/

def nameText (bytes : Bytes) (n : SyntaxNode) : String :=
  ((n.field? "name").map (·.rawText bytes)).getD ""

theorem getD_nameOf? (bytes : Bytes) (n : SyntaxNode) :
    (nameOf? bytes n).getD "" = nameText bytes n := by
  rw [nameOf?, nameText]
  cases n.field? "name" with
  | none => rfl
  | some m =>
      rw [Option.map_some, Option.filter_some, Option.getD_some]
      cases hempty : (m.rawText bytes).isEmpty with
      | true => exact (String.isEmpty_iff.mp hempty).symm
      | false => rfl

theorem slashes_nameText (hfits : c.Fits bytes) (h : c.Becomes n n') :
    slashes (nameText (c.insert bytes) n') =
      slashes (nameText bytes n) + (nameNodes n).countP c.isIn * c.bytes.count 0x2F := by
  have hname := h.field? hfits.length_pos "name"
  rw [nameText, nameText, nameNodes]
  generalize n.field? "name" = o, n'.field? "name" = o' at hname
  cases hname with
  | none => simp
  | @some m m' hm =>
      rw [Option.map_some, Option.map_some, Option.getD_some, Option.getD_some,
        hm.rawText_eq hfits, slashes_rawTextWith, Option.toList_some, List.countP_singleton]
      split <;> omega

theorem nameText_eq (hfits : c.Fits bytes) (h : c.Becomes n n')
    (hbeside : c.isBeside (nameNodes n) = true) :
    nameText (c.insert bytes) n' = nameText bytes n := by
  rw [← getD_nameOf?, ← getD_nameOf?, (h.nameOf?_eq_iff hfits).mpr hbeside]

/-- Names that are joined without losing a slash stay if the comment is put into none of them. -/
theorem joined_eq_iff {α : Type} (join : List String → α) (count : α → Nat)
    (hjoin : ∀ names, count (join names) = totalSlashes names) (hfits : c.Fits bytes)
    (h : List.Forall₂ c.Becomes nodes nodes') :
    join (nodes'.map (nameText (c.insert bytes))) = join (nodes.map (nameText bytes)) ↔
      c.isBeside (nodes.flatMap nameNodes) = true := by
  constructor
  · intro hsame
    have htotal : totalSlashes (nodes'.map (nameText (c.insert bytes))) =
        totalSlashes (nodes.map (nameText bytes)) +
          (nodes.flatMap nameNodes).countP c.isIn * c.bytes.count 0x2F := by
      clear hsame
      induction h with
      | nil => simp [totalSlashes]
      | cons hfirst _ ih =>
          rw [List.flatMap_cons, List.countP_append, Nat.add_mul]
          simp only [totalSlashes, List.map_cons, List.sum_cons, slashes_nameText hfits hfirst]
            at ih ⊢
          rw [ih]
          omega
    rw [← hjoin, hsame, hjoin] at htotal
    refine isBeside_of_countP ?_
    rcases Nat.eq_zero_or_pos ((nodes.flatMap nameNodes).countP c.isIn) with hzero | hsome
    · exact hzero
    · have := Nat.mul_pos hsome hfits.block.slashes_pos
      omega
  · intro hbeside
    congr 1
    induction h with
    | nil => rfl
    | cons hfirst _ ih =>
        rw [List.flatMap_cons, isBeside_append, Bool.and_eq_true] at hbeside
        rw [List.map_cons, List.map_cons, nameText_eq hfits hfirst hbeside.1, ih hbeside.2]

theorem slashes_qualify (qualifier name : String) :
    slashes (qualify qualifier name) = slashes qualifier + slashes name := by
  rw [qualify]
  split
  · next hempty =>
    rw [String.isEmpty_iff.mp hempty]
    exact (Nat.zero_add _).symm
  · rw [slashes_append, slashes_append]
    rfl

theorem slashes_foldl_qualify (qualifier : String) (names : List String) :
    slashes (names.foldl qualify qualifier) = slashes qualifier + totalSlashes names := by
  induction names generalizing qualifier with
  | nil => rfl
  | cons name rest ih =>
      rw [List.foldl_cons, ih, slashes_qualify, totalSlashes, totalSlashes, List.map_cons,
        List.sum_cons, Nat.add_assoc]

theorem getD_foldl_qualify (owner : Option String) (names : List String) :
    (names.foldl (fun owner name => some (qualify (owner.getD "") name)) owner).getD "" =
      names.foldl qualify (owner.getD "") := by
  induction names generalizing owner with
  | nil => rfl
  | cons name rest ih =>
      rw [List.foldl_cons, ih]
      rfl

/-- Where a node stands with the comment in the source. -/
structure SpotBecomes (c : Comment) (s s' : Spot) : Prop where
  level : s'.level = s.level
  scopes : List.Forall₂ c.Becomes s.scopes s'.scopes
  directives : List.Forall₂ c.Becomes s.directives s'.directives
  owners : List.Forall₂ c.Becomes s.owners s'.owners

variable {s s' : Spot}

theorem scope_eq_iff (hfits : c.Fits bytes) (h : c.SpotBecomes s s') :
    s'.scope (c.insert bytes) = s.scope bytes ↔
      c.isBeside (s.scopes.flatMap nameNodes) = true :=
  joined_eq_iff (·.foldl qualify "") slashes
    (fun names => (slashes_foldl_qualify "" names).trans (Nat.zero_add _)) hfits h.scopes

theorem owner_eq_iff (hfits : c.Fits bytes) (h : c.SpotBecomes s s') :
    s'.owner (c.insert bytes) = s.owner bytes ↔
      c.isBeside (s.owners.flatMap nameNodes) = true := by
  have hnames : ∀ (bytes : Bytes) (nodes : List SyntaxNode),
      (nodes.map fun n => (nameOf? bytes n).getD "") = nodes.map (nameText bytes) :=
    fun bytes nodes =>
    List.map_congr_left fun n _ => getD_nameOf? bytes n
  rw [Spot.owner, Spot.owner, hnames, hnames]
  refine joined_eq_iff _ (fun owner => slashes (owner.getD "")) (fun names => ?_) hfits h.owners
  rw [getD_foldl_qualify, slashes_foldl_qualify]
  exact Nat.zero_add _

end Comment

end Source

end RouteLinks
