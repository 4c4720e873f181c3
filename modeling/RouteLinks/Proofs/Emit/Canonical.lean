import RouteLinks.Proofs.Emit.Pragma
/-!
# Canonical layout

What the canonical layout of a text is, said of its lines alone: those that are kept are there in
their order, and between two neighbours stands one empty line or none, by what stood between them in
the text and by their braces. There is one such layout of every text, and it is the one that
`normalize` makes; a text that is in it stays as it is.

The lines of the layout are made from the last to the first in `addLine`, where empty lines are put
down and taken up again. Here they are made from the first to the last by `layout`, which puts an
empty line down only when it sees what follows.
-/

namespace RouteLinks.Layout

open Text (isBlank trimStart trimEnd fields unixEndings)

variable {line last first second : List Char} {parted : Bool} {previous : Option (List Char)}
  {lines before between after out : List (List Char)}

def isKept (line : List Char) : Bool := !line.all isBlank && !isPragma line

def keptLines (lines : List (List Char)) : List (List Char) := (lines.filter isKept).map trimEnd

def written (lines : List (List Char)) : List (List Char) := lines.filter fun line => !line.isEmpty

/-- What stands in the layout between two neighbours; `parted` says whether a blank line stood
between them in the text. -/
def gap (parted : Bool) (first second : List Char) : List (List Char) :=
  if parted && first.getLast? != some '\x7b' && (trimStart second).head? != some '\x7d' then [[]]
  else []

/-- The canonical layout of lines. -/
structure IsLayoutOf (out lines : List (List Char)) : Prop where
  written_eq : written out = keptLines lines
  head : out.head? ≠ some []
  last : out.getLast? ≠ some []
  gap : ∀ before first between second after,
    lines = before ++ first :: (between ++ second :: after) →
    isKept first = true → isKept second = true → (∀ line ∈ between, isKept line = false) →
    ∃ above below, written above = keptLines before ∧ written below = keptLines after ∧
      out = above ++ trimEnd first ::
        (Layout.gap (between.any (·.all isBlank)) (trimEnd first) (trimEnd second) ++
          trimEnd second :: below)

/-! ### Kept lines -/

theorem not_blank_of_isKept (h : isKept line = true) : line.all isBlank = false := by
  rw [isKept, Bool.and_eq_true] at h
  simpa using h.1

theorem not_isPragma_of_isKept (h : isKept line = true) : isPragma line = false := by
  rw [isKept, Bool.and_eq_true] at h
  simpa using h.2

theorem trimEnd_ne_nil (h : isKept line = true) : trimEnd line ≠ [] := by
  rw [Ne, Text.trimEnd_eq_nil_iff, not_blank_of_isKept h]
  exact Bool.false_ne_true

theorem trimEnd_trimEnd (line : List Char) : trimEnd (trimEnd line) = trimEnd line :=
  Text.dropEndWhile_dropEndWhile _ _

theorem isKept_trimEnd (h : isKept line = true) : isKept (trimEnd line) = true := by
  have hblank : (trimEnd line).all isBlank = false := by
    rw [← Bool.not_eq_true, ← Text.trimEnd_eq_nil_iff, trimEnd_trimEnd]
    exact trimEnd_ne_nil h
  rw [isKept, hblank, isPragma_trimEnd, not_isPragma_of_isKept h]
  rfl

theorem keptLines_cons (line : List Char) (lines : List (List Char)) :
    keptLines (line :: lines) =
      if isKept line then trimEnd line :: keptLines lines else keptLines lines := by
  rw [keptLines, List.filter_cons]
  split <;> rfl

theorem keptLines_append (lines more : List (List Char)) :
    keptLines (lines ++ more) = keptLines lines ++ keptLines more := by
  rw [keptLines, List.filter_append, List.map_append]
  rfl

theorem keptLines_eq_nil (h : ∀ line ∈ lines, isKept line = false) : keptLines lines = [] := by
  rw [keptLines, List.filter_eq_nil_iff.mpr (by simpa using h), List.map_nil]

theorem written_append (lines more : List (List Char)) :
    written (lines ++ more) = written lines ++ written more := List.filter_append _ _

theorem written_cons (h : line ≠ []) (lines : List (List Char)) :
    written (line :: lines) = line :: written lines :=
  List.filter_cons_of_pos (by simpa using h)

theorem written_gap (parted : Bool) (first second : List Char) :
    written (gap parted first second) = [] := by
  rw [gap]
  split <;> rfl

/-! ### The layout from the first line on -/

/-- What stands in the layout before a line, with the line before that, if there is one. -/
def gapBefore (previous : Option (List Char)) (parted : Bool) (line : List Char) :
    List (List Char) :=
  match previous with
  | some last => gap parted last line
  | none => []

/-- The layout of the lines behind a kept one, or of all lines if none was kept yet; `parted` says
whether a blank line came since. -/
def layoutAfter (previous : Option (List Char)) (parted : Bool) :
    List (List Char) → List (List Char)
  | [] => []
  | line :: rest =>
    if isKept line then
      gapBefore previous parted (trimEnd line) ++
        trimEnd line :: layoutAfter (some (trimEnd line)) false rest
    else layoutAfter previous (parted || line.all isBlank) rest

def layout (lines : List (List Char)) : List (List Char) := layoutAfter none false lines

theorem mem_gapBefore (h : line ∈ gapBefore previous parted first) : line = [] := by
  cases previous with
  | none => cases h
  | some last =>
      rw [gapBefore, gap] at h
      split at h
      · exact List.mem_singleton.mp h
      · cases h

theorem written_gapBefore (previous : Option (List Char)) (parted : Bool) (line : List Char) :
    written (gapBefore previous parted line) = [] :=
  List.filter_eq_nil_iff.mpr fun _ hempty => by simp [mem_gapBefore hempty]

theorem layoutAfter_of_kept (h : isKept line = true) (lines : List (List Char)) :
    layoutAfter previous parted (line :: lines) =
      gapBefore previous parted (trimEnd line) ++
        trimEnd line :: layoutAfter (some (trimEnd line)) false lines := by
  rw [layoutAfter, if_pos h]

theorem layoutAfter_of_not_kept (h : isKept line = false) (lines : List (List Char)) :
    layoutAfter previous parted (line :: lines) =
      layoutAfter previous (parted || line.all isBlank) lines := by
  rw [layoutAfter, h, if_neg Bool.false_ne_true]

theorem layoutAfter_append (h : ∀ line ∈ between, isKept line = false) (lines : List (List Char)) :
    layoutAfter previous parted (between ++ lines) =
      layoutAfter previous (parted || between.any (·.all isBlank)) lines := by
  induction between generalizing parted with
  | nil => rw [List.nil_append, List.any_nil, Bool.or_false]
  | cons line rest ih =>
      obtain ⟨hline, hrest⟩ := List.forall_mem_cons.mp h
      rw [List.cons_append, layoutAfter_of_not_kept hline, ih hrest, List.any_cons, Bool.or_assoc]

theorem layoutAfter_eq_nil (h : ∀ line ∈ lines, isKept line = false) :
    layoutAfter previous parted lines = [] := by
  rw [← List.append_nil lines, layoutAfter_append h]
  rfl

theorem layoutAfter_none (parted : Bool) (lines : List (List Char)) :
    layoutAfter none parted lines = layout lines := by
  rw [layout]
  generalize false = other
  induction lines generalizing parted other with
  | nil => rfl
  | cons line rest ih =>
      cases hkept : isKept line with
      | true => rw [layoutAfter_of_kept hkept, layoutAfter_of_kept hkept]; rfl
      | false => rw [layoutAfter_of_not_kept hkept, layoutAfter_of_not_kept hkept]; exact ih _ _

theorem layout_of_kept (h : isKept line = true) (lines : List (List Char)) :
    layout (line :: lines) = trimEnd line :: layoutAfter (some (trimEnd line)) false lines := by
  rw [layout, layoutAfter_of_kept h]
  rfl

theorem layout_append (h : ∀ line ∈ before, isKept line = false) (lines : List (List Char)) :
    layout (before ++ lines) = layout lines := by
  rw [layout, layoutAfter_append h, layoutAfter_none]

/-! ### Adding lines one by one -/

theorem addLine_of_kept (h : isKept line = true) (above : List (List Char)) :
    addLine above line =
      trimEnd line :: if (trimStart (trimEnd line)).head? == some '\x7d' then
        above.dropWhile List.isEmpty else above := by
  have hempty : (trimEnd line).isEmpty = false := by
    simpa using trimEnd_ne_nil h
  simp only [addLine, isPragma_trimEnd, not_isPragma_of_isKept h, hempty, Bool.false_eq_true,
    if_false]
  split <;> rfl

theorem addLine_of_isPragma (h : isPragma line = true) (above : List (List Char)) :
    addLine above line = above := by
  simp only [addLine, isPragma_trimEnd, h, if_true]

theorem addLine_of_blank (h : line.all isBlank = true) (above : List (List Char)) :
    addLine above line =
      match above with
      | last :: _ => if last.isEmpty || last.getLast? == some '\x7b' then above else [] :: above
      | [] => [] := by
  have hempty : trimEnd line = [] := Text.trimEnd_eq_nil_iff.mpr h
  have hpragma : isPragma [] = false := rfl
  simp only [addLine, hempty, hpragma, Bool.false_eq_true, if_false]
  cases above <;> rfl

/-- The empty line that is put down behind a line, if a blank one came behind it. -/
def pending (parted : Bool) (last : List Char) : List (List Char) :=
  if parted && last.getLast? != some '\x7b' then [[]] else []

theorem addLine_pending_of_blank (h : line.all isBlank = true) (hlast : last ≠ [])
    (older : List (List Char)) :
    addLine (pending parted last ++ last :: older) line = pending true last ++ last :: older := by
  have hlast' : last.isEmpty = false := by simpa using hlast
  rw [addLine_of_blank h]
  cases parted <;> cases hbrace : last.getLast? == some '\x7b' <;>
    simp [pending, bne, hbrace, hlast']

theorem dropWhile_pending (hlast : last ≠ []) (older : List (List Char)) :
    (pending parted last ++ last :: older).dropWhile List.isEmpty = last :: older := by
  have hlast' : last.isEmpty = false := by simpa using hlast
  rw [pending]
  split <;> simp [hlast']

/-- A line that begins with a closing brace takes up the empty line before it. -/
theorem addLine_pending_of_kept (h : isKept line = true) (hlast : last ≠ [])
    (older : List (List Char)) :
    addLine (pending parted last ++ last :: older) line =
      trimEnd line :: (gap parted last (trimEnd line) ++ last :: older) := by
  rw [addLine_of_kept h]
  cases hbrace : (trimStart (trimEnd line)).head? == some '\x7d' with
  | true => simp [dropWhile_pending hlast, gap, bne, hbrace]
  | false => simp [pending, gap, bne, hbrace]

theorem gap_reverse (parted : Bool) (first second : List Char) :
    (gap parted first second).reverse = gap parted first second := by
  rw [gap]
  split <;> rfl

/-- What is put on top of a kept line: the list so far has that line last, or an empty one on top of
it, and nothing else of it is read. -/
theorem reverse_foldl_addLine (lines : List (List Char)) (parted : Bool) (hlast : last ≠ [])
    (older : List (List Char)) :
    ((lines.foldl addLine (pending parted last ++ last :: older)).dropWhile List.isEmpty).reverse =
      older.reverse ++ last :: layoutAfter (some last) parted lines := by
  induction lines generalizing last parted older with
  | nil => simp [dropWhile_pending hlast, layoutAfter]
  | cons line rest ih =>
      rw [List.foldl_cons]
      cases hkept : isKept line with
      | true =>
          have hnext := ih false (trimEnd_ne_nil hkept)
            (gap parted last (trimEnd line) ++ last :: older)
          rw [addLine_pending_of_kept hkept hlast, layoutAfter_of_kept hkept]
          refine hnext.trans ?_
          simp [gapBefore, gap_reverse]
      | false =>
          rw [layoutAfter_of_not_kept hkept]
          cases hblank : line.all isBlank with
          | true => rw [addLine_pending_of_blank hblank hlast, ih true hlast, Bool.or_true]
          | false =>
              have hpragma : isPragma line = true := by simpa [isKept, hblank] using hkept
              rw [addLine_of_isPragma hpragma, ih parted hlast, Bool.or_false]

theorem reverse_foldl_addLine_nil (lines : List (List Char)) :
    ((lines.foldl addLine []).dropWhile List.isEmpty).reverse = layout lines := by
  induction lines with
  | nil => rfl
  | cons line rest ih =>
      rw [List.foldl_cons]
      cases hkept : isKept line with
      | true =>
          rw [addLine_of_kept hkept, layout_of_kept hkept, List.dropWhile_nil, ite_self]
          exact reverse_foldl_addLine rest false (trimEnd_ne_nil hkept) []
      | false =>
          rw [← List.singleton_append, layout_append (by simpa using hkept), ← ih]
          cases hblank : line.all isBlank with
          | true => rw [addLine_of_blank hblank]
          | false =>
              have hpragma : isPragma line = true := by simpa [isKept, hblank] using hkept
              rw [addLine_of_isPragma hpragma]

theorem normalLines_eq (text : List Char) :
    normalLines text = layout (fields '\n' (unixEndings text)) := reverse_foldl_addLine_nil _

/-! ### The layout is one -/

theorem written_layoutAfter (previous : Option (List Char)) (parted : Bool)
    (lines : List (List Char)) : written (layoutAfter previous parted lines) = keptLines lines := by
  induction lines generalizing previous parted with
  | nil => rfl
  | cons line rest ih =>
      rw [keptLines_cons]
      cases hkept : isKept line with
      | true =>
          rw [layoutAfter_of_kept hkept, written_append, written_gapBefore, written_cons
            (trimEnd_ne_nil hkept), ih, if_pos rfl, List.nil_append]
      | false => rw [layoutAfter_of_not_kept hkept, ih, if_neg Bool.false_ne_true]

theorem getLast?_layoutAfter (previous : Option (List Char)) (parted : Bool)
    (lines : List (List Char)) : (layoutAfter previous parted lines).getLast? ≠ some [] := by
  induction lines generalizing previous parted with
  | nil => simp [layoutAfter]
  | cons line rest ih =>
      cases hkept : isKept line with
      | true =>
          have hnext := ih (some (trimEnd line)) false
          rw [layoutAfter_of_kept hkept, List.getLast?_append, List.getLast?_cons]
          cases hlast : (layoutAfter (some (trimEnd line)) false rest).getLast? with
          | none => simpa using trimEnd_ne_nil hkept
          | some other => simpa [hlast] using hnext
      | false =>
          rw [layoutAfter_of_not_kept hkept]
          exact ih _ _

theorem exists_layoutAfter_eq (hfirst : isKept first = true) (previous : Option (List Char))
    (parted : Bool) (before lines : List (List Char)) :
    ∃ above, written above = keptLines before ∧
      layoutAfter previous parted (before ++ first :: lines) =
        above ++ trimEnd first :: layoutAfter (some (trimEnd first)) false lines := by
  induction before generalizing previous parted with
  | nil =>
      exact ⟨_, written_gapBefore previous parted (trimEnd first), layoutAfter_of_kept hfirst lines⟩
  | cons line rest ih =>
      rw [List.cons_append, keptLines_cons]
      cases hkept : isKept line with
      | true =>
          obtain ⟨above, habove, hcut⟩ := ih (some (trimEnd line)) false
          refine ⟨gapBefore previous parted (trimEnd line) ++ trimEnd line :: above, ?_, ?_⟩
          · rw [written_append, written_gapBefore, written_cons (trimEnd_ne_nil hkept), habove,
              if_pos rfl, List.nil_append]
          · rw [layoutAfter_of_kept hkept, hcut, List.append_assoc, List.cons_append]
      | false =>
          rw [layoutAfter_of_not_kept hkept]
          exact ih _ _

theorem exists_first_kept (lines : List (List Char)) :
    (∀ line ∈ lines, isKept line = false) ∨ ∃ before first after,
      lines = before ++ first :: after ∧ isKept first = true ∧
        ∀ line ∈ before, isKept line = false := by
  induction lines with
  | nil => exact .inl (by simp)
  | cons line rest ih =>
      cases hkept : isKept line with
      | true => exact .inr ⟨[], line, rest, rfl, hkept, by simp⟩
      | false =>
          rcases ih with hnone | ⟨before, first, after, rfl, hfirst, hbefore⟩
          · exact .inl (List.forall_mem_cons.mpr ⟨hkept, hnone⟩)
          · exact .inr ⟨line :: before, first, after, rfl, hfirst,
              List.forall_mem_cons.mpr ⟨hkept, hbefore⟩⟩

theorem isLayoutOf_layout (lines : List (List Char)) : IsLayoutOf (layout lines) lines where
  written_eq := written_layoutAfter none false lines
  head := by
    rcases exists_first_kept lines with hnone | ⟨before, first, after, rfl, hfirst, hbefore⟩
    · rw [layout, layoutAfter_eq_nil hnone]
      simp
    · rw [layout_append hbefore, layout_of_kept hfirst, List.head?_cons]
      exact fun h => trimEnd_ne_nil hfirst (Option.some.inj h)
  last := getLast?_layoutAfter none false lines
  gap := by
    intro before first between second after hlines hfirst hsecond hbetween
    obtain ⟨above, habove, hcut⟩ :=
      exists_layoutAfter_eq hfirst none false before (between ++ second :: after)
    refine ⟨above, layoutAfter (some (trimEnd second)) false after, habove,
      written_layoutAfter _ _ _, ?_⟩
    rw [hlines, layout, hcut, layoutAfter_append hbetween, layoutAfter_of_kept hsecond,
      Bool.false_or]
    rfl

theorem append_cons_inj {xs ys xs' ys' : List (List Char)} (hline : line ≠ []) (hother : last ≠ [])
    (hsame : xs ++ line :: ys = xs' ++ last :: ys') (hwritten : written xs = written xs') :
    xs = xs' ∧ ys = ys' := by
  induction xs generalizing xs' with
  | nil =>
      cases xs' with
      | nil => exact ⟨rfl, (List.cons.inj hsame).2⟩
      | cons first rest =>
          obtain ⟨rfl, -⟩ := List.cons.inj hsame
          rw [written_cons hline] at hwritten
          cases hwritten
  | cons first rest ih =>
      cases xs' with
      | nil =>
          obtain ⟨rfl, -⟩ := List.cons.inj hsame
          rw [written_cons hother] at hwritten
          cases hwritten
      | cons first' rest' =>
          obtain ⟨rfl, htail⟩ := List.cons.inj hsame
          have hrest : written rest = written rest' := by
            by_cases hfirst : first = []
            · rw [hfirst] at hwritten
              exact hwritten
            · rw [written_cons hfirst, written_cons hfirst] at hwritten
              exact (List.cons.inj hwritten).2
          obtain ⟨rfl, rfl⟩ := ih htail hrest
          exact ⟨rfl, rfl⟩

theorem eq_nil_of_written (h : written lines = []) (hlast : lines.getLast? ≠ some []) :
    lines = [] := by
  by_contra hne
  have hmem := List.getLast_mem hne
  have hempty : lines.getLast hne = [] := by simpa using List.filter_eq_nil_iff.mp h _ hmem
  rw [List.getLast?_eq_some_getLast hne, hempty] at hlast
  exact hlast rfl

theorem getLast?_append_cons (above : List (List Char)) (line : List Char)
    (below : List (List Char)) : (above ++ line :: below).getLast? = (line :: below).getLast? := by
  rw [List.getLast?_append, List.getLast?_eq_some_getLast (List.cons_ne_nil line below)]
  rfl

namespace IsLayoutOf

theorem below_eq (h : IsLayoutOf out lines) (hfirst : isKept first = true)
    (hlines : lines = before ++ first :: after) {below : List (List Char)}
    (habove : written above = keptLines before) (hout : out = above ++ trimEnd first :: below) :
    below = layoutAfter (some (trimEnd first)) false after := by
  -- from one kept line to the next, so by the number of lines that are left
  induction hlength : after.length using Nat.strong_induction_on
    generalizing before first after above below with
  | _ n ih =>
    rcases exists_first_kept after with hnone | ⟨between, second, rest, rfl, hsecond, hbetween⟩
    · have hnil : written below = [] := by
        have hwritten := h.written_eq
        rw [hout, hlines, written_append, keptLines_append, keptLines_cons, if_pos hfirst,
          written_cons (trimEnd_ne_nil hfirst), keptLines_eq_nil hnone, habove] at hwritten
        exact (List.cons.inj (List.append_cancel_left hwritten)).2
      have hlast := h.last
      rw [hout, getLast?_append_cons] at hlast
      have hbelow : below = [] := by
        apply eq_nil_of_written hnil
        intro hempty
        rw [List.getLast?_cons, hempty] at hlast
        exact hlast rfl
      rw [hbelow, layoutAfter_eq_nil hnone]
    · obtain ⟨above', below', habove', _, hout'⟩ :=
        h.gap before first between second rest hlines hfirst hsecond hbetween
      obtain ⟨rfl, hbelow⟩ := append_cons_inj (trimEnd_ne_nil hfirst) (trimEnd_ne_nil hfirst)
        (hout.symm.trans hout') (habove.trans habove'.symm)
      generalize hgap : Layout.gap (between.any (·.all isBlank)) (trimEnd first) (trimEnd second) =
        parting at hout' hbelow
      have hlines' : lines = (before ++ first :: between) ++ second :: rest := by
        rw [hlines, List.append_assoc, List.cons_append]
      have hout'' : out = (above ++ trimEnd first :: parting) ++ trimEnd second :: below' := by
        rw [hout', List.append_assoc, List.cons_append]
      have hwritten : written (above ++ trimEnd first :: parting) =
          keptLines (before ++ first :: between) := by
        rw [keptLines_append, keptLines_cons, if_pos hfirst, keptLines_eq_nil hbetween,
          written_append, habove, written_cons (trimEnd_ne_nil hfirst), ← hgap, written_gap]
      have hshorter : rest.length < n := by
        rw [← hlength, List.length_append, List.length_cons]
        omega
      have hrest : below' = layoutAfter (some (trimEnd second)) false rest :=
        ih rest.length hshorter hsecond hlines' hwritten hout'' rfl
      rw [hbelow, hrest, layoutAfter_append hbetween, layoutAfter_of_kept hsecond, Bool.false_or,
        gapBefore, hgap]

theorem eq_layout (h : IsLayoutOf out lines) : out = layout lines := by
  rcases exists_first_kept lines with hnone | ⟨before, first, after, rfl, hfirst, hbefore⟩
  · have hout : out = [] :=
      eq_nil_of_written (h.written_eq.trans (keptLines_eq_nil hnone)) h.last
    rw [hout, layout, layoutAfter_eq_nil hnone]
  · have hwritten := h.written_eq
    rw [keptLines_append, keptLines_eq_nil hbefore, keptLines_cons, if_pos hfirst] at hwritten
    cases out with
    | nil => cases hwritten
    | cons line below =>
        have hline : line ≠ [] := fun hempty => h.head (congrArg some hempty)
        rw [written_cons hline] at hwritten
        obtain ⟨rfl, -⟩ := List.cons.inj hwritten
        have habove : written [] = keptLines before := (keptLines_eq_nil hbefore).symm
        rw [layout_append hbefore, layout_of_kept hfirst, h.below_eq hfirst rfl habove rfl]

end IsLayoutOf

theorem isLayoutOf_iff : IsLayoutOf out lines ↔ out = layout lines :=
  ⟨IsLayoutOf.eq_layout, fun h => h ▸ isLayoutOf_layout lines⟩

/-! ### The layout of a layout -/

theorem layoutAfter_append_right (h : ∀ line ∈ after, isKept line = false)
    (lines : List (List Char)) :
    layoutAfter previous parted (lines ++ after) = layoutAfter previous parted lines := by
  induction lines generalizing previous parted with
  | nil => rw [List.nil_append, layoutAfter_eq_nil h]; rfl
  | cons line rest ih => rw [List.cons_append, layoutAfter, layoutAfter, ih, ih]

theorem isKept_nil : isKept [] = false := rfl

theorem gapBefore_gapBefore (previous : Option (List Char)) (parted : Bool) (line : List Char) :
    gapBefore previous ((gapBefore previous parted line).any (·.all isBlank)) line =
      gapBefore previous parted line := by
  cases previous with
  | none => rfl
  | some last =>
      cases parted with
      | false => simp [gapBefore, gap]
      | true =>
          simp only [gapBefore, gap, Bool.true_and]
          split <;> simp_all

theorem layoutAfter_layoutAfter (previous : Option (List Char)) (parted : Bool)
    (lines : List (List Char)) :
    layoutAfter previous false (layoutAfter previous parted lines) =
      layoutAfter previous parted lines := by
  induction lines generalizing previous parted with
  | nil => rfl
  | cons line rest ih =>
      cases hkept : isKept line with
      | true =>
          have hunkept : ∀ other ∈ gapBefore previous parted (trimEnd line), isKept other = false :=
            fun other hother => by rw [mem_gapBefore hother, isKept_nil]
          rw [layoutAfter_of_kept hkept, layoutAfter_append hunkept,
            layoutAfter_of_kept (isKept_trimEnd hkept), trimEnd_trimEnd, Bool.false_or,
            gapBefore_gapBefore, ih]
      | false =>
          rw [layoutAfter_of_not_kept hkept]
          exact ih _ _

/-! ### Texts in canonical layout -/

theorem joinLines_cons (line : List Char) (h : lines ≠ []) :
    joinLines (line :: lines) = line ++ '\n' :: joinLines lines := by
  rw [joinLines]
  exact h

theorem joinLines_eq_intercalate (lines : List (List Char)) :
    joinLines lines = ['\n'].intercalate lines := by
  induction lines with
  | nil => rfl
  | cons line rest ih =>
      cases rest with
      | nil => rw [List.intercalate_singleton, joinLines]
      | cons next more =>
          rw [joinLines_cons _ (List.cons_ne_nil next more), List.intercalate_cons_cons, ← ih,
            List.append_assoc, List.singleton_append]

theorem mem_joinLines {c : Char} (h : c ∈ joinLines lines) :
    c = '\n' ∨ ∃ line ∈ lines, c ∈ line := by
  rw [joinLines_eq_intercalate] at h
  exact (Text.mem_intercalate h).imp_left List.mem_singleton.mp

theorem mem_layout (h : line ∈ layout lines) :
    line = [] ∨ ∃ other ∈ lines, isKept other = true ∧ line = trimEnd other := by
  by_cases hline : line = []
  · exact .inl hline
  · have hmem : line ∈ written (layout lines) :=
      List.mem_filter.mpr ⟨h, by simpa using hline⟩
    rw [layout, written_layoutAfter] at hmem
    obtain ⟨other, hother, rfl⟩ := List.mem_map.mp hmem
    obtain ⟨hother, hkept⟩ := List.mem_filter.mp hother
    exact .inr ⟨other, hother, hkept, rfl⟩

theorem not_isPragma_of_mem_layout (h : line ∈ layout lines) : isPragma line = false := by
  rcases mem_layout h with rfl | ⟨other, _, hkept, rfl⟩
  · rfl
  · exact not_isPragma_of_isKept (isKept_trimEnd hkept)

theorem ends_of_mem_layout {text : List Char}
    (h : line ∈ layout (fields '\n' (unixEndings text))) : '\r' ∉ line ∧ '\n' ∉ line := by
  rcases mem_layout h with rfl | ⟨other, hother, _, rfl⟩
  · simp
  · have hends := ends_of_mem_fields hother
    exact ⟨fun hc => hends.1 (Text.mem_of_mem_dropEndWhile hc),
      fun hc => hends.2 (Text.mem_of_mem_dropEndWhile hc)⟩

theorem toList_normalize (text : String) : (normalize text).toList =
    joinLines (layout (fields '\n' (unixEndings text.toList))) ++ ['\n'] := by
  rw [normalize, String.toList_ofList, normalLines_eq]

theorem not_mem_normalize (text : String) : '\r' ∉ (normalize text).toList := by
  rw [toList_normalize, List.mem_append, not_or]
  refine ⟨fun hmem => ?_, by decide⟩
  rcases mem_joinLines hmem with hreturn | ⟨line, hline, hreturn⟩
  · exact absurd hreturn (by decide)
  · exact (ends_of_mem_layout hline).1 hreturn

/-- The lines of a text in its canonical layout, and what is behind the line feed at its end. -/
theorem fields_normalize (text : String) : ∃ blanks, (∀ line ∈ blanks, line = []) ∧
    fields '\n' (unixEndings (normalize text).toList) =
      layout (fields '\n' (unixEndings text.toList)) ++ blanks := by
  rw [Text.unixEndings_of_not_mem (not_mem_normalize text), toList_normalize,
    Text.fields_append_separator, joinLines_eq_intercalate]
  by_cases hnone : layout (fields '\n' (unixEndings text.toList)) = []
  · exact ⟨[[], []], by simp, by rw [hnone]; rfl⟩
  · refine ⟨[[]], by simp, ?_⟩
    rw [Text.fields_intercalate hnone fun line hline => (ends_of_mem_layout hline).2]
    rfl

theorem normalize_normalize (text : String) : normalize (normalize text) = normalize text := by
  obtain ⟨blanks, hblanks, hfields⟩ := fields_normalize text
  have hunkept : ∀ line ∈ blanks, isKept line = false :=
    fun line hline => by rw [hblanks line hline, isKept_nil]
  have hlayout : layout (layout (fields '\n' (unixEndings text.toList)) ++ blanks) =
      layout (fields '\n' (unixEndings text.toList)) :=
    (layoutAfter_append_right hunkept _).trans (layoutAfter_layoutAfter _ _ _)
  rw [normalize, normalLines_eq, hfields, hlayout, ← toList_normalize, String.ofList_toList]

/-- The text that `normalize` makes is the one in canonical layout, and it stays as it is. Of a text
in which no line is kept that is the line end alone. -/
theorem isCanonical_normalize (text : String) :
    (∀ s, s = normalize text ↔
      ∃ out, IsLayoutOf out (fields '\n' (unixEndings text.toList)) ∧
        s = String.ofList (joinLines out ++ ['\n'])) ∧
      normalize (normalize text) = normalize text := by
  refine ⟨fun s => ?_, normalize_normalize text⟩
  simp only [isLayoutOf_iff, exists_eq_left]
  rw [normalize, normalLines_eq]

/-- A line that switches warnings does not part its neighbours, blank lines about it do. -/
example : normalize "a \r\n#pragma warning disable 1\rb\n\t\n\nc\n\n\x7d\n\n" =
    "a\nb\n\nc\n\x7d\n" := by
  decide +kernel

end RouteLinks.Layout
