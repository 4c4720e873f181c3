import Mathlib.Data.List.Induction
import RouteLinks.Links.Assembly
import RouteLinks.Proofs.Text.Fields
/-!
# What a layout keeps

The canonical layout keeps the lines of a text, without the blanks at their ends, but for empty ones
and those that switch warnings. When a text is finished, lines that switch warnings go first, before
its line ends are made uniform; of what is left, the finished text has the same lines. A line that
begins with something else than a number sign is among them, whatever it ends with.
-/

namespace RouteLinks

namespace Text

theorem dropEndWhile_concat (p : Char → Bool) (cs : List Char) (c : Char) :
    dropEndWhile p (cs ++ [c]) = if p c then dropEndWhile p cs else cs ++ [c] := by
  rw [dropEndWhile, List.reverse_append, List.reverse_singleton, List.singleton_append,
    List.dropWhile_cons]
  split
  · rfl
  · simp

theorem mem_of_mem_dropEndWhile {p : Char → Bool} {cs : List Char} {c : Char}
    (h : c ∈ dropEndWhile p cs) : c ∈ cs :=
  List.mem_reverse.mp ((List.dropWhile_sublist p).mem (List.mem_reverse.mp h))

theorem dropEndWhile_dropEndWhile (p : Char → Bool) (cs : List Char) :
    dropEndWhile p (dropEndWhile p cs) = dropEndWhile p cs := by
  induction cs using List.reverseRecOn with
  | nil => rfl
  | append_singleton cs c ih =>
      rw [dropEndWhile_concat]
      split
      · exact ih
      · next hc => rw [dropEndWhile_concat, if_neg hc]

end Text

namespace Layout

open Text (fields unixEndings trimEnd)

variable {line : List Char} {lines above : List (List Char)}

/-- Lines read off a text, where each line of the text counts for itself. -/
structure LineWise (f : List Char → List (List Char)) : Prop where
  nil : f [] = []
  append : ∀ xs ys, f (xs ++ '\n' :: ys) = f xs ++ f ys

namespace LineWise

variable {f : List Char → List (List Char)}

theorem concat (h : LineWise f) (xs : List Char) : f (xs ++ ['\n']) = f xs := by
  rw [h.append, h.nil, List.append_nil]

theorem joinLines (h : LineWise f) (lines : List (List Char)) :
    f (Layout.joinLines lines) = lines.flatMap f := by
  induction lines with
  | nil => exact h.nil
  | cons line rest ih =>
      cases rest with
      | nil => simp [Layout.joinLines]
      | cons next more =>
          show f (line ++ '\n' :: Layout.joinLines (next :: more)) = _
          rw [h.append, ih]
          rfl

theorem dropEndWhile (h : LineWise f) (text : List Char) :
    f (Text.dropEndWhile (· == '\n') text) = f text := by
  induction text using List.reverseRecOn with
  | nil => rfl
  | append_singleton text c ih =>
      rw [Text.dropEndWhile_concat]
      split
      · next hc => rw [beq_iff_eq.mp hc, ih, h.concat]
      · rfl

theorem dropWhile_isEmpty (h : LineWise f) (lines : List (List Char)) :
    (lines.dropWhile List.isEmpty).reverse.flatMap f = lines.reverse.flatMap f := by
  induction lines with
  | nil => rfl
  | cons line rest ih =>
      rw [List.dropWhile_cons]
      split
      · next hempty =>
        rw [ih, List.reverse_cons, List.flatMap_append, List.isEmpty_iff.mp hempty]
        simp [h.nil]
      · rfl

end LineWise

/-! ### Lines that are kept -/

def kept (text : List Char) : List (List Char) :=
  ((fields '\n' (unixEndings text)).map trimEnd).filter fun line => !isPragma line && !line.isEmpty

theorem kept_lineWise : LineWise kept where
  nil := by decide
  append xs ys := by
    rcases Text.unixEndings_append_lineFeed xs ys with h | ⟨front, hfront, h⟩
    · rw [kept, kept, kept, h, Text.fields_append_separator, List.map_append, List.filter_append]
    · rw [kept, kept, kept, h, hfront, Text.fields_append_separator, Text.fields_append_separator]
      simp [fields, trimEnd, Text.dropEndWhile]

theorem kept_of_not_mem (hreturn : '\r' ∉ line) (hlineFeed : '\n' ∉ line) :
    kept line =
      if isPragma (trimEnd line) || (trimEnd line).isEmpty then [] else [trimEnd line] := by
  rw [kept, Text.unixEndings_of_not_mem hreturn, Text.fields_of_not_mem hlineFeed]
  cases hpragma : isPragma (trimEnd line) <;> cases hempty : (trimEnd line).isEmpty <;>
    simp [hpragma, hempty]

theorem flatMap_kept (h : ∀ line ∈ lines, '\r' ∉ line ∧ '\n' ∉ line) :
    lines.flatMap kept =
      (lines.map trimEnd).filter fun line => !isPragma line && !line.isEmpty := by
  induction lines with
  | nil => rfl
  | cons line rest ih =>
      obtain ⟨hreturn, hlineFeed⟩ := h line List.mem_cons_self
      rw [List.flatMap_cons, ih fun other hother => h other (List.mem_cons_of_mem _ hother),
        kept_of_not_mem hreturn hlineFeed, List.map_cons, List.filter_cons]
      cases isPragma (trimEnd line) <;> cases (trimEnd line).isEmpty <;> rfl

theorem ends_of_mem_fields {text : List Char} (h : line ∈ fields '\n' (unixEndings text)) :
    '\r' ∉ line ∧ '\n' ∉ line :=
  ⟨fun hc => Text.not_mem_unixEndings text (Text.mem_of_mem_fields h hc).1,
    fun hc => (Text.mem_of_mem_fields h hc).2 rfl⟩

def finished (text : List Char) : List (List Char) :=
  ((fields '\n' text).filter (!isPragma ·)).flatMap kept

theorem finished_lineWise : LineWise finished where
  nil := by decide
  append xs ys := by
    rw [finished, Text.fields_append_separator, List.filter_append, List.flatMap_append]
    rfl

theorem finished_of_not_mem (h : '\n' ∉ line) :
    finished line = if isPragma line then [] else kept line := by
  rw [finished, Text.fields_of_not_mem h]
  cases hpragma : isPragma line <;> simp [hpragma]

/-! ### Lines that stay -/

/-- The beginning of a line that switches no warnings and is not blank. -/
structure Opens (front : List Char) : Prop where
  noReturn : '\r' ∉ front
  noLineFeed : '\n' ∉ front
  first : ∃ blanks c rest, front = blanks ++ c :: rest ∧ (∀ b ∈ blanks, Text.isBlank b = true) ∧
    Text.isBlank c = false ∧ c ≠ '#'

/-- How many more lines the rest of a line becomes when line ends are made uniform. -/
def further (rest : List Char) : Nat :=
  (((fields '\n' (unixEndings rest)).tail.map trimEnd).filter
    fun line => !isPragma line && !line.isEmpty).length

theorem trimEnd_append_cons {c : Char} (hc : Text.isBlank c = false) (before rest : List Char) :
    trimEnd (before ++ c :: rest) = before ++ c :: trimEnd rest := by
  induction rest using List.reverseRecOn with
  | nil => exact (Text.dropEndWhile_concat _ _ _).trans (if_neg (by simp [hc]))
  | append_singleton rest d ih =>
      have hassoc : before ++ c :: (rest ++ [d]) = (before ++ c :: rest) ++ [d] := by simp
      rw [hassoc, trimEnd, trimEnd, Text.dropEndWhile_concat, Text.dropEndWhile_concat]
      split
      · exact ih
      · exact hassoc.symm

theorem isPragma_append_cons {blanks : List Char} (h : ∀ b ∈ blanks, Text.isBlank b = true)
    {c : Char} (hc : Text.isBlank c = false) (hsign : c ≠ '#') (rest : List Char) :
    isPragma (blanks ++ c :: rest) = false := by
  have htrim : Text.trimStart (blanks ++ c :: rest) = c :: rest := by
    rw [Text.trimStart, List.dropWhile_append_of_pos h, List.dropWhile_cons_of_neg (by simp [hc])]
  have hword : afterWord? "#pragma" (c :: rest) = none := by
    refine if_neg ?_
    simp [Ne.symm hsign]
  rw [isPragma, htrim, hword]
  rfl

theorem Opens.length_finished {front rest : List Char} (h : Opens front) (hrest : '\n' ∉ rest) :
    (finished (front ++ rest)).length = further rest + 1 := by
  obtain ⟨blanks, c, more, hfront, hblanks, hc, hsign⟩ := h.first
  have happend : ∀ ys, front ++ ys = blanks ++ c :: (more ++ ys) := by simp [hfront]
  have hpragma : ∀ ys, isPragma (blanks ++ c :: ys) = false :=
    isPragma_append_cons hblanks hc hsign
  have hline : '\n' ∉ front ++ rest := by
    rw [List.mem_append, not_or]
    exact ⟨h.noLineFeed, hrest⟩
  rw [finished_of_not_mem hline, happend, hpragma, if_neg Bool.false_ne_true, ← happend, kept,
    Text.unixEndings_append_of_not_mem h.noReturn, further]
  cases hfields : fields '\n' (unixEndings rest) with
  | nil => exact absurd hfields (Text.fields_ne_nil _ _)
  | cons first others =>
      rw [Text.fields_append_of_not_mem h.noLineFeed hfields, happend, List.map_cons,
        trimEnd_append_cons hc, List.filter_cons, hpragma]
      simp

/-! ### Canonical layout -/

theorem finished_trimEnd (hreturn : '\r' ∉ line) (hlineFeed : '\n' ∉ line) :
    finished (trimEnd line) = kept line := by
  have hreturn' : '\r' ∉ trimEnd line := fun hc => hreturn (Text.mem_of_mem_dropEndWhile hc)
  have hlineFeed' : '\n' ∉ trimEnd line := fun hc => hlineFeed (Text.mem_of_mem_dropEndWhile hc)
  have htwice : trimEnd (trimEnd line) = trimEnd line := Text.dropEndWhile_dropEndWhile _ _
  rw [finished_of_not_mem hlineFeed', kept_of_not_mem hreturn' hlineFeed', htwice,
    kept_of_not_mem hreturn hlineFeed]
  cases isPragma (trimEnd line) <;> rfl

theorem flatMap_finished_addLine (above : List (List Char)) (hreturn : '\r' ∉ line)
    (hlineFeed : '\n' ∉ line) :
    (addLine above line).reverse.flatMap finished =
      above.reverse.flatMap finished ++ kept line := by
  have hkept := kept_of_not_mem hreturn hlineFeed
  have hline := finished_trimEnd hreturn hlineFeed
  simp only [addLine]
  cases hpragma : isPragma (trimEnd line) with
  | true => simp [hkept, hpragma]
  | false =>
      cases hempty : (trimEnd line).isEmpty with
      | true =>
          have hnothing : kept line = [] := by simp [hkept, hempty]
          simp only [hnothing, List.append_nil, Bool.false_eq_true, if_false, if_true]
          split
          · split
            · rfl
            · simp [finished_lineWise.nil]
          · rfl
      | false =>
          simp only [Bool.false_eq_true, if_false]
          split
          · rw [List.reverse_cons, List.flatMap_append, finished_lineWise.dropWhile_isEmpty]
            simp [hline]
          · simp [hline]

theorem finished_normalize (text : String) :
    finished (normalize text).toList = kept text.toList := by
  have hfold : ∀ lines above : List (List Char), (∀ line ∈ lines, '\r' ∉ line ∧ '\n' ∉ line) →
      (lines.foldl addLine above).reverse.flatMap finished =
        above.reverse.flatMap finished ++ lines.flatMap kept := by
    intro lines
    induction lines with
    | nil => simp
    | cons line rest ih =>
        intro above h
        obtain ⟨hreturn, hlineFeed⟩ := h line List.mem_cons_self
        rw [List.foldl_cons, ih _ fun other hother => h other (List.mem_cons_of_mem _ hother),
          flatMap_finished_addLine above hreturn hlineFeed, List.flatMap_cons, List.append_assoc]
  have hlines : ∀ line ∈ fields '\n' (unixEndings text.toList), '\r' ∉ line ∧ '\n' ∉ line :=
    fun line hline => ends_of_mem_fields hline
  rw [normalize, String.toList_ofList, finished_lineWise.concat, finished_lineWise.joinLines,
    normalLines, finished_lineWise.dropWhile_isEmpty, hfold _ _ hlines, flatMap_kept hlines]
  rfl

/-! ### The region without warnings -/

theorem kept_withPragmas (text : String) :
    kept (withPragmas text silencedWarnings).toList = finished text.toList := by
  have hdisable : kept ("#pragma warning disable ".toList ++
      (", ".intercalate silencedWarnings).toList) = [] := by decide +kernel
  have hrestore : kept ("#pragma warning restore ".toList ++
      (", ".intercalate silencedWarnings).toList) = [] := by decide +kernel
  have hcodes : silencedWarnings.isEmpty = false := rfl
  rw [withPragmas, hcodes, if_neg Bool.false_ne_true]
  simp only [String.toList_ofList]
  rw [kept_lineWise.concat, kept_lineWise.joinLines]
  simp only [List.flatMap_append, List.flatMap_cons, List.cons_append, List.flatMap_nil, hdisable,
    hrestore, List.append_nil, List.nil_append]
  rw [← List.flatMap_append, List.takeWhile_append_dropWhile, ← finished_lineWise.dropEndWhile]
  rfl

end Layout

/-- A finished file has the lines of what was written. -/
theorem CompilationUnit.kept_finish (unit : CompilationUnit) :
    Layout.kept unit.finish.toList = Layout.finished unit.render.toList := by
  rw [finish, Layout.kept_withPragmas, Layout.finished_normalize, Layout.kept_withPragmas]

end RouteLinks
