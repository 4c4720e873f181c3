import RouteLinks.Proofs.Emit.Canonical
/-!
# The region without warnings

A finished text has one region without warnings: the line that switches them off stands behind the
banner, the line that switches them on again is the last. Its lines but these two are those of the
canonical layout. Taking the two lines out and putting them in again gives the same text, since they
are put where the banner ends, and neither the layout nor the lines themselves move that place.
-/

namespace RouteLinks

namespace Layout

open Text (fields unixEndings dropEndWhile)

variable {codes : List String} {line : List Char} {lines : List (List Char)}

/-! ### The two lines -/

def codeList (codes : List String) : List Char := (", ".intercalate codes).toList

def disableLine (codes : List String) : List Char :=
  "#pragma warning disable ".toList ++ codeList codes

def restoreLine (codes : List String) : List Char :=
  "#pragma warning restore ".toList ++ codeList codes

def switchLine (word : String) (codes : List String) : List Char :=
  "#pragma warning ".toList ++ (word.toList ++ ' ' :: codeList codes)

theorem disableLine_eq (codes : List String) : disableLine codes = switchLine "disable" codes := by
  have hline : "#pragma warning disable ".toList =
      "#pragma warning ".toList ++ ("disable".toList ++ [' ']) := by
    decide
  refine (congrArg (· ++ codeList codes) hline).trans ?_
  exact (List.append_assoc _ _ _).trans (congrArg _ (List.append_assoc _ _ _))

theorem restoreLine_eq (codes : List String) : restoreLine codes = switchLine "restore" codes := by
  have hline : "#pragma warning restore ".toList =
      "#pragma warning ".toList ++ ("restore".toList ++ [' ']) := by
    decide
  refine (congrArg (· ++ codeList codes) hline).trans ?_
  exact (List.append_assoc _ _ _).trans (congrArg _ (List.append_assoc _ _ _))

theorem switches_switchLine {word other : String} (hword : word ∈ switchWords)
    (hother : other ∈ switchWords) (codes : List String) :
    switches word (switchLine other codes) = (word == other) := by
  have hspace : ∀ b ∈ [' '], Text.isBlank b = true := List.forall_mem_singleton.mpr (by decide)
  generalize hrest : other.toList ++ ' ' :: codeList codes = rest
  have hhead : ∀ c ∈ rest.head?, Text.isBlank c = false := by
    obtain ⟨c, more, hc, hblank⟩ := (isSolid_of_mem hother).first
    simp [← hrest, hc, hblank]
  have hwarning : afterWord? "warning" ("warning ".toList ++ rest) = some rest :=
    afterWord?_eq_some_iff.mpr ⟨[' '], by simp, hspace, by simp, hhead⟩
  have hpragma : afterWord? "#pragma" ("#pragma warning ".toList ++ rest) =
      some ("warning ".toList ++ rest) :=
    afterWord?_eq_some_iff.mpr ⟨[' '], by simp, hspace, by simp, by simp; decide⟩
  have hmargin : Text.trimStart ("#pragma warning ".toList ++ rest) =
      "#pragma warning ".toList ++ rest := by
    simp [Text.trimStart, show Text.isBlank '#' = false by decide]
  have hswitches : switches word ("#pragma warning ".toList ++ rest) =
      startsWithWord word rest := by
    rw [switches, hmargin, hpragma, Option.bind_some, hwarning]
  have hline : switchLine other codes = "#pragma warning ".toList ++ rest :=
    congrArg _ hrest
  rw [hline, hswitches, ← hrest]
  simp only [switchWords, List.mem_cons, List.not_mem_nil, or_false] at hword hother
  obtain rfl | rfl := hword <;> obtain rfl | rfl := hother <;>
    simp [startsWithWord] <;> decide

theorem isPragma_switchLine {word : String} (h : word ∈ switchWords) (codes : List String) :
    isPragma (switchLine word codes) = true := by
  rw [isPragma_eq, switches_switchLine (by decide) h, switches_switchLine (by decide) h]
  simp only [switchWords, List.mem_cons, List.not_mem_nil, or_false] at h
  obtain rfl | rfl := h <;> decide

/-! ### The lines in a region -/

/-- The lines of a text that switch no warnings. Line feeds at the end of the text do not count. -/
def unswitched (text : List Char) : List (List Char) :=
  (fields '\n' (dropEndWhile (· == '\n') text)).filter (!isPragma ·)

def region (codes : List String) (lines : List (List Char)) : List (List Char) :=
  lines.takeWhile isBanner ++ disableLine codes :: (lines.dropWhile isBanner ++ [restoreLine codes])

theorem not_isPragma_of_mem_unswitched {text : List Char} (h : line ∈ unswitched text) :
    isPragma line = false := by
  simpa using (List.mem_filter.mp h).2

theorem toList_withPragmas (h : codes ≠ []) (text : String) :
    (withPragmas text codes).toList =
      joinLines (region codes (unswitched text.toList)) ++ ['\n'] := by
  have hcodes : codes.isEmpty = false := by simpa using h
  rw [withPragmas, hcodes, if_neg Bool.false_ne_true, String.toList_ofList]
  rfl

theorem filter_region (h : ∀ line ∈ lines, isPragma line = false) :
    (region codes lines).filter (!isPragma ·) = lines := by
  have hlines : lines.filter (!isPragma ·) = lines :=
    List.filter_eq_self.mpr fun line hline => by rw [h line hline]; rfl
  have hdisable : isPragma (disableLine codes) = true := by
    rw [disableLine_eq, isPragma_switchLine (by decide)]
  have hrestore : isPragma (restoreLine codes) = true := by
    rw [restoreLine_eq, isPragma_switchLine (by decide)]
  rw [region, List.filter_append, List.filter_cons, List.filter_append, hdisable]
  simp only [Bool.not_true, Bool.false_eq_true, if_false, List.filter_cons, hrestore,
    List.filter_nil, List.append_nil]
  rw [← List.filter_append, List.takeWhile_append_dropWhile, hlines]

theorem mem_region (h : line ∈ region codes lines) :
    line ∈ lines ∨ line = disableLine codes ∨ line = restoreLine codes := by
  rw [region, List.mem_append, List.mem_cons, List.mem_append, List.mem_singleton] at h
  rcases h with h | h | h | h
  · exact .inl ((List.takeWhile_sublist _).mem h)
  · exact .inr (.inl h)
  · exact .inl ((List.dropWhile_sublist _).mem h)
  · exact .inr (.inr h)

/-! ### The text of a region -/

theorem not_mem_directives {c : Char} (h : ∀ code ∈ codes, c ∉ code.toList)
    (hc : c = '\n' ∨ c = '\r') : c ∉ disableLine codes ∧ c ∉ restoreLine codes := by
  have hcodes : c ∉ codeList codes :=
    Text.not_mem_intercalate (by rcases hc with rfl | rfl <;> decide) h
  have hdisable : c ∉ "#pragma warning disable ".toList := by
    rcases hc with rfl | rfl <;> decide
  have hrestore : c ∉ "#pragma warning restore ".toList := by
    rcases hc with rfl | rfl <;> decide
  exact ⟨fun hmem => (List.mem_append.mp hmem).elim hdisable hcodes,
    fun hmem => (List.mem_append.mp hmem).elim hrestore hcodes⟩

theorem mem_of_mem_unswitched {text : List Char} (h : line ∈ unswitched text) {c : Char}
    (hc : c ∈ line) : c ∈ text ∧ c ≠ '\n' := by
  have hfield := Text.mem_of_mem_fields (List.mem_filter.mp h).1 hc
  exact ⟨Text.mem_of_mem_dropEndWhile hfield.1, hfield.2⟩

theorem not_lineFeed_of_mem_region (h : ∀ code ∈ codes, '\n' ∉ code.toList) (text : List Char)
    (hline : line ∈ region codes (unswitched text)) : '\n' ∉ line := by
  obtain ⟨hdisable, hrestore⟩ := not_mem_directives h (.inl rfl)
  rcases mem_region hline with hline | rfl | rfl
  · exact fun hc => (mem_of_mem_unswitched hline hc).2 rfl
  · exact hdisable
  · exact hrestore

theorem region_ne_nil (codes : List String) (lines : List (List Char)) :
    region codes lines ≠ [] := by
  simp [region]

theorem fields_region (h : ∀ code ∈ codes, '\n' ∉ code.toList) (text : List Char) :
    fields '\n' (joinLines (region codes (unswitched text))) = region codes (unswitched text) := by
  rw [joinLines_eq_intercalate]
  exact Text.fields_intercalate (region_ne_nil _ _) fun _ => not_lineFeed_of_mem_region h text

theorem fields_withPragmas (hne : codes ≠ []) (h : ∀ code ∈ codes, '\n' ∉ code.toList)
    (text : String) : fields '\n' (withPragmas text codes).toList =
      region codes (unswitched text.toList) ++ [[]] := by
  rw [toList_withPragmas hne, Text.fields_append_separator, fields_region h]
  rfl

theorem exists_joinLines_concat (lines : List (List Char)) (line : List Char) :
    ∃ front, joinLines (lines ++ [line]) = front ++ line := by
  induction lines with
  | nil => exact ⟨[], rfl⟩
  | cons first rest ih =>
      obtain ⟨front, hfront⟩ := ih
      refine ⟨first ++ '\n' :: front, ?_⟩
      rw [List.cons_append, joinLines_cons _ (by simp), hfront, List.append_assoc, List.cons_append]

theorem dropEndWhile_joinLines (hne : line ≠ []) (hline : '\n' ∉ line) (lines : List (List Char)) :
    dropEndWhile (· == '\n') (joinLines (lines ++ [line]) ++ ['\n']) =
      joinLines (lines ++ [line]) := by
  obtain ⟨front, hfront⟩ := exists_joinLines_concat lines line
  have hlast : line.getLast hne ≠ '\n' := fun h => hline (h ▸ List.getLast_mem hne)
  rw [hfront, Text.dropEndWhile_concat, if_pos (beq_self_eq_true _),
    ← List.dropLast_concat_getLast hne, ← List.append_assoc, Text.dropEndWhile_concat,
    if_neg (by simpa using hlast)]

/-- Out of a text in a region the same lines are taken as out of the text. -/
theorem unswitched_withPragmas (hne : codes ≠ []) (h : ∀ code ∈ codes, '\n' ∉ code.toList)
    (text : String) : unswitched (withPragmas text codes).toList = unswitched text.toList := by
  have hlines : ∀ line ∈ unswitched text.toList, isPragma line = false :=
    fun _ => not_isPragma_of_mem_unswitched
  have hrestore : restoreLine codes ≠ [] := by
    intro hempty
    have hpragma : isPragma (switchLine "restore" codes) = true :=
      isPragma_switchLine (by decide) codes
    rw [← restoreLine_eq, hempty] at hpragma
    cases hpragma
  have hend : dropEndWhile (· == '\n') (withPragmas text codes).toList =
      joinLines (region codes (unswitched text.toList)) := by
    rw [toList_withPragmas hne, region, ← List.cons_append, ← List.append_assoc]
    exact dropEndWhile_joinLines hrestore (not_mem_directives h (.inl rfl)).2 _
  rw [unswitched, hend, fields_region h, filter_region hlines]

/-- The region of a text is found again where it is. -/
theorem withPragmas_withPragmas (hne : codes ≠ []) (h : ∀ code ∈ codes, '\n' ∉ code.toList)
    (text : String) : withPragmas (withPragmas text codes) codes = withPragmas text codes := by
  rw [← String.toList_inj, toList_withPragmas hne (withPragmas text codes),
    unswitched_withPragmas hne h, toList_withPragmas hne]

/-! ### One region -/

/-- A text with one region without warnings, which begins behind the banner and goes to the end. -/
structure HasOneRegion (text : String) : Prop where
  disable : (fields '\n' text.toList).countP (switches "disable") = 1
  restore : (fields '\n' text.toList).countP (switches "restore") = 1
  place : ∃ banner body first last,
    fields '\n' text.toList = banner ++ first :: (body ++ [last, []]) ∧
      switches "disable" first = true ∧ switches "restore" last = true ∧
        ∀ line ∈ banner, isBanner line = true

theorem countP_region {word : String} (hword : word ∈ switchWords)
    (h : ∀ line ∈ lines, isPragma line = false) :
    (region codes lines ++ [[]]).countP (switches word) = 1 := by
  have hdisable : switches word (disableLine codes) = (word == "disable") := by
    rw [disableLine_eq, switches_switchLine hword (by decide)]
  have hrestore : switches word (restoreLine codes) = (word == "restore") := by
    rw [restoreLine_eq, switches_switchLine hword (by decide)]
  simp only [switchWords, List.mem_cons, List.not_mem_nil, or_false] at hword
  have hnone : ∀ line, isPragma line = false → switches word line = false := by
    intro line hline
    rw [isPragma_eq, Bool.or_eq_false_iff] at hline
    rcases hword with rfl | rfl
    · exact hline.1
    · exact hline.2
  have hcount : ∀ part : List (List Char), part.Sublist lines → part.countP (switches word) = 0 :=
    fun part hpart => List.countP_eq_zero.mpr fun line hline => by
      simp [hnone line (h line (hpart.mem hline))]
  rw [region, List.countP_append, List.countP_append, List.countP_cons, List.countP_append,
    hcount _ (List.takeWhile_sublist _), hcount _ (List.dropWhile_sublist _)]
  simp only [List.countP_singleton, hnone [] rfl, hdisable, hrestore]
  rcases hword with rfl | rfl <;> decide

theorem hasOneRegion_withPragmas (hne : codes ≠ []) (h : ∀ code ∈ codes, '\n' ∉ code.toList)
    (text : String) : HasOneRegion (withPragmas text codes) where
  disable := by
    rw [fields_withPragmas hne h]
    exact countP_region (by decide) fun _ => not_isPragma_of_mem_unswitched
  restore := by
    rw [fields_withPragmas hne h]
    exact countP_region (by decide) fun _ => not_isPragma_of_mem_unswitched
  place := by
    have hdisable : switches "disable" (disableLine codes) = true := by
      rw [disableLine_eq, switches_switchLine (by decide) (by decide), beq_self_eq_true]
    have hrestore : switches "restore" (restoreLine codes) = true := by
      rw [restoreLine_eq, switches_switchLine (by decide) (by decide), beq_self_eq_true]
    refine ⟨(unswitched text.toList).takeWhile isBanner,
      (unswitched text.toList).dropWhile isBanner, disableLine codes, restoreLine codes, ?_,
      hdisable, hrestore, fun _ => List.mem_takeWhile_imp⟩
    rw [fields_withPragmas hne h, region, List.append_assoc, List.cons_append, List.append_assoc]
    rfl

/-! ### Out of the layout and into it -/

def withoutSwitches (text : String) : String :=
  String.ofList (joinLines ((fields '\n' text.toList).filter (!isPragma ·)))

/-- Lines that switch warnings are not seen by the layout. -/
theorem layoutAfter_filter (previous : Option (List Char)) (parted : Bool)
    (lines : List (List Char)) :
    layoutAfter previous parted (lines.filter (!isPragma ·)) =
      layoutAfter previous parted lines := by
  induction lines generalizing previous parted with
  | nil => rfl
  | cons line rest ih =>
      cases hline : isPragma line with
      | true =>
          have hkept : isKept line = false := by
            rw [isKept, hline, Bool.not_true, Bool.and_false]
          have hblank : line.all Text.isBlank = false := by
            rw [← Bool.not_eq_true]
            intro hblank
            rw [isPragma_of_blank hblank] at hline
            cases hline
          rw [List.filter_cons_of_neg (by simp [hline]), layoutAfter_of_not_kept hkept, hblank,
            Bool.or_false, ih]
      | false => rw [List.filter_cons_of_pos (by simp [hline]), layoutAfter, layoutAfter, ih, ih]

theorem exists_fields_dropEndWhile (text : List Char) : ∃ blanks : List (List Char),
    (∀ line ∈ blanks, line = []) ∧
      fields '\n' text = fields '\n' (dropEndWhile (· == '\n') text) ++ blanks := by
  induction text using List.reverseRecOn with
  | nil => exact ⟨[], by simp, rfl⟩
  | append_singleton text c ih =>
      rw [Text.dropEndWhile_concat]
      split
      · next hc =>
        obtain ⟨blanks, hblanks, htext⟩ := ih
        refine ⟨blanks ++ [[]], ?_, ?_⟩
        · simpa [or_imp, forall_and] using hblanks
        · rw [beq_iff_eq.mp hc, Text.fields_append_separator, htext, List.append_assoc]
          rfl
      · exact ⟨[], by simp, (List.append_nil _).symm⟩

theorem layout_unswitched (text : List Char) :
    layout (unswitched text) = layout (fields '\n' text) := by
  obtain ⟨blanks, hblanks, htext⟩ := exists_fields_dropEndWhile text
  have hunkept : ∀ line ∈ blanks, isKept line = false :=
    fun line hline => by rw [hblanks line hline, isKept_nil]
  rw [unswitched, layout, layout, layoutAfter_filter, htext, layoutAfter_append_right hunkept]

/-- A text with uniform line ends has the same canonical layout in a region. -/
theorem normalize_withPragmas (hne : codes ≠ [])
    (hcodes : ∀ code ∈ codes, '\n' ∉ code.toList ∧ '\r' ∉ code.toList) {text : String}
    (htext : '\r' ∉ text.toList) : normalize (withPragmas text codes) = normalize text := by
  have hlineFeed : ∀ code ∈ codes, '\n' ∉ code.toList := fun code hcode => (hcodes code hcode).1
  have hreturn : '\r' ∉ (withPragmas text codes).toList := by
    obtain ⟨hdisable, hrestore⟩ :=
      not_mem_directives (fun code hcode => (hcodes code hcode).2) (.inr rfl)
    rw [toList_withPragmas hne, List.mem_append, not_or]
    refine ⟨fun hmem => ?_, by decide⟩
    rcases mem_joinLines hmem with hc | ⟨line, hline, hc⟩
    · exact absurd hc (by decide)
    · rcases mem_region hline with hline | rfl | rfl
      · exact htext (mem_of_mem_unswitched hline hc).1
      · exact hdisable hc
      · exact hrestore hc
  have hlayout : layout (fields '\n' (withPragmas text codes).toList) =
      layout (fields '\n' text.toList) := by
    rw [← layout_unswitched, unswitched_withPragmas hne hlineFeed, layout_unswitched]
  rw [normalize, normalize, normalLines_eq, normalLines_eq, Text.unixEndings_of_not_mem hreturn,
    Text.unixEndings_of_not_mem htext, hlayout]

theorem unswitched_normalize (text : String) : ∃ body, (normalize text).toList = body ++ ['\n'] ∧
    unswitched (normalize text).toList = fields '\n' body := by
  rw [toList_normalize]
  generalize hlines : fields '\n' (unixEndings text.toList) = lines
  have hends : ∀ line ∈ layout lines, '\n' ∉ line := by
    rw [← hlines]
    exact fun line hline => (ends_of_mem_layout hline).2
  refine ⟨joinLines (layout lines), rfl, ?_⟩
  rcases List.eq_nil_or_concat' (layout lines) with hnone | ⟨front, line, hlayout⟩
  · rw [hnone]
    rfl
  · have hmem : line ∈ layout lines := by
      rw [hlayout]
      simp
    have hne : line ≠ [] := by
      intro hempty
      have hlast := (isLayoutOf_layout lines).last
      rw [hlayout, List.getLast?_concat, hempty] at hlast
      exact hlast rfl
    have hfields : fields '\n' (joinLines (layout lines)) = layout lines := by
      rw [joinLines_eq_intercalate]
      exact Text.fields_intercalate (List.ne_nil_of_mem hmem) hends
    have hend : dropEndWhile (· == '\n') (joinLines (layout lines) ++ ['\n']) =
        joinLines (layout lines) := by
      rw [hlayout]
      exact dropEndWhile_joinLines hne (hends line hmem) front
    rw [unswitched, hend, hfields]
    exact List.filter_eq_self.mpr fun other hother => by
      rw [not_isPragma_of_mem_layout hother]
      rfl

/-- What a region was put into comes out again, if it was in its canonical layout. -/
theorem withoutSwitches_withPragmas (hne : codes ≠ []) (h : ∀ code ∈ codes, '\n' ∉ code.toList)
    (text : String) : withoutSwitches (withPragmas (normalize text) codes) = normalize text := by
  have hlines : ∀ line ∈ unswitched (normalize text).toList, isPragma line = false :=
    fun _ => not_isPragma_of_mem_unswitched
  obtain ⟨body, hbody, hunswitched⟩ := unswitched_normalize text
  have hfields : unswitched (normalize text).toList ++ [[]] =
      fields '\n' (normalize text).toList := by
    rw [hunswitched, hbody, Text.fields_append_separator]
    rfl
  have hempty : [([] : List Char)].filter (!isPragma ·) = [[]] := rfl
  rw [withoutSwitches, fields_withPragmas hne h, List.filter_append, filter_region hlines, hempty,
    hfields, joinLines_eq_intercalate, Text.intercalate_fields, String.ofList_toList]

theorem silencedWarnings_ends :
    ∀ code ∈ silencedWarnings, '\n' ∉ code.toList ∧ '\r' ∉ code.toList := by
  decide

end Layout

open Layout

/-- A finished text has one region without warnings, with the canonical layout of what was written
in it, and comes back when it is brought to its canonical layout and finished again. A region that
is put around a text again stays where it is, whatever the text is. -/
theorem CompilationUnit.finish_stable :
    (∀ unit : CompilationUnit, HasOneRegion unit.finish ∧
      ('\r' ∉ unit.render.toList → withoutSwitches unit.finish = normalize unit.render) ∧
      withPragmas (normalize unit.finish) silencedWarnings = unit.finish) ∧
    ∀ text codes, codes ≠ [] → (∀ code ∈ codes, '\n' ∉ code.toList) →
      withPragmas (withPragmas text codes) codes = withPragmas text codes := by
  have hne : silencedWarnings ≠ [] := by decide
  have hlineFeed : ∀ code ∈ silencedWarnings, '\n' ∉ code.toList :=
    fun code hcode => (silencedWarnings_ends code hcode).1
  constructor
  · intro unit
    -- the second pass drops the region of the first, the third puts it back
    have hfinish : unit.finish =
        withPragmas (normalize (withPragmas unit.render silencedWarnings)) silencedWarnings := rfl
    refine ⟨hasOneRegion_withPragmas hne hlineFeed _, ?_, ?_⟩
    · intro hreturn
      rw [hfinish, withoutSwitches_withPragmas hne hlineFeed,
        normalize_withPragmas hne silencedWarnings_ends hreturn]
    · rw [hfinish, normalize_withPragmas hne silencedWarnings_ends (not_mem_normalize _),
        normalize_normalize]
  · exact fun text codes hcodes h => withPragmas_withPragmas hcodes h text

def switchingUnit : CompilationUnit :=
  { header := "// Made by hand."
    members := [.raw "int a;  \n#pragma warning disable 5\n\n\nint b;"] }

/-- A declaration that switches warnings itself, and a text of one line that does. -/
theorem CompilationUnit.finish_stable_own_switches :
    '\r' ∉ switchingUnit.render.toList ∧
      withoutSwitches switchingUnit.finish = normalize switchingUnit.render ∧
      normalize switchingUnit.render = "// Made by hand.\n\nint a;\n\nint b;\n" ∧
      (∀ code ∈ ["CS1591", "5"], '\n' ∉ code.toList) ∧
      withPragmas "#pragma warning restore 5" ["CS1591", "5"] =
        "#pragma warning disable CS1591, 5\n#pragma warning restore CS1591, 5\n" ∧
      withPragmas (withPragmas "#pragma warning restore 5" ["CS1591", "5"]) ["CS1591", "5"] =
        withPragmas "#pragma warning restore 5" ["CS1591", "5"] := by
  have hreturn : '\r' ∉ switchingUnit.render.toList := by decide +kernel
  have hcodes : ∀ code ∈ ["CS1591", "5"], '\n' ∉ code.toList := by decide
  exact ⟨hreturn, (finish_stable.1 switchingUnit).2.1 hreturn, by decide +kernel, hcodes,
    by decide +kernel, finish_stable.2 _ _ (by decide) hcodes⟩

end RouteLinks
