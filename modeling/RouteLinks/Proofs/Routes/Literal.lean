import RouteLinks.Routes.Literal
/-!
# Emitted literals

A text that is written as a regular literal is read back as itself, whatever its characters are, and
so is one that is written as a verbatim literal. Different texts have different literals.
-/

namespace RouteLinks

theorem Quoted.unescape_escape (cs : List Char) : Quoted.unescape (Quoted.escape cs) = cs := by
  induction cs with
  | nil => rfl
  | cons c rest ih =>
      rw [Quoted.escape]
      split
      · next hspecial =>
        rcases Bool.or_eq_true_iff.mp hspecial with hslash | hquote
        · rw [beq_iff_eq.mp hslash, Quoted.unescape, ih]
          rfl
        · rw [beq_iff_eq.mp hquote, Quoted.unescape, ih]
          rfl
      · next hplain =>
        rw [Quoted.unescape.eq_3, ih]
        rintro d more rfl
        simp at hplain

theorem Quoted.toList_regular (s : String) :
    (Quoted.regular s).toList = '"' :: (Quoted.escape s.toList ++ ['"']) := by
  simp [Quoted.regular]

theorem Text.trim_enclosed {first last : Char} (hfirst : isBlank first = false)
    (hlast : isBlank last = false) (cs : List Char) :
    trim (first :: (cs ++ [last])) = first :: (cs ++ [last]) := by
  simp [trim, trimStart, trimEnd, dropEndWhile, hfirst, hlast]

namespace Literal

variable {cs body : List Char} {expression : String}

theorem quotedBody?_eq_some_iff : quotedBody? cs = some body ↔
    ∃ quote, (quote = '"' ∨ quote = '\'') ∧ cs = quote :: (body ++ [quote]) := by
  constructor
  · intro h
    unfold quotedBody? at h
    split at h
    · next first rest =>
      split at h
      · next hquotes =>
        obtain ⟨hfirst, hlast⟩ := Bool.and_eq_true_iff.mp hquotes
        obtain ⟨front, rfl⟩ := List.getLast?_eq_some_iff.mp (beq_iff_eq.mp hlast)
        rw [List.dropLast_concat, Option.some.injEq] at h
        subst h
        exact ⟨first, by simpa using hfirst, rfl⟩
      · cases h
    · cases h
  · rintro ⟨quote, hquote, rfl⟩
    have hlast : (body ++ [quote]).getLast? = some quote := List.getLast?_concat
    rw [quotedBody?, hlast, BEq.rfl, List.dropLast_concat]
    rcases hquote with rfl | rfl <;> rfl

theorem verbatimBody?_eq_some_iff :
    verbatimBody? cs = some body ↔ cs = '@' :: '"' :: (body ++ ['"']) := by
  constructor
  · intro h
    unfold verbatimBody? at h
    split at h
    · next rest =>
      split at h
      · next hlast =>
        obtain ⟨front, rfl⟩ := List.getLast?_eq_some_iff.mp (beq_iff_eq.mp hlast)
        rw [List.dropLast_concat, Option.some.injEq] at h
        rw [h]
      · cases h
    · cases h
  · rintro rfl
    have hlast : (body ++ ['"']).getLast? = some '"' := List.getLast?_concat
    rw [verbatimBody?, hlast, BEq.rfl, List.dropLast_concat]
    rfl

def keywords : List String := ["null", "true", "false"]

/-- What is no such word is read by what it begins and ends with, or as a number. -/
theorem value_eq_of_not_mem_keywords (h : trim expression ∉ keywords) :
    value expression =
      match verbatimBody? (Text.trim expression.toList) with
      | some body => .ok (.text (String.ofList (Quoted.undouble body)))
      | none =>
      match quotedBody? (Text.trim expression.toList) with
      | some body => .ok (.text (String.ofList (Quoted.unescape body)))
      | none =>
      match integer? (Text.trim expression.toList) with
      | some n => n.map .int
      | none =>
      match real? (Text.trim expression.toList) with
      | some x => .ok (.real x)
      | none => .ok (.text (trim expression)) := by
  have hword (word : String) (hword : word ∈ keywords) :
      (Text.trim expression.toList == word.toList) = false := by
    rw [beq_eq_false_iff_ne]
    intro hsame
    have htrim : trim expression = word := by
      rw [trim, onChars, hsame, String.ofList_toList]
    exact h (htrim ▸ hword)
  rw [value, hword "null" (by decide), hword "true" (by decide), hword "false" (by decide)]
  rfl

theorem trim_not_mem_keywords {first : Char} (htrim : Text.trim expression.toList = first :: cs)
    (hfirst : first ∉ ['n', 't', 'f']) : trim expression ∉ keywords := by
  have hwords : ∀ word ∈ keywords, word.toList.head? ∈ ['n', 't', 'f'].map some := by decide
  intro hmem
  have hhead : (trim expression).toList.head? = some first := by
    rw [trim, onChars, String.toList_ofList, htrim]
    rfl
  have hstart := hwords _ hmem
  rw [hhead, List.mem_map] at hstart
  obtain ⟨c, hc, hsame⟩ := hstart
  exact hfirst (Option.some.inj hsame ▸ hc)

theorem value_of_unmarked {first : Char} (htrim : Text.trim expression.toList = first :: cs)
    (hfirst : first ∉ ['n', 't', 'f', '"', '\'', '@']) :
    value expression =
      match integer? (Text.trim expression.toList) with
      | some n => n.map .int
      | none =>
      match real? (Text.trim expression.toList) with
      | some x => .ok (.real x)
      | none => .ok (.text (trim expression)) := by
  have hkeyword : trim expression ∉ keywords :=
    trim_not_mem_keywords htrim fun hmem => hfirst (List.mem_of_mem_take (i := 3) hmem)
  have hverbatim : verbatimBody? (Text.trim expression.toList) = none := by
    rw [Option.eq_none_iff_forall_ne_some]
    intro body h
    obtain ⟨rfl, -⟩ := List.cons.inj (htrim.symm.trans (verbatimBody?_eq_some_iff.mp h))
    exact absurd (by decide) hfirst
  have hquoted : quotedBody? (Text.trim expression.toList) = none := by
    rw [Option.eq_none_iff_forall_ne_some]
    intro body h
    obtain ⟨quote, hquote, hsame⟩ := quotedBody?_eq_some_iff.mp h
    obtain ⟨rfl, -⟩ := List.cons.inj (htrim.symm.trans hsame)
    rcases hquote with rfl | rfl <;> exact absurd (by decide) hfirst
  rw [value_eq_of_not_mem_keywords hkeyword, hverbatim, hquoted]

/-- What is in quotes is read as one literal. -/
theorem value_of_quoted {quote : Char} (hquote : quote = '"' ∨ quote = '\'')
    (htrim : Text.trim expression.toList = quote :: (body ++ [quote])) :
    value expression = .ok (.text (String.ofList (Quoted.unescape body))) := by
  have hkeyword := trim_not_mem_keywords htrim (by rcases hquote with rfl | rfl <;> decide)
  have hverbatim : verbatimBody? (Text.trim expression.toList) = none := by
    rw [htrim]
    rcases hquote with rfl | rfl <;> rfl
  have hbody : quotedBody? (Text.trim expression.toList) = some body :=
    quotedBody?_eq_some_iff.mpr ⟨quote, hquote, htrim⟩
  rw [value_eq_of_not_mem_keywords hkeyword, hverbatim, hbody]

/-- And so is what begins like a verbatim literal and ends with a quote. -/
theorem value_of_verbatim (htrim : Text.trim expression.toList = '@' :: '"' :: (body ++ ['"'])) :
    value expression = .ok (.text (String.ofList (Quoted.undouble body))) := by
  have hkeyword := trim_not_mem_keywords htrim (by decide)
  have hbody : verbatimBody? (Text.trim expression.toList) = some body :=
    verbatimBody?_eq_some_iff.mpr htrim
  rw [value_eq_of_not_mem_keywords hkeyword, hbody]

theorem value_regular (s : String) : value (Quoted.regular s) = .ok (.text s) := by
  have htrim : Text.trim (Quoted.regular s).toList = '"' :: (Quoted.escape s.toList ++ ['"']) := by
    rw [Quoted.toList_regular, Text.trim_enclosed (by decide) (by decide)]
  rw [value_of_quoted (.inl rfl) htrim, Quoted.unescape_escape, String.ofList_toList]

end Literal

/-! ### Verbatim literals -/

namespace Quoted

def double : List Char → List Char
  | [] => []
  | c :: rest => if c == '"' then '"' :: '"' :: double rest else c :: double rest

def verbatim (s : String) : String := "@\"" ++ String.ofList (double s.toList) ++ "\""

theorem undouble_double (cs : List Char) : undouble (double cs) = cs := by
  induction cs with
  | nil => rfl
  | cons c rest ih =>
      rw [double]
      split
      · next hquote => rw [undouble, ih, beq_iff_eq.mp hquote]
      · next hplain =>
        -- a character that is no quote begins no pair of quotes
        rw [undouble.eq_3, ih]
        rintro more rfl
        simp at hplain

theorem toList_verbatim (s : String) :
    (verbatim s).toList = '@' :: ('"' :: double s.toList ++ ['"']) := by
  simp [verbatim]

end Quoted

theorem Literal.value_verbatim (s : String) :
    Literal.value (Quoted.verbatim s) = .ok (.text s) := by
  have htrim : Text.trim (Quoted.verbatim s).toList =
      '@' :: '"' :: (Quoted.double s.toList ++ ['"']) := by
    rw [Quoted.toList_verbatim, Text.trim_enclosed (by decide) (by decide)]
    rfl
  rw [value_of_verbatim htrim, Quoted.undouble_double, String.ofList_toList]

/-- Both kinds of literals are read back as the text that they were written for, so no two texts
have the same literal. -/
theorem Literal.value_regular_and_verbatim :
    (∀ s, Literal.value (Quoted.regular s) = .ok (.text s)) ∧
      (∀ s, Literal.value (Quoted.verbatim s) = .ok (.text s)) ∧
        Function.Injective Quoted.regular := by
  refine ⟨Literal.value_regular, Literal.value_verbatim, ?_⟩
  intro s t hsame
  have hvalues := congrArg Literal.value hsame
  rw [Literal.value_regular, Literal.value_regular, Except.ok.injEq] at hvalues
  exact RouteValue.text.inj hvalues

end RouteLinks
