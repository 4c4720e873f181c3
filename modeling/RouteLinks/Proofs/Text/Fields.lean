import Mathlib.Data.List.Basic
import Mathlib.Data.List.TakeWhile
import RouteLinks.Text.Basic
/-!
# Fields, blanks and line ends

A text is cut at a separator and put together again from its fields, and what follows a separator is
cut by itself. A text that is trimmed has no blank at either end, and one that has none stays as it
is. Where a line feed stands, a text can be taken apart before the line ends are made
uniform: at most an empty line comes of that, if a carriage return stands before the line feed.
-/

namespace RouteLinks

namespace Text

variable {separator : Char} {xs ys : List Char}

theorem fields_ne_nil (separator : Char) (cs : List Char) : fields separator cs ≠ [] := by
  cases cs with
  | nil => simp [fields]
  | cons c rest =>
      rw [fields]
      split
      · simp
      · split <;> simp

theorem fields_append_separator (separator : Char) (xs ys : List Char) :
    fields separator (xs ++ separator :: ys) = fields separator xs ++ fields separator ys := by
  induction xs with
  | nil => simp [fields]
  | cons c rest ih =>
      rw [List.cons_append, fields, fields, ih]
      split
      · rfl
      · cases hrest : fields separator rest with
        | nil => exact absurd hrest (fields_ne_nil _ _)
        | cons first others => rfl

theorem fields_of_not_mem (h : separator ∉ xs) : fields separator xs = [xs] := by
  induction xs with
  | nil => rfl
  | cons c rest ih =>
      rw [List.mem_cons, not_or] at h
      rw [fields, ih h.2, if_neg (by simpa using Ne.symm h.1)]

theorem fields_append_of_not_mem (h : separator ∉ xs) {first : List Char}
    {others : List (List Char)} (hys : fields separator ys = first :: others) :
    fields separator (xs ++ ys) = (xs ++ first) :: others := by
  induction xs with
  | nil => exact hys
  | cons c rest ih =>
      rw [List.mem_cons, not_or] at h
      rw [List.cons_append, fields, ih h.2, if_neg (by simpa using Ne.symm h.1)]
      rfl

theorem lastField_of_not_mem (h : separator ∉ xs) : lastField separator xs = xs := by
  rw [lastField, fields_of_not_mem h]
  rfl

theorem lastField_append_cons (separator : Char) (xs ys : List Char) :
    lastField separator (xs ++ separator :: ys) = lastField separator ys := by
  rw [lastField, lastField, fields_append_separator, List.getLast?_append,
    List.getLast?_eq_some_getLast (fields_ne_nil separator ys)]
  rfl

theorem lastField_append_separator (h : separator ∉ ys) :
    lastField separator (xs ++ separator :: ys) = ys := by
  rw [lastField_append_cons, lastField_of_not_mem h]

/-- A text is its last field, with a separator before it if there are others. -/
theorem lastField_spec (separator : Char) (cs : List Char) :
    separator ∉ lastField separator cs ∧
      (cs = lastField separator cs ∨ ∃ head, cs = head ++ separator :: lastField separator cs) := by
  by_cases hmem : separator ∈ cs
  · obtain ⟨after, before, hreverse, hlast⟩ :=
      List.eq_append_cons_of_mem (List.mem_reverse.mpr hmem)
    have hsplit : cs = before.reverse ++ separator :: after.reverse := by
      rw [← List.reverse_reverse cs, hreverse]
      simp
    have hfield : lastField separator cs = after.reverse := by
      rw [hsplit, lastField_append_separator (by simpa using hlast)]
    rw [hfield]
    exact ⟨by simpa using hlast, .inr ⟨before.reverse, hsplit⟩⟩
  · rw [lastField_of_not_mem hmem]
    exact ⟨hmem, .inl rfl⟩

theorem lastField_append (h : separator ∉ ys) :
    lastField separator (xs ++ ys) = lastField separator xs ++ ys := by
  obtain ⟨hlast, hxs | ⟨head, hxs⟩⟩ := lastField_spec separator xs
  · rw [← hxs] at hlast ⊢
    exact lastField_of_not_mem (by simp [hlast, h])
  · have hsplit : xs ++ ys = head ++ separator :: (lastField separator xs ++ ys) := by
      rw [← List.cons_append, ← List.append_assoc, ← hxs]
    rw [hsplit]
    exact lastField_append_separator (by simp [hlast, h])

theorem mem_of_mem_fields {cs line : List Char} (h : line ∈ fields separator cs) {c : Char}
    (hc : c ∈ line) : c ∈ cs ∧ c ≠ separator := by
  induction cs generalizing line with
  | nil =>
      rw [fields, List.mem_singleton] at h
      rw [h] at hc
      cases hc
  | cons first rest ih =>
      have hrest : ∀ {line}, line ∈ fields separator rest → c ∈ line →
          c ∈ first :: rest ∧ c ≠ separator :=
        fun hline hmem => (ih hline hmem).imp_left (List.mem_cons_of_mem _)
      rw [fields] at h
      split at h
      · rcases List.mem_cons.mp h with rfl | h
        · cases hc
        · exact hrest h hc
      · next hfirst =>
        cases hfields : fields separator rest with
        | nil => exact absurd hfields (fields_ne_nil _ _)
        | cons next others =>
            rw [hfields] at h hrest
            rcases List.mem_cons.mp h with rfl | h
            · rcases List.mem_cons.mp hc with rfl | hc
              · exact ⟨List.mem_cons_self, by simpa using hfirst⟩
              · exact hrest List.mem_cons_self hc
            · exact hrest (List.mem_cons_of_mem _ h) hc

/-- Parts without the separator are the fields of what they are joined to. -/
theorem fields_intercalate {parts : List (List Char)} (hne : parts ≠ [])
    (h : ∀ part ∈ parts, separator ∉ part) :
    fields separator ([separator].intercalate parts) = parts := by
  induction parts with
  | nil => exact absurd rfl hne
  | cons first rest ih =>
      obtain ⟨hfirst, hrest⟩ := List.forall_mem_cons.mp h
      cases rest with
      | nil => rw [List.intercalate_singleton, fields_of_not_mem hfirst]
      | cons second others =>
          rw [List.intercalate_cons_cons, List.append_assoc, List.singleton_append,
            fields_append_separator, fields_of_not_mem hfirst,
            ih (List.cons_ne_nil second others) hrest, List.singleton_append]

theorem intercalate_fields (separator : Char) (cs : List Char) :
    [separator].intercalate (fields separator cs) = cs := by
  induction cs with
  | nil => rfl
  | cons c rest ih =>
      obtain ⟨first, others, hfields⟩ := List.exists_cons_of_ne_nil (fields_ne_nil separator rest)
      rw [fields, hfields]
      rw [hfields] at ih
      split
      · next hc =>
        rw [List.intercalate_cons_cons, List.nil_append, List.singleton_append, ih,
          beq_iff_eq.mp hc]
      · rw [← ih]
        cases others with
        | nil => rfl
        | cons second more => rw [List.intercalate_cons_cons, List.intercalate_cons_cons]; rfl

theorem mem_intercalate {glue : List Char} {parts : List (List Char)} {c : Char}
    (h : c ∈ glue.intercalate parts) : c ∈ glue ∨ ∃ part ∈ parts, c ∈ part := by
  induction parts with
  | nil => cases h
  | cons first rest ih =>
      cases rest with
      | nil =>
          rw [List.intercalate_singleton] at h
          exact .inr ⟨first, List.mem_cons_self, h⟩
      | cons second others =>
          rw [List.intercalate_cons_cons, List.append_assoc, List.mem_append, List.mem_append] at h
          rcases h with hfirst | hglue | hrest
          · exact .inr ⟨first, List.mem_cons_self, hfirst⟩
          · exact .inl hglue
          · exact (ih hrest).imp_right fun ⟨part, hpart, hc⟩ =>
              ⟨part, List.mem_cons_of_mem _ hpart, hc⟩

theorem not_mem_intercalate {glue : String} {parts : List String} {c : Char}
    (hglue : c ∉ glue.toList) (hparts : ∀ part ∈ parts, c ∉ part.toList) :
    c ∉ (glue.intercalate parts).toList := by
  rw [String.toList_intercalate]
  intro hmem
  rcases mem_intercalate hmem with hc | ⟨chars, hchars, hc⟩
  · exact hglue hc
  · obtain ⟨part, hpart, rfl⟩ := List.mem_map.mp hchars
    exact hparts part hpart hc

theorem not_mem_of_mem_fields {cs part : List Char} (h : part ∈ fields separator cs) :
    separator ∉ part := fun hmem => (mem_of_mem_fields h hmem).2 rfl

/-! ### Blanks at the ends -/

theorem isBlank_of_bounds {c : Char} (h : 33 ≤ c.toNat ∧ c.toNat < 128) : isBlank c = false := by
  simp [isBlank]
  omega

theorem trim_eq_self {cs : List Char} (hfirst : ∀ c ∈ cs.head?, isBlank c = false)
    (hlast : ∀ c ∈ cs.getLast?, isBlank c = false) : trim cs = cs := by
  have hstart : trimStart cs = cs := by
    cases cs with
    | nil => rfl
    | cons c rest => rw [trimStart, List.dropWhile_cons, hfirst c rfl, if_neg Bool.false_ne_true]
  rw [trim, hstart, trimEnd, dropEndWhile]
  cases hreverse : cs.reverse with
  | nil => rw [List.reverse_eq_nil_iff.mp hreverse]; rfl
  | cons c rest =>
      have hc : isBlank c = false := hlast c (by
        rw [← List.head?_reverse, hreverse]
        rfl)
      rw [List.dropWhile_cons, hc, if_neg Bool.false_ne_true, ← hreverse, List.reverse_reverse]

theorem isBlank_getLast?_trim {cs : List Char} {c : Char} (h : c ∈ (trim cs).getLast?) :
    isBlank c = false := by
  rw [trim, trimEnd, dropEndWhile, List.getLast?_reverse] at h
  have hlast := List.head?_dropWhile_not isBlank (trimStart cs).reverse
  rw [Option.mem_def.mp h] at hlast
  simpa using hlast

section

variable {cs rest : List Char}

theorem trimStart_append (hblank : ∀ b ∈ cs, isBlank b = true)
    (hrest : ∀ c ∈ rest.head?, isBlank c = false) : trimStart (cs ++ rest) = rest := by
  rw [trimStart, List.dropWhile_append_of_pos hblank]
  cases rest with
  | nil => rfl
  | cons c more => rw [List.dropWhile_cons, hrest c rfl, if_neg Bool.false_ne_true]

theorem exists_eq_append_trimStart (cs : List Char) :
    (∃ blanks, cs = blanks ++ trimStart cs ∧ ∀ b ∈ blanks, isBlank b = true) ∧
      ∀ c ∈ (trimStart cs).head?, isBlank c = false := by
  refine ⟨⟨cs.takeWhile isBlank, List.takeWhile_append_dropWhile.symm, ?_⟩, ?_⟩
  · exact fun b hb => List.mem_takeWhile_imp hb
  · intro c hc
    have hnot := List.head?_dropWhile_not isBlank cs
    rw [trimStart] at hc
    rw [Option.mem_def.mp hc] at hnot
    simpa using hnot

theorem exists_eq_trimEnd_append (cs : List Char) :
    ∃ blanks, cs = trimEnd cs ++ blanks ∧ ∀ b ∈ blanks, isBlank b = true := by
  refine ⟨(cs.reverse.takeWhile isBlank).reverse, ?_, ?_⟩
  · rw [trimEnd, dropEndWhile, ← List.reverse_append, List.takeWhile_append_dropWhile,
      List.reverse_reverse]
  · exact fun b hb => List.mem_takeWhile_imp (List.mem_reverse.mp hb)

theorem head?_trimEnd {c : Char} (h : c ∈ (trimEnd cs).head?) : c ∈ cs.head? := by
  obtain ⟨blanks, hcs, _⟩ := exists_eq_trimEnd_append cs
  rw [hcs, List.head?_append]
  exact Option.or_eq_some_iff.mpr (.inl h)

theorem trimEnd_eq_nil_iff : trimEnd cs = [] ↔ cs.all isBlank = true := by
  rw [trimEnd, dropEndWhile, List.reverse_eq_nil_iff, List.dropWhile_eq_nil_iff, List.all_eq_true]
  simp

theorem isBlank_head?_trim {c : Char} (h : c ∈ (trim cs).head?) : isBlank c = false :=
  (exists_eq_append_trimStart cs).2 c (head?_trimEnd h)

theorem trim_trim (cs : List Char) : trim (trim cs) = trim cs :=
  trim_eq_self (fun _ hc => isBlank_head?_trim hc) fun _ hc => isBlank_getLast?_trim hc

end

/-! ### Copies -/

def copies (n : Nat) (cs : List Char) : List Char := (List.replicate n cs).flatten

theorem copies_add (m n : Nat) (cs : List Char) :
    copies (m + n) cs = copies m cs ++ copies n cs := by
  rw [copies, List.replicate_add, List.flatten_append]
  rfl

theorem intercalate_nil (parts : List (List Char)) : [].intercalate parts = parts.flatten := by
  induction parts with
  | nil => rfl
  | cons first rest ih =>
      cases rest with
      | nil => rw [List.intercalate_singleton, List.flatten_singleton]
      | cons second others =>
          rw [List.intercalate_cons_cons, ih, List.append_nil]
          rfl

theorem mem_copies {n : Nat} {cs : List Char} {c : Char} (h : c ∈ copies n cs) : c ∈ cs := by
  obtain ⟨part, hpart, hc⟩ := List.mem_flatten.mp h
  rwa [List.eq_of_mem_replicate hpart] at hc

/-! ### Line ends -/

theorem not_mem_unixEndings (cs : List Char) : '\r' ∉ unixEndings cs := by
  induction cs using unixEndings.induct with
  | case1 => simp [unixEndings]
  | case2 rest ih => simpa [unixEndings] using ih
  | case3 rest hrest ih =>
      rw [unixEndings.eq_3 _ hrest]
      simpa using ih
  | case4 c rest hpair hreturn ih =>
      rw [unixEndings.eq_4 _ _ hpair hreturn, List.mem_cons, not_or]
      exact ⟨fun h => hreturn h.symm, ih⟩

theorem unixEndings_of_not_mem (h : '\r' ∉ xs) : unixEndings xs = xs := by
  induction xs with
  | nil => rfl
  | cons c rest ih =>
      rw [List.mem_cons, not_or] at h
      rw [unixEndings.eq_4 _ _ (fun _ hc _ => h.1 hc.symm) (fun hc => h.1 hc.symm), ih h.2]

theorem unixEndings_append_of_not_mem (h : '\r' ∉ xs) (ys : List Char) :
    unixEndings (xs ++ ys) = xs ++ unixEndings ys := by
  induction xs with
  | nil => rfl
  | cons c rest ih =>
      rw [List.mem_cons, not_or] at h
      rw [List.cons_append, unixEndings.eq_4 _ _ (fun _ hc _ => h.1 hc.symm)
        (fun hc => h.1 hc.symm), ih h.2, List.cons_append]

/-- Before a line feed a text can be taken apart, but that a carriage return there is taken with
it. -/
theorem unixEndings_append_lineFeed (xs ys : List Char) :
    unixEndings (xs ++ '\n' :: ys) = unixEndings xs ++ '\n' :: unixEndings ys ∨
      ∃ front, unixEndings xs = front ++ ['\n'] ∧
        unixEndings (xs ++ '\n' :: ys) = front ++ '\n' :: unixEndings ys := by
  have hlineFeed : unixEndings ('\n' :: ys) = '\n' :: unixEndings ys := by simp [unixEndings]
  induction xs using unixEndings.induct with
  | case1 => exact .inl hlineFeed
  | case2 rest ih =>
      rw [List.cons_append, List.cons_append, unixEndings, unixEndings]
      rcases ih with hrest | ⟨front, hfront, hrest⟩
      · exact .inl (by rw [hrest, List.cons_append])
      · exact .inr ⟨'\n' :: front, by rw [hfront, List.cons_append],
          by rw [hrest, List.cons_append]⟩
  | case3 rest hrest ih =>
      cases rest with
      | nil => exact .inr ⟨[], rfl, by simp [unixEndings]⟩
      | cons c more =>
          have hpair : ∀ others, c :: more ++ '\n' :: ys = '\n' :: others → False := by
            rintro others hsame
            exact hrest more (congrArg (· :: more) (List.cons.inj hsame).1)
          rw [List.cons_append, unixEndings.eq_3 _ hpair, unixEndings.eq_3 _ hrest]
          rcases ih with hmore | ⟨front, hfront, hmore⟩
          · exact .inl (by rw [hmore, List.cons_append])
          · exact .inr ⟨'\n' :: front, by rw [hfront, List.cons_append],
              by rw [hmore, List.cons_append]⟩
  | case4 c rest hpair hreturn ih =>
      rw [List.cons_append, unixEndings.eq_4 _ _ (fun _ hc _ => hreturn hc) hreturn,
        unixEndings.eq_4 _ _ hpair hreturn]
      rcases ih with hrest | ⟨front, hfront, hrest⟩
      · exact .inl (by rw [hrest, List.cons_append])
      · exact .inr ⟨c :: front, by rw [hfront, List.cons_append], by rw [hrest, List.cons_append]⟩

end Text

end RouteLinks
