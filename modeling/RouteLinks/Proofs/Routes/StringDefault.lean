import RouteLinks.Proofs.Routes.Literal
import RouteLinks.Proofs.Routes.Numeral
import RouteLinks.Proofs.Text.Fields
/-!
# Defaults that are texts

A string literal is read as the text that it stands for, and an expression that is no literal is
carried as its own text. Both hold but for one thing each. Of the simple escapes four are not known,
and these stay as they are written. And an expression is taken for one literal if it begins and ends
with the same quote, so two literals with a plus between them never come out as they are written.
-/

namespace RouteLinks

/-! ### Regular literals -/

/-- The simple escapes: what follows the backslash, and what it stands for. -/
def simpleEscapes : List (Char × Char) :=
  [('\'', '\''), ('"', '"'), ('\\', '\\'), ('0', Char.ofNat 0), ('a', Char.ofNat 7),
    ('b', Char.ofNat 8), ('f', Char.ofNat 12), ('n', '\n'), ('r', '\r'), ('t', '\t'),
    ('v', Char.ofNat 11)]

def unknownEscapes : List Char := ['a', 'b', 'f', 'v']

/-- A part of a regular literal. -/
inductive LiteralPart where
  | plain (c : Char) (h : c ≠ '"' ∧ c ≠ '\\')
  | escape (e : Char × Char) (h : e ∈ simpleEscapes)

namespace LiteralPart

def written : LiteralPart → List Char
  | plain c _ => [c]
  | escape e _ => ['\\', e.1]

def denoted : LiteralPart → Char
  | plain c _ => c
  | escape e _ => e.2

def IsKnown : LiteralPart → Prop
  | plain _ _ => True
  | escape e _ => e.1 ∉ unknownEscapes

instance : DecidablePred IsKnown
  | plain _ _ => inferInstanceAs (Decidable True)
  | escape e _ => inferInstanceAs (Decidable (e.1 ∉ unknownEscapes))

def read (part : LiteralPart) : List Char := if part.IsKnown then [part.denoted] else part.written

theorem unescape_written_append (part : LiteralPart) (rest : List Char) :
    Quoted.unescape (part.written ++ rest) = part.read ++ Quoted.unescape rest := by
  cases part with
  | plain c h =>
      have hread : (plain c h).read = [c] := if_pos trivial
      rw [hread, written, List.singleton_append, Quoted.unescape.eq_3]
      · rfl
      · exact fun _ _ hslash => absurd hslash h.2
  | escape e h =>
      have htable : ∀ e ∈ simpleEscapes, Quoted.simpleEscape? e.1 =
          if e.1 ∉ unknownEscapes then some e.2 else none := by decide
      rw [written, List.cons_append, List.singleton_append, Quoted.unescape, htable e h]
      by_cases hknown : e.1 ∉ unknownEscapes
      · have hread : (escape e h).read = [e.2] := if_pos hknown
        rw [if_pos hknown, hread]
        rfl
      · have hread : (escape e h).read = ['\\', e.1] := if_neg hknown
        rw [if_neg hknown, hread]
        rfl

theorem unescape_written (parts : List LiteralPart) :
    Quoted.unescape (parts.flatMap written) = parts.flatMap read := by
  induction parts with
  | nil => rfl
  | cons part rest ih => rw [List.flatMap_cons, unescape_written_append, ih, List.flatMap_cons]

theorem length_le_length_read (parts : List LiteralPart) :
    parts.length ≤ (parts.flatMap read).length := by
  induction parts with
  | nil => exact Nat.le_refl _
  | cons part rest ih =>
      have hpart : 1 ≤ part.read.length := by
        rw [read]
        split
        · exact Nat.le_refl _
        · cases part <;> simp [written]
      rw [List.flatMap_cons, List.length_append, List.length_cons]
      omega

theorem flatMap_read_eq_iff (parts : List LiteralPart) :
    parts.flatMap read = parts.map denoted ↔ ∀ part ∈ parts, part.IsKnown := by
  induction parts with
  | nil => simp
  | cons part rest ih =>
      rw [List.flatMap_cons, List.map_cons, List.forall_mem_cons, ← ih]
      by_cases hknown : part.IsKnown
      · rw [read, if_pos hknown, List.singleton_append, List.cons.injEq, and_iff_right rfl,
          and_iff_right hknown]
      · -- two characters stand where one should
        refine iff_of_false (fun hsame => ?_) fun h => hknown h.1
        have hread : part.read.length = 2 := by
          rw [read, if_neg hknown]
          cases part with
          | plain c h => exact absurd trivial hknown
          | escape e h => rfl
        have hlength := congrArg List.length hsame
        have hle := length_le_length_read rest
        rw [List.length_append, List.length_cons, List.length_map] at hlength
        omega

def literal (parts : List LiteralPart) : String :=
  "\"" ++ String.ofList (parts.flatMap written) ++ "\""

def text (parts : List LiteralPart) : String := String.ofList (parts.map denoted)

theorem toList_literal (parts : List LiteralPart) :
    (literal parts).toList = '"' :: (parts.flatMap written ++ ['"']) := by
  simp [literal]

theorem value_literal (parts : List LiteralPart) :
    Literal.value (literal parts) = .ok (.text (String.ofList (parts.flatMap read))) := by
  have htrim : Text.trim (literal parts).toList = '"' :: (parts.flatMap written ++ ['"']) := by
    rw [toList_literal, Text.trim_enclosed (by decide) (by decide)]
  rw [Literal.value_of_quoted (.inl rfl) htrim, unescape_written]

end LiteralPart

/-! ### Expressions in quotes -/

namespace Quoted

theorem length_unescape_le (cs : List Char) : (unescape cs).length ≤ cs.length := by
  induction cs using unescape.induct with
  | case1 => exact Nat.le_refl _
  | case2 c rest d hd ih =>
      rw [unescape, hd]
      simp only [List.length_cons]
      omega
  | case3 c rest hd ih =>
      rw [unescape, hd]
      simp only [List.length_cons]
      omega
  | case4 c rest hslash ih =>
      rw [unescape.eq_3 _ _ hslash]
      simp only [List.length_cons]
      omega

theorem length_undouble_le (cs : List Char) : (undouble cs).length ≤ cs.length := by
  induction cs using undouble.induct with
  | case1 => exact Nat.le_refl _
  | case2 rest ih =>
      rw [undouble]
      simp only [List.length_cons]
      omega
  | case3 c rest hquotes ih =>
      rw [undouble.eq_3 _ _ hquotes]
      simp only [List.length_cons]
      omega

end Quoted

namespace Literal

/-- Whether an expression looks like one literal at its ends. -/
def IsEnclosed (cs : List Char) : Prop :=
  (∃ quote body, (quote = '"' ∨ quote = '\'') ∧ cs = quote :: (body ++ [quote])) ∨
    ∃ body, cs = '@' :: '"' :: (body ++ ['"'])

def IsSignedNumber (cs : List Char) : Prop :=
  ∃ mark n, (mark = '+' ∨ mark = '-') ∧ cs = mark :: n ∧ IsNumber n ∧
    value (String.ofList n) ≠ .ok (.text (String.ofList n))

variable {expression : String} {cs n : List Char}

theorem IsEnclosed.trim_eq_self (h : IsEnclosed cs) : Text.trim cs = cs := by
  rcases h with ⟨quote, body, hquote, rfl⟩ | ⟨body, rfl⟩
  · have hblank : Text.isBlank quote = false := by rcases hquote with rfl | rfl <;> decide
    exact Text.trim_enclosed hblank hblank body
  · exact Text.trim_enclosed (by decide) (by decide) ('"' :: body)

/-- The quotes at the ends are always taken off. -/
theorem value_ne_of_isEnclosed (h : IsEnclosed (Text.trim expression.toList)) :
    value expression ≠ .ok (.text (trim expression)) := by
  intro hvalue
  rcases h with ⟨quote, body, hquote, htrim⟩ | ⟨body, htrim⟩
  · rw [value_of_quoted hquote htrim, Except.ok.injEq, RouteValue.text.injEq, trim, onChars, htrim,
      String.ofList_inj] at hvalue
    have hlength := congrArg List.length hvalue
    have hle := Quoted.length_unescape_le body
    simp at hlength
    omega
  · rw [value_of_verbatim htrim, Except.ok.injEq, RouteValue.text.injEq, trim, onChars, htrim,
      String.ofList_inj] at hvalue
    have hlength := congrArg List.length hvalue
    have hle := Quoted.length_undouble_le body
    simp at hlength
    omega

/-! ### Numbers with a sign -/

theorem sign_of_isNumber (h : IsNumber n) : sign n = (false, n) := by
  obtain ⟨⟨c, hc, hstart⟩, -⟩ := h
  obtain ⟨rest, rfl⟩ := List.head?_eq_some_iff.mp hc
  have hsigns : ∀ d ∈ ['+', '-'], ¬(d.isDigit = true ∨ d = '.') := forall_mem_of_all (by decide)
  exact sign_of_not_mem fun hmem => hsigns c hmem hstart

theorem integer?_eq_none_congr {ds : List Char} (h : (sign cs).2 = (sign ds).2) :
    integer? cs = none ↔ integer? ds = none := by
  rcases hcs : sign cs with ⟨negative, rest⟩
  rcases hds : sign ds with ⟨_, _⟩
  rw [hcs, hds] at h
  subst h
  rw [integer?, integer?, hcs, hds]
  dsimp only
  cases ((hexadecimal? rest).map Except.ok).or (decimal? rest) <;> exact Iff.of_eq (by simp)

theorem real?_eq_none_congr {ds : List Char} (h : (sign cs).2 = (sign ds).2) :
    real? cs = none ↔ real? ds = none := by
  rcases hcs : sign cs with ⟨negative, rest⟩
  rcases hds : sign ds with ⟨_, _⟩
  rw [hcs, hds] at h
  subst h
  rw [real?, real?, hcs, hds]
  dsimp only
  cases significand? rest with
  | none => rfl
  | some parts =>
      obtain ⟨whole, part, tail⟩ := parts
      cases hexponent : exponent? tail with
      | none => simp [hexponent]
      | some power =>
          simp only [Option.bind_eq_bind, Option.bind_some, hexponent]
          split <;> simp

/-! ### Expressions that are no literals -/

theorem value_eq_text_iff_of_not_isEnclosed (hkeyword : trim expression ∉ keywords)
    (hopen : ¬IsEnclosed (Text.trim expression.toList)) :
    value expression = .ok (.text (trim expression)) ↔
      integer? (Text.trim expression.toList) = none ∧
        real? (Text.trim expression.toList) = none := by
  have hverbatim : verbatimBody? (Text.trim expression.toList) = none := by
    rw [Option.eq_none_iff_forall_ne_some]
    exact fun body h => hopen (.inr ⟨body, verbatimBody?_eq_some_iff.mp h⟩)
  have hquoted : quotedBody? (Text.trim expression.toList) = none := by
    rw [Option.eq_none_iff_forall_ne_some]
    intro body h
    obtain ⟨quote, hquote, htrim⟩ := quotedBody?_eq_some_iff.mp h
    exact hopen (.inl ⟨quote, body, hquote, htrim⟩)
  rw [value_eq_of_not_mem_keywords hkeyword, hverbatim, hquoted]
  dsimp only
  cases integer? (Text.trim expression.toList) with
  | some n => cases n <;> simp [Except.map]
  | none => cases real? (Text.trim expression.toList) <;> simp

theorem value_eq_text_iff_of_isNumber (h : IsNumber n) (htrim : Text.trim n = n) :
    value (String.ofList n) = .ok (.text (String.ofList n)) ↔
      integer? n = none ∧ real? n = none := by
  obtain ⟨⟨c, hc, hstart⟩, -⟩ := h
  obtain ⟨rest, rfl⟩ := List.head?_eq_some_iff.mp hc
  have hmarks : ∀ d ∈ ['n', 't', 'f', '"', '\'', '@'], ¬(d.isDigit = true ∨ d = '.') :=
    forall_mem_of_all (by decide)
  have hchars : Text.trim (String.ofList (c :: rest)).toList = c :: rest := by
    rw [String.toList_ofList, htrim]
  have hwhole : trim (String.ofList (c :: rest)) = String.ofList (c :: rest) := by
    rw [trim, onChars, hchars]
  rw [value_of_unmarked hchars fun hmem => hmarks c hmem hstart, hchars, hwhole]
  cases integer? (c :: rest) with
  | some n => cases n <;> simp [Except.map]
  | none => cases real? (c :: rest) <;> simp

theorem trim_tail {mark : Char} (htrim : Text.trim expression.toList = mark :: n)
    (h : IsNumber n) : Text.trim n = n := by
  obtain ⟨⟨c, hc, hstart⟩, -⟩ := h
  refine Text.trim_eq_self (fun d hd => ?_) fun d hd => ?_
  · obtain rfl : c = d := Option.some.inj ((Option.mem_def.mp hc).symm.trans hd)
    have hbounds : 46 ≤ c.toNat ∧ c.toNat ≤ 57 := by
      rcases hstart with hdigit | rfl
      · exact (bounds_of_isDigit hdigit).imp_left (Nat.le_trans (by decide))
      · decide
    exact Text.isBlank_of_bounds (by omega)
  · have hlast : d ∈ (Text.trim expression.toList).getLast? := by
      rw [htrim, List.getLast?_cons, Option.mem_def.mp hd]
      rfl
    exact Text.isBlank_getLast?_trim hlast

/-- An expression that is no word and no number without a sign is carried as its own text, unless it
looks like a literal at its ends, or is a number with a sign. -/
theorem value_eq_text_iff (hkeyword : trim expression ∉ keywords)
    (hnumber : ¬IsNumber (Text.trim expression.toList)) :
    value expression = .ok (.text (trim expression)) ↔
      ¬IsEnclosed (Text.trim expression.toList) ∧
        ¬IsSignedNumber (Text.trim expression.toList) := by
  by_cases henclosed : IsEnclosed (Text.trim expression.toList)
  · exact iff_of_false (value_ne_of_isEnclosed henclosed) fun h => h.1 henclosed
  rw [value_eq_text_iff_of_not_isEnclosed hkeyword henclosed, and_iff_right henclosed]
  have hsame (n : List Char) (hrest : (sign (Text.trim expression.toList)).2 = n)
      (hn : IsNumber n) :
      (integer? n = none ∧ real? n = none) ↔
        (integer? (Text.trim expression.toList) = none ∧
          real? (Text.trim expression.toList) = none) := by
    have hsign : (sign n).2 = (sign (Text.trim expression.toList)).2 := by
      rw [sign_of_isNumber hn, hrest]
    rw [integer?_eq_none_congr hsign, real?_eq_none_congr hsign]
  constructor
  · rintro hnone ⟨mark, n, hmark, htrim, hn, hvalue⟩
    have hrest : (sign (Text.trim expression.toList)).2 = n := by
      rw [htrim]
      rcases hmark with rfl | rfl <;> rfl
    refine hvalue ((value_eq_text_iff_of_isNumber hn (trim_tail htrim hn)).mpr ?_)
    exact (hsame n hrest hn).mpr hnone
  · intro hsigned
    by_contra hread
    have hn : IsNumber (sign (Text.trim expression.toList)).2 := by
      rw [not_and_or] at hread
      rcases hread with hinteger | hreal
      · obtain ⟨k, hk⟩ := Option.ne_none_iff_exists'.mp hinteger
        exact isNumber_of_integer? hk
      · obtain ⟨x, hx⟩ := Option.ne_none_iff_exists'.mp hreal
        exact isNumber_of_real? hx
    rcases eq_or_eq_cons_sign (Text.trim expression.toList) with hplain | ⟨mark, hmark, htrim⟩
    · exact hnumber (hplain ▸ hn)
    · refine hsigned ⟨mark, _, hmark, htrim, hn, fun hvalue => hread ?_⟩
      exact (hsame _ rfl hn).mp ((value_eq_text_iff_of_isNumber hn (trim_tail htrim hn)).mp hvalue)

end Literal

/-! ### Literals with a plus between them -/

/-- A string literal, made of parts or verbatim. -/
inductive StringLiteral where
  | regular (parts : List LiteralPart)
  | verbatim (s : String)

namespace StringLiteral

def written : StringLiteral → String
  | regular parts => LiteralPart.literal parts
  | verbatim s => Quoted.verbatim s

def plus (first second : StringLiteral) : String := first.written ++ " + " ++ second.written

theorem exists_written_eq (x : StringLiteral) :
    ∃ mark body, (mark = [] ∨ mark = ['@']) ∧
      x.written.toList = mark ++ '"' :: (body ++ ['"']) := by
  cases x with
  | regular parts => exact ⟨[], _, .inl rfl, LiteralPart.toList_literal parts⟩
  | verbatim s => exact ⟨['@'], _, .inr rfl, Quoted.toList_verbatim s⟩

/-- What is written of two literals looks like one. -/
theorem isEnclosed_plus (first second : StringLiteral) :
    Literal.IsEnclosed (first.plus second).toList := by
  obtain ⟨mark, body, hmark, hfirst⟩ := first.exists_written_eq
  obtain ⟨middle, rest, _, hsecond⟩ := second.exists_written_eq
  have hplus : (first.plus second).toList =
      mark ++ '"' :: (body ++ '"' :: (" + ".toList ++ (middle ++ '"' :: rest)) ++ ['"']) := by
    rw [plus, String.toList_append, String.toList_append, hfirst, hsecond]
    simp
  rw [hplus]
  rcases hmark with rfl | rfl
  · exact .inl ⟨'"', _, .inl rfl, rfl⟩
  · exact .inr ⟨_, rfl⟩

end StringLiteral

/-- A regular literal is read as the text that it stands for exactly if all its escapes are known.
An expression that is no word and no number is carried as its own text exactly if it does not look
like a literal at its ends; a number keeps its value with a sign before it. Two literals with a plus
between them look like one, so they are never carried as they are written. -/
theorem Literal.value_string_default (parts : List LiteralPart) (expression : String)
    (hkeyword : trim expression ∉ keywords) (hnumber : ¬IsNumber (Text.trim expression.toList))
    (first second : StringLiteral) :
    (value (LiteralPart.literal parts) = .ok (.text (LiteralPart.text parts)) ↔
        ∀ part ∈ parts, part.IsKnown) ∧
      (value expression = .ok (.text (trim expression)) ↔
        ¬IsEnclosed (Text.trim expression.toList) ∧
          ¬IsSignedNumber (Text.trim expression.toList)) ∧
      value (first.plus second) ≠ .ok (.text (first.plus second)) := by
  refine ⟨?_, value_eq_text_iff hkeyword hnumber, ?_⟩
  · rw [LiteralPart.value_literal, Except.ok.injEq, RouteValue.text.injEq, LiteralPart.text,
      String.ofList_inj]
    exact LiteralPart.flatMap_read_eq_iff parts
  · have henclosed := first.isEnclosed_plus second
    have htrim := henclosed.trim_eq_self
    rw [← htrim] at henclosed
    have hne := value_ne_of_isEnclosed henclosed
    rwa [trim, onChars, htrim, String.ofList_toList] at hne

/-- A member is carried as its own text. -/
theorem Literal.value_string_default_member :
    trim "Order.ByName" ∉ keywords ∧ ¬IsNumber (Text.trim "Order.ByName".toList) ∧
      (value (LiteralPart.literal [.escape ('t', '\t') (by decide)]) =
          .ok (.text (LiteralPart.text [.escape ('t', '\t') (by decide)])) ↔
        ∀ part ∈ [LiteralPart.escape ('t', '\t') (by decide)], part.IsKnown) ∧
      (value "Order.ByName" = .ok (.text (trim "Order.ByName")) ↔
        ¬IsEnclosed (Text.trim "Order.ByName".toList) ∧
          ¬IsSignedNumber (Text.trim "Order.ByName".toList)) ∧
      value ((StringLiteral.verbatim "a").plus (.verbatim "b")) ≠
        .ok (.text ((StringLiteral.verbatim "a").plus (.verbatim "b"))) := by
  have hkeyword : trim "Order.ByName" ∉ keywords := by decide
  have hnumber : ¬IsNumber (Text.trim "Order.ByName".toList) := by
    rintro ⟨⟨c, hc, hstart⟩, -⟩
    obtain rfl : 'O' = c := Option.some.inj hc
    exact absurd hstart (by decide)
  exact ⟨hkeyword, hnumber, value_string_default _ _ hkeyword hnumber _ _⟩

/-- The escape of the alert stays two characters, and of two literals with a plus between them only
the outer quotes go. -/
theorem Literal.value_alert_and_plus :
    value "\"\\a\"" = .ok (.text "\\a") ∧
      LiteralPart.literal [.escape ('a', Char.ofNat 7) (by decide)] = "\"\\a\"" ∧
      value "\"\\a\"" ≠ .ok (.text (LiteralPart.text [.escape ('a', Char.ofNat 7) (by decide)])) ∧
      value "\"a\" + \"b\"" = .ok (.text "a\" + \"b") ∧
      value "\"a\" + \"b\"" ≠ .ok (.text (trim "\"a\" + \"b\"")) := by
  have halert : value "\"\\a\"" = .ok (.text "\\a") := rfl
  have hplus : value "\"a\" + \"b\"" = .ok (.text "a\" + \"b") := rfl
  refine ⟨halert, by decide, ?_, hplus, ?_⟩
  · rw [halert, ne_eq, Except.ok.injEq, RouteValue.text.injEq]
    decide
  · rw [hplus, ne_eq, Except.ok.injEq, RouteValue.text.injEq]
    decide

end RouteLinks
