import Mathlib.Data.List.TakeWhile
import RouteLinks.Proofs.Source.Lexing
import RouteLinks.Routes.Literal
/-!
# Numbers among literals

What has the value of a number is a number in the source as well: the reader of source takes all of
it, but for a sign, as one literal. So no expression that is put together from several pieces is
mistaken for a number.
-/

namespace RouteLinks.Literal

open Source (isWordChar numberLength)

/-- How a number may end: with characters of a word, among them an exponent and a suffix, or with an
exponent that has a sign. -/
inductive IsTail : List Char → Prop where
  | word {cs : List Char} (h : ∀ c ∈ cs, isWordChar c = true) : IsTail cs
  | signed {e sign digit : Char} {rest : List Char} (he : e.toLower = 'e')
      (hsign : sign = '+' ∨ sign = '-') (hdigit : digit.isDigit = true)
      (h : ∀ c ∈ rest, isWordChar c = true) : IsTail (e :: sign :: digit :: rest)

variable {cs rest digits : List Char} {c d : Char}

/-! ### Characters of numbers -/

theorem isWordChar_of_isAlpha (h : c.isAlpha = true) : isWordChar c = true :=
  Bool.or_eq_true_iff.mpr (.inl (Bool.or_eq_true_iff.mpr (.inl h)))

/-- No character becomes part of a word by its letter case. -/
theorem isWordChar_of_toLower (h : isWordChar c.toLower = true) : isWordChar c = true := by
  by_cases hupper : c.isUpper = true
  · exact isWordChar_of_isAlpha (Bool.or_eq_true_iff.mpr (.inl hupper))
  · rwa [toLower_of_not_isUpper hupper] at h

theorem isWordChar_of_isDigit (h : c.isDigit = true) : isWordChar c = true := by
  simp [isWordChar, Char.isAlphanum, h]

theorem isWordChar_of_isDigitOrGap (h : isDigitOrGap c = true) : isWordChar c = true := by
  rcases Bool.or_eq_true_iff.mp h with hdigit | hgap
  · exact isWordChar_of_isDigit hdigit
  · simp [isWordChar, hgap]

theorem isWordChar_of_isHexDigit (h : isHexDigit c = true) : isWordChar c = true := by
  simp only [isHexDigit, Bool.or_eq_true, Bool.and_eq_true, decide_eq_true_eq] at h
  rcases h with (hdigit | hlower) | hupper
  · exact isWordChar_of_isDigit hdigit
  · refine isWordChar_of_isAlpha (isAlpha_of_bounds (.inr ⟨hlower.1, ?_⟩))
    exact Nat.le_trans hlower.2 (by decide)
  · refine isWordChar_of_isAlpha (isAlpha_of_bounds (.inl ⟨hupper.1, ?_⟩))
    exact Nat.le_trans hupper.2 (by decide)

theorem isWordChar_of_mem_suffix (h : isIntegerSuffix cs = true ∨ isRealSuffix cs = true)
    (hc : c ∈ cs) : isWordChar c = true := by
  have hlower : ∀ c ∈ cs.map Char.toLower, isWordChar c = true := by
    rcases h with h | h
    · unfold isIntegerSuffix at h
      split at h
      case h_6 => cases h
      all_goals
        next hsuffix =>
          rw [hsuffix]
          exact forall_mem_of_all (by decide)
    · unfold isRealSuffix at h
      split at h
      case h_5 => cases h
      all_goals
        next hsuffix =>
          rw [hsuffix]
          exact forall_mem_of_all (by decide)
  exact isWordChar_of_toLower (hlower _ (List.mem_map_of_mem hc))

theorem digitRun?_eq_some (h : digitRun? cs = some (digits, rest)) :
    cs = digits ++ rest ∧ (∀ c ∈ digits, isDigitOrGap c = true) ∧
      ∃ d ∈ digits.head?, d.isDigit = true := by
  unfold digitRun? at h
  split at h
  · next c more =>
    split at h
    · next hdigit =>
      obtain ⟨rfl, rfl⟩ := Prod.mk.inj (Option.some.inj h)
      refine ⟨List.takeWhile_append_dropWhile.symm, fun c hc => List.mem_takeWhile_imp hc,
        c, ?_, hdigit⟩
      have hgap : isDigitOrGap c = true := Bool.or_eq_true_iff.mpr (.inl hdigit)
      rw [List.takeWhile_cons_of_pos hgap]
      rfl
    · cases h
  · cases h

theorem eq_or_eq_cons_sign (cs : List Char) :
    (sign cs).2 = cs ∨ ∃ mark, (mark = '+' ∨ mark = '-') ∧ cs = mark :: (sign cs).2 := by
  unfold sign
  split
  · exact .inr ⟨'-', .inr rfl, rfl⟩
  · exact .inr ⟨'+', .inl rfl, rfl⟩
  · exact .inl rfl

theorem sign_of_not_mem (h : c ∉ ['+', '-']) : sign (c :: rest) = (false, c :: rest) := by
  unfold sign
  split
  · next hmark =>
    obtain ⟨rfl, -⟩ := List.cons.inj hmark
    exact absurd (by decide) h
  · next hmark =>
    obtain ⟨rfl, -⟩ := List.cons.inj hmark
    exact absurd (by decide) h
  · rfl

theorem isTail_of_exponent? {power : Int} (h : exponent? cs = some (power, rest))
    (hsuffix : isRealSuffix rest = true) : IsTail cs := by
  cases cs with
  | nil => exact .word fun _ hc => nomatch hc
  | cons e more =>
      rw [exponent?] at h
      split at h
      · next he =>
        have he := beq_iff_eq.mp he
        dsimp only at h
        split at h
        · cases h
        · next hdigits =>
          obtain ⟨-, rfl⟩ := Prod.mk.inj (Option.some.inj h)
          have hword : ∀ c ∈ (sign more).2, isWordChar c = true := by
            intro c hc
            rw [← List.takeWhile_append_dropWhile (p := Char.isDigit) (l := (sign more).2),
              List.mem_append] at hc
            rcases hc with hc | hc
            · exact isWordChar_of_isDigit (List.mem_takeWhile_imp hc)
            · exact isWordChar_of_mem_suffix (.inr hsuffix) hc
          obtain ⟨digit, others, hrest, hdigit⟩ :
              ∃ digit others, (sign more).2 = digit :: others ∧ digit.isDigit = true := by
            cases hrest : (sign more).2 with
            | nil =>
                rw [hrest] at hdigits
                exact absurd rfl hdigits
            | cons digit others =>
                refine ⟨digit, others, rfl, Bool.of_not_eq_false fun hdigit => hdigits ?_⟩
                rw [hrest, List.takeWhile_cons, hdigit]
                rfl
          rw [hrest] at hword
          rcases eq_or_eq_cons_sign more with hplain | ⟨mark, hmark, hsigned⟩
          · refine .word (List.forall_mem_cons.mpr ⟨isWordChar_of_toLower ?_, ?_⟩)
            · rw [he]
              decide
            · rwa [← hplain, hrest]
          · rw [hsigned, hrest]
            exact .signed he hmark hdigit (List.forall_mem_cons.mp hword).2
      · obtain ⟨-, rfl⟩ := Prod.mk.inj (Option.some.inj h)
        exact .word fun _ hc => isWordChar_of_mem_suffix (.inr hsuffix) hc

/-! ### Lengths -/

theorem numberLength_word (h : ∀ c ∈ cs, isWordChar c = true) : numberLength cs = cs.length := by
  have hwhole : cs.takeWhile isWordChar = cs := List.takeWhile_eq_self_iff.mpr h
  simp [numberLength, hwhole]

theorem toLower_of_isDigitOrGap (h : isDigitOrGap c = true) : c.toLower = c := by
  rcases Bool.or_eq_true_iff.mp h with hdigit | hgap
  · exact toLower_of_isDigit hdigit
  · rw [beq_iff_eq.mp hgap]
    decide

/-- Digits do not begin like a hexadecimal number, even with an exponent behind them. -/
theorem take_two_ne {whole : List Char} (h : ∀ c ∈ whole, isDigitOrGap c = true)
    {exponent : List Char} (hexponent : exponent ⊆ ['e']) :
    (whole.map Char.toLower ++ exponent).take 2 ≠ ['0', 'x'] := by
  intro hhex
  have hmem : 'x' ∈ whole.map Char.toLower ++ exponent :=
    List.take_subset 2 _ (hhex ▸ List.mem_cons_of_mem _ (List.mem_singleton_self _))
  rcases List.mem_append.mp hmem with hwhole | hexp
  · obtain ⟨c, hc, hlower⟩ := List.mem_map.mp hwhole
    rw [toLower_of_isDigitOrGap (h c hc)] at hlower
    exact absurd (hlower ▸ h c hc) (by decide)
  · exact absurd (hexponent hexp) (by decide)

theorem takeWhile_exponent {e mark : Char} (h : ∀ c ∈ cs, isWordChar c = true)
    (he : e.toLower = 'e') (hmark : mark = '+' ∨ mark = '-') :
    (cs ++ [e] ++ mark :: rest).takeWhile isWordChar = cs ++ [e] := by
  have hexponent : isWordChar e = true := isWordChar_of_toLower (by rw [he]; decide)
  refine Source.takeWhile_isWordChar (List.forall_mem_append.mpr ⟨h, ?_⟩) fun c hc => ?_
  · exact List.forall_mem_singleton.mpr hexponent
  · obtain rfl := Option.some.inj hc
    rcases hmark with rfl | rfl <;> decide

theorem numberLength_append {whole tail : List Char} (hwhole : ∀ c ∈ whole, isDigitOrGap c = true)
    (htail : IsTail tail) : numberLength (whole ++ tail) = (whole ++ tail).length := by
  have hword : ∀ c ∈ whole, isWordChar c = true :=
    fun c hc => isWordChar_of_isDigitOrGap (hwhole c hc)
  cases htail with
  | word h => exact numberLength_word (List.forall_mem_append.mpr ⟨hword, h⟩)
  | @signed e mark digit rest he hmark hdigit hrest =>
      have hall : (digit :: rest).takeWhile isWordChar = digit :: rest :=
        List.takeWhile_eq_self_iff.mpr
          (List.forall_mem_cons.mpr ⟨isWordChar_of_isDigit hdigit, hrest⟩)
      have hdecimal := take_two_ne hwhole (List.Subset.refl ['e'])
      rw [List.append_cons, numberLength, takeWhile_exponent hword he hmark, List.drop_left]
      rcases hmark with rfl | rfl <;>
        simp [hdecimal, he, hdigit, hall] <;> omega

theorem numberLength_point {whole part tail : List Char}
    (hwhole : ∀ c ∈ whole, isDigitOrGap c = true) (hpart : ∀ c ∈ part, isDigitOrGap c = true)
    (hdigit : ∃ d ∈ part.head?, d.isDigit = true) (htail : IsTail tail) :
    numberLength (whole ++ '.' :: (part ++ tail)) = (whole ++ '.' :: (part ++ tail)).length := by
  have hword : ∀ c ∈ whole, isWordChar c = true :=
    fun c hc => isWordChar_of_isDigitOrGap (hwhole c hc)
  have hwords : ∀ c ∈ part, isWordChar c = true :=
    fun c hc => isWordChar_of_isDigitOrGap (hpart c hc)
  have htake : (whole ++ '.' :: (part ++ tail)).takeWhile isWordChar = whole :=
    Source.takeWhile_isWordChar hword fun c hc => by
      obtain rfl := Option.some.inj hc
      decide
  obtain ⟨d, hd, hdigit⟩ := hdigit
  obtain ⟨more, rfl⟩ : ∃ more, part = d :: more := by
    cases part with
    | nil => cases hd
    | cons first more => exact ⟨more, by rw [Option.some.inj hd]⟩
  have hdecimal := take_two_ne hwhole (List.nil_subset ['e'])
  rw [List.append_nil] at hdecimal
  rw [numberLength, htake, List.drop_left]
  cases htail with
  | word h =>
      have hall : (d :: more ++ tail).takeWhile isWordChar = d :: more ++ tail :=
        List.takeWhile_eq_self_iff.mpr (List.forall_mem_append.mpr ⟨hwords, h⟩)
      rw [List.cons_append] at hall
      simp [hdigit, hall]
  | @signed e mark digit rest he hmark hsigned hrest =>
      have htaken : (d :: more ++ [e] ++ mark :: digit :: rest).takeWhile isWordChar =
          d :: more ++ [e] := takeWhile_exponent hwords he hmark
      have hall : (digit :: rest).takeWhile isWordChar = digit :: rest :=
        List.takeWhile_eq_self_iff.mpr
          (List.forall_mem_cons.mpr ⟨isWordChar_of_isDigit hsigned, hrest⟩)
      have hdrop : (d :: (more ++ e :: mark :: digit :: rest)).drop (d :: (more ++ [e])).length =
          mark :: digit :: rest := by
        have hsplit : d :: (more ++ e :: mark :: digit :: rest) =
            d :: (more ++ [e]) ++ mark :: digit :: rest := by simp
        rw [hsplit, List.drop_left]
      have hlast : (d.toLower :: (more.map Char.toLower ++ ['e'])).getLast? = some 'e' := by
        rw [← List.cons_append, List.getLast?_append]
        rfl
      rw [← List.append_cons, List.cons_append, List.cons_append] at htaken
      rw [List.cons_append]
      simp only [hdigit, if_true, htaken, hdrop]
      rcases hmark with rfl | rfl <;> simp [hdecimal, hlast, he, hsigned, hall] <;> omega

/-! ### Numbers -/

/-- Whether a text is a number in the source: it begins like one, and its first piece is all of
it. -/
def IsNumber (cs : List Char) : Prop :=
  (∃ c ∈ cs.head?, c.isDigit = true ∨ c = '.') ∧ Source.firstPiece cs = (.literal, cs.length)

theorem isNumber_of_numberLength (hdigit : ∃ c ∈ cs.head?, c.isDigit = true)
    (hlength : numberLength cs = cs.length) : IsNumber cs := by
  obtain ⟨c, hc, hdigit⟩ := hdigit
  refine ⟨⟨c, hc, .inl hdigit⟩, ?_⟩
  cases cs with
  | nil => cases hc
  | cons first rest =>
      obtain rfl := Option.some.inj hc
      rw [Source.firstPiece_digit hdigit, hlength]

theorem isNumber_point (hdigit : ∃ c ∈ cs.head?, c.isDigit = true)
    (hlength : numberLength cs = cs.length) : IsNumber ('.' :: cs) := by
  obtain ⟨c, hc, hdigit⟩ := hdigit
  refine ⟨⟨'.', rfl, .inr rfl⟩, ?_⟩
  cases cs with
  | nil => cases hc
  | cons first rest =>
      obtain rfl := Option.some.inj hc
      have hblank : Source.blankLength ('.' :: first :: rest) = 0 :=
        Source.blankLength_ascii (by decide) _
      rw [Source.firstPiece.eq_def, hblank, Source.stringOpening?_eq_none (by decide)]
      show (if first.isDigit then _ else _) = _
      rw [if_pos hdigit, hlength, Nat.add_comm]
      rfl

theorem isNumber_of_decimal? {read : Except Decimal.LimitError Nat} (h : decimal? cs = some read) :
    IsNumber cs := by
  obtain ⟨⟨digits, rest⟩, hrun, hsuffix⟩ := Option.bind_eq_some_iff.mp h
  obtain ⟨rfl, hdigits, d, hd, hdigit⟩ := digitRun?_eq_some hrun
  dsimp only at hsuffix
  split at hsuffix
  · next hinteger =>
    refine isNumber_of_numberLength ⟨d, ?_, hdigit⟩ (numberLength_append hdigits (.word ?_))
    · rw [List.head?_append]
      exact Option.or_eq_some_iff.mpr (.inl hd)
    · exact fun c hc => isWordChar_of_mem_suffix (.inl hinteger) hc
  · cases hsuffix

theorem isNumber_of_hexadecimal? {n : Nat} (h : hexadecimal? cs = some n) : IsNumber cs := by
  unfold hexadecimal? at h
  split at h
  · next x rest =>
    split at h
    · next hx =>
      dsimp only at h
      split at h
      · next hread =>
        refine isNumber_of_numberLength ⟨'0', rfl, by decide⟩ (numberLength_word ?_)
        have hrest : ∀ c ∈ rest, isWordChar c = true := by
          intro c hc
          rw [← List.takeWhile_append_dropWhile (p := fun c => isHexDigit c || c == '_')
            (l := rest), List.mem_append] at hc
          rcases hc with hc | hc
          · have hdigit := List.mem_takeWhile_imp hc
            rcases Bool.or_eq_true_iff.mp hdigit with hhex | hgap
            · exact isWordChar_of_isHexDigit hhex
            · exact isWordChar_of_isDigitOrGap (Bool.or_eq_true_iff.mpr (.inr hgap))
          · exact isWordChar_of_mem_suffix (.inl (Bool.and_eq_true_iff.mp hread).2) hc
        have hmark : isWordChar x = true := isWordChar_of_toLower (by rw [beq_iff_eq.mp hx]; decide)
        exact List.forall_mem_cons.mpr ⟨by decide, List.forall_mem_cons.mpr ⟨hmark, hrest⟩⟩
      · cases h
    · cases h
  · cases h

theorem isNumber_of_integer? {read : Except Decimal.LimitError Int} (h : integer? cs = some read) :
    IsNumber (sign cs).2 := by
  obtain ⟨k, hk, -⟩ := Option.bind_eq_some_iff.mp h
  rcases Option.or_eq_some_iff.mp hk with hhex | ⟨-, hdecimal⟩
  · obtain ⟨n, hn, -⟩ := Option.map_eq_some_iff.mp hhex
    exact isNumber_of_hexadecimal? hn
  · exact isNumber_of_decimal? hdecimal

theorem isNumber_of_significand? {whole part : List Char}
    (h : significand? cs = some (whole, part, rest)) (htail : IsTail rest) : IsNumber cs := by
  unfold significand? at h
  split at h
  · next first after hrun =>
    obtain ⟨rfl, hwhole, d, hd, hdigit⟩ := digitRun?_eq_some hrun
    obtain ⟨⟨part, tail⟩, hpart, hsome⟩ := Option.bind_eq_some_iff.mp h
    obtain ⟨rfl, hpart, hstart⟩ := digitRun?_eq_some hpart
    obtain ⟨rfl, rfl, rfl⟩ : first = whole ∧ part = _ ∧ tail = rest := by simpa using hsome
    refine isNumber_of_numberLength ⟨d, ?_, hdigit⟩ (numberLength_point hwhole hpart hstart htail)
    rw [List.head?_append]
    exact Option.or_eq_some_iff.mpr (.inl hd)
  · next first after _ hrun =>
    obtain ⟨rfl, hwhole, d, hd, hdigit⟩ := digitRun?_eq_some hrun
    obtain ⟨rfl, -, rfl⟩ : first = whole ∧ [] = part ∧ after = rest := by simpa using h
    refine isNumber_of_numberLength ⟨d, ?_, hdigit⟩ (numberLength_append hwhole htail)
    rw [List.head?_append]
    exact Option.or_eq_some_iff.mpr (.inl hd)
  · split at h
    · next after _ =>
      obtain ⟨⟨part, tail⟩, hpart, hsome⟩ := Option.bind_eq_some_iff.mp h
      obtain ⟨rfl, hpart, d, hd, hdigit⟩ := digitRun?_eq_some hpart
      obtain ⟨-, rfl, rfl⟩ : [] = whole ∧ part = _ ∧ tail = rest := by simpa using hsome
      refine isNumber_point ⟨d, ?_, hdigit⟩ (numberLength_append hpart htail)
      rw [List.head?_append]
      exact Option.or_eq_some_iff.mpr (.inl hd)
    · cases h

theorem isNumber_of_real? {x : Float} (h : real? cs = some x) : IsNumber (sign cs).2 := by
  obtain ⟨⟨whole, part, rest⟩, hsignificand, h⟩ := Option.bind_eq_some_iff.mp h
  obtain ⟨⟨power, tail⟩, hexponent, h⟩ := Option.bind_eq_some_iff.mp h
  dsimp only at h
  split at h
  · next hsuffix =>
    exact isNumber_of_significand? hsignificand (isTail_of_exponent? hexponent hsuffix)
  · cases h

end RouteLinks.Literal
