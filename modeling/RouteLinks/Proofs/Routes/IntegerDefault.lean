import Mathlib.Data.List.Induction
import RouteLinks.Proofs.Routes.Literal
import RouteLinks.Proofs.Routes.Numeral
import RouteLinks.Proofs.Text.Fields
/-!
# Defaults that are whole numbers

A whole number has many spellings: it is decimal or hexadecimal, its letters are small or capital,
zeros stand in front, underscores between the digits, and a suffix behind them. Every spelling is
read as the number, and nothing else is read as a whole number; but a decimal number with too many
digits is not read at all. Letters that could belong to an exponent, or to the suffix of a real
number, are no matter: whole numbers are tried first, and a run of digits takes all that it can.
-/

namespace RouteLinks.Literal

variable {cs digits rest : List Char} {suffix expression : String} {c x : Char} {base n : Nat}
  {k : Int}

/-! ### Spellings -/

def digitChars (d : Nat) : List Char := [Nat.digitChar d, (Nat.digitChar d).toUpper]

/-- A run of digits and underscores spells a number in a base. -/
inductive Spells (base : Nat) : List Char → Nat → Prop where
  | nil : Spells base [] 0
  | digit {cs : List Char} {n d : Nat} {c : Char} (h : Spells base cs n) (hd : d < base)
      (hc : c ∈ digitChars d) : Spells base (cs ++ [c]) (n * base + d)
  | gap {cs : List Char} {n : Nat} (h : Spells base cs n) : Spells base (cs ++ ['_']) n

/-- A whole number in a base, without its sign and suffix. A decimal one begins with a digit, and a
hexadecimal one has a digit somewhere behind its mark. -/
inductive IsMagnitude : Nat → List Char → Nat → Prop where
  | decimal {digits : List Char} {n : Nat} (h : Spells 10 digits n)
      (hfirst : ∃ c ∈ digits.head?, c ≠ '_') : IsMagnitude 10 digits n
  | hexadecimal {x : Char} {digits : List Char} {n : Nat} (hx : x = 'x' ∨ x = 'X')
      (h : Spells 16 digits n) (hdigit : ∃ c ∈ digits, c ≠ '_') :
      IsMagnitude 16 ('0' :: x :: digits) n

def digitCount (digits : List Char) : Nat := (digits.filter (· != '_')).length

/-- Whether a number has more digits than are read in its base. -/
def IsOverlong (base : Nat) (digits : List Char) : Prop :=
  base = 10 ∧ Decimal.digitLimit < digitCount digits

instance (base : Nat) (digits : List Char) : Decidable (IsOverlong base digits) :=
  inferInstanceAs (Decidable (_ ∧ _))

def readAs (base : Nat) (digits : List Char) (n : Nat) : Except Decimal.LimitError Nat :=
  if IsOverlong base digits then .error ⟨digitCount digits⟩ else .ok n

def integerSuffixes : List String :=
  ["", "u", "U", "l", "L", "ul", "uL", "Ul", "UL", "lu", "lU", "Lu", "LU"]

inductive Sign where
  | none
  | plus
  | minus

namespace Sign

def written : Sign → List Char
  | none => []
  | plus => ['+']
  | minus => ['-']

/-- The number of a size that has the sign. -/
def of : Sign → Nat → Int
  | minus, n => -n
  | _, n => n

end Sign

/-- A whole number as it is written. -/
def integerText (s : Sign) (digits : List Char) (suffix : String) : String :=
  String.ofList (s.written ++ (digits ++ suffix.toList))

/-! ### Letters in either case -/

def caseVariants : List Char → List (List Char)
  | [] => [[]]
  | d :: small => (caseVariants small).flatMap fun more => [d :: more, d.toUpper :: more]

theorem mem_caseVariants (cs : List Char) : cs ∈ caseVariants (cs.map Char.toLower) := by
  induction cs with
  | nil => exact List.mem_singleton_self _
  | cons c rest ih =>
      refine List.mem_flatMap.mpr ⟨rest, ih, ?_⟩
      obtain hc | hc := eq_or_eq_of_toLower (c := c) rfl
      · exact List.mem_cons.mpr (.inl (by rw [← hc]))
      · exact List.mem_cons_of_mem _ (List.mem_singleton.mpr (by rw [← hc]))

theorem isIntegerSuffix_iff : isIntegerSuffix cs = true ↔ String.ofList cs ∈ integerSuffixes := by
  constructor
  · intro h
    have htable : ∀ small ∈ [[], ['u'], ['l'], ['u', 'l'], ['l', 'u']],
        ∀ cs ∈ caseVariants small, String.ofList cs ∈ integerSuffixes := by decide
    refine htable (cs.map Char.toLower) ?_ cs (mem_caseVariants cs)
    unfold isIntegerSuffix at h
    split at h
    case h_6 => cases h
    all_goals
      next hsmall =>
        rw [hsmall]
        decide
  · intro h
    have htable : ∀ s ∈ integerSuffixes, isIntegerSuffix s.toList = true := by decide
    have hsuffix := htable _ h
    rwa [String.toList_ofList] at hsuffix

theorem toLower_eq_x_iff : x.toLower = 'x' ↔ x = 'x' ∨ x = 'X' :=
  ⟨eq_or_eq_of_toLower, by rintro (rfl | rfl) <;> decide⟩

/-! ### Digits -/

theorem digit_of_mem_digitChars {d : Nat} (hd : d < 16) (hc : c ∈ digitChars d) :
    c ≠ '_' ∧ hexDigit c = d ∧ isHexDigit c = true ∧ (c.isDigit = true ↔ d < 10) := by
  have htable : ∀ d < 16, ((digitChars d).all fun c => decide
      (c ≠ '_' ∧ hexDigit c = d ∧ isHexDigit c = true ∧ (c.isDigit = true ↔ d < 10))) = true := by
    decide
  exact forall_mem_of_all (htable d hd) c hc

theorem mem_digitChars_of_isHexDigit (h : isHexDigit c = true) :
    hexDigit c < 16 ∧ c ∈ digitChars (hexDigit c) := by
  have hbound : c.toNat < 103 := by
    simp only [isHexDigit, Bool.or_eq_true, Bool.and_eq_true, decide_eq_true_eq] at h
    rcases h with (hdigit | hlower) | hupper
    · exact Nat.lt_of_le_of_lt (bounds_of_isDigit hdigit).2 (by decide)
    · exact Nat.lt_succ_of_le hlower.2
    · exact Nat.lt_of_le_of_lt hupper.2 (by decide)
  exact of_toNat_lt
    (p := fun c => isHexDigit c = true → hexDigit c < 16 ∧ c ∈ digitChars (hexDigit c))
    (by decide) hbound h

theorem isDigitOrGap_iff : isDigitOrGap c = true ↔ c = '_' ∨ ∃ d < 10, c ∈ digitChars d := by
  rw [isDigitOrGap, Bool.or_eq_true, beq_iff_eq, or_comm]
  refine or_congr_right ⟨fun hdigit => ?_, fun ⟨d, hd, hc⟩ => ?_⟩
  · have hhex : isHexDigit c = true := by simp [isHexDigit, hdigit]
    obtain ⟨hlt, hmem⟩ := mem_digitChars_of_isHexDigit hhex
    exact ⟨_, (digit_of_mem_digitChars hlt hmem).2.2.2.mp hdigit, hmem⟩
  · exact (digit_of_mem_digitChars (Nat.lt_trans hd (by decide)) hc).2.2.2.mpr hd

def isHexDigitOrGap (c : Char) : Bool := isHexDigit c || c == '_'

theorem isHexDigitOrGap_iff :
    isHexDigitOrGap c = true ↔ c = '_' ∨ ∃ d < 16, c ∈ digitChars d := by
  rw [isHexDigitOrGap, Bool.or_eq_true, beq_iff_eq, or_comm]
  refine or_congr_right ⟨fun hdigit => ⟨_, mem_digitChars_of_isHexDigit hdigit⟩, ?_⟩
  exact fun ⟨d, hd, hc⟩ => (digit_of_mem_digitChars hd hc).2.2.1

theorem number_concat (base : Nat) (cs : List Char) (c : Char) :
    number base (cs ++ [c]) =
      if c == '_' then number base cs else number base cs * base + hexDigit c := by
  rw [number, List.foldl_append]
  rfl

/-- A run spells exactly one number, the one that it is read as. -/
theorem spells_iff {base : Nat} (hbase : base ≤ 16) : Spells base cs n ↔
    (∀ c ∈ cs, c = '_' ∨ ∃ d < base, c ∈ digitChars d) ∧ number base cs = n := by
  constructor
  · intro h
    induction h with
    | nil => exact ⟨fun _ hc => absurd hc List.not_mem_nil, rfl⟩
    | @digit cs n d c _ hd hc ih =>
        obtain ⟨hne, hvalue, -⟩ := digit_of_mem_digitChars (Nat.lt_of_lt_of_le hd hbase) hc
        refine ⟨List.forall_mem_append.mpr ⟨ih.1, ?_⟩, ?_⟩
        · exact List.forall_mem_singleton.mpr (.inr ⟨d, hd, hc⟩)
        · rw [number_concat, if_neg (by simpa using hne), ih.2, hvalue]
    | gap _ ih =>
        refine ⟨List.forall_mem_append.mpr ⟨ih.1, ?_⟩, ?_⟩
        · exact List.forall_mem_singleton.mpr (.inl rfl)
        · rw [number_concat, if_pos BEq.rfl, ih.2]
  · rintro ⟨hrun, rfl⟩
    induction cs using List.reverseRecOn with
    | nil => exact .nil
    | append_singleton cs c ih =>
        obtain ⟨hrest, hlast⟩ := List.forall_mem_append.mp hrun
        rw [number_concat]
        obtain rfl | ⟨d, hd, hc⟩ := List.forall_mem_singleton.mp hlast
        · exact .gap (ih hrest)
        · obtain ⟨hne, hvalue, -⟩ := digit_of_mem_digitChars (Nat.lt_of_lt_of_le hd hbase) hc
          rw [if_neg (by simpa using hne), hvalue]
          exact .digit (ih hrest) hd hc

theorem spells_ten_iff :
    Spells 10 cs n ↔ (∀ c ∈ cs, isDigitOrGap c = true) ∧ number 10 cs = n := by
  simp only [spells_iff (show 10 ≤ 16 by decide), isDigitOrGap_iff]

theorem spells_sixteen_iff :
    Spells 16 cs n ↔ (∀ c ∈ cs, isHexDigitOrGap c = true) ∧ number 16 cs = n := by
  simp only [spells_iff (Nat.le_refl 16), isHexDigitOrGap_iff]

theorem ofDecimal_eq (h : Spells 10 digits n) : ofDecimal digits = readAs 10 digits n := by
  simp only [ofDecimal, readAs, IsOverlong, digitCount, (spells_ten_iff.mp h).2, true_and]

/-- A decimal run that does not begin with an underscore begins with a digit. -/
theorem Spells.exists_cons (h : Spells 10 digits n) (hfirst : ∃ c ∈ digits.head?, c ≠ '_') :
    ∃ c more, digits = c :: more ∧ c.isDigit = true := by
  obtain ⟨c, hc, hne⟩ := hfirst
  obtain ⟨more, rfl⟩ := List.head?_eq_some_iff.mp hc
  have hgap := (spells_ten_iff.mp h).1 c List.mem_cons_self
  exact ⟨c, more, rfl, by simpa [isDigitOrGap, hne] using hgap⟩

/-! ### Numbers without a sign -/

theorem takeWhile_dropWhile_suffix {p : Char → Bool} (hdigits : ∀ c ∈ digits, p c = true)
    (hsuffix : ∀ c ∈ rest, p c = false) :
    (digits ++ rest).takeWhile p = digits ∧ (digits ++ rest).dropWhile p = rest := by
  rw [List.takeWhile_append_of_pos hdigits, List.dropWhile_append_of_pos hdigits]
  cases rest with
  | nil => exact ⟨List.append_nil digits, rfl⟩
  | cons c more =>
      have hc : ¬p c = true := by simp [hsuffix c List.mem_cons_self]
      rw [List.takeWhile_cons_of_neg hc, List.dropWhile_cons_of_neg hc]
      exact ⟨List.append_nil digits, rfl⟩

theorem of_mem_suffix (h : suffix ∈ integerSuffixes) (hc : c ∈ suffix.toList) :
    isHexDigitOrGap c = false ∧ isDigitOrGap c = false ∧ c.toLower ≠ 'x' ∧
      Text.isBlank c = false := by
  have htable : ∀ suffix ∈ integerSuffixes, (suffix.toList.all fun c => decide
      (isHexDigitOrGap c = false ∧ isDigitOrGap c = false ∧ c.toLower ≠ 'x' ∧
        Text.isBlank c = false)) = true := by decide
  exact forall_mem_of_all (htable suffix h) c hc

theorem isIntegerSuffix_toList (h : suffix ∈ integerSuffixes) :
    isIntegerSuffix suffix.toList = true :=
  isIntegerSuffix_iff.mpr (by rwa [String.ofList_toList])

theorem exists_suffix (h : isIntegerSuffix cs = true) :
    ∃ suffix ∈ integerSuffixes, cs = suffix.toList :=
  ⟨_, isIntegerSuffix_iff.mp h, String.toList_ofList.symm⟩

theorem hexadecimal?_eq_some_iff : hexadecimal? cs = some n ↔
    ∃ x digits, ∃ suffix ∈ integerSuffixes, (x = 'x' ∨ x = 'X') ∧ Spells 16 digits n ∧
      (∃ c ∈ digits, c ≠ '_') ∧ cs = '0' :: x :: (digits ++ suffix.toList) := by
  constructor
  · intro h
    unfold hexadecimal? at h
    split at h
    · next x rest =>
      split at h
      · next hx =>
        dsimp only at h
        split at h
        · next hread =>
          obtain ⟨hany, hsuffix⟩ := Bool.and_eq_true_iff.mp hread
          obtain ⟨suffix, hmem, hrest⟩ := exists_suffix hsuffix
          obtain ⟨c, hc, hdigit⟩ := List.any_eq_true.mp hany
          have hspells : Spells 16 (rest.takeWhile isHexDigitOrGap) n :=
            spells_sixteen_iff.mpr ⟨fun c hc => List.mem_takeWhile_imp hc, Option.some.inj h⟩
          refine ⟨x, _, suffix, hmem, toLower_eq_x_iff.mp (beq_iff_eq.mp hx), hspells,
            ⟨c, hc, ?_⟩, ?_⟩
          · rintro rfl
            exact absurd hdigit (by decide)
          · rw [← hrest]
            exact congrArg (fun more => '0' :: x :: more) List.takeWhile_append_dropWhile.symm
        · cases h
      · cases h
    · cases h
  · rintro ⟨x, digits, suffix, hsuffix, hx, hspells, ⟨c, hc, hne⟩, rfl⟩
    obtain ⟨hrun, hvalue⟩ := spells_sixteen_iff.mp hspells
    obtain ⟨htake, hdrop⟩ := takeWhile_dropWhile_suffix hrun
      fun c hc => (of_mem_suffix hsuffix hc).1
    have hdigit : digits.any isHexDigit = true := by
      refine List.any_eq_true.mpr ⟨c, hc, ?_⟩
      simpa [isHexDigitOrGap, hne] using hrun c hc
    have hclass : isHexDigitOrGap = fun c => isHexDigit c || c == '_' := rfl
    rw [hclass] at htake hdrop
    simp [hexadecimal?, toLower_eq_x_iff.mpr hx, htake, hdrop, hdigit, hvalue,
      isIntegerSuffix_toList hsuffix]

theorem decimal?_eq_some_iff {read : Except Decimal.LimitError Nat} : decimal? cs = some read ↔
    ∃ n digits, ∃ suffix ∈ integerSuffixes, Spells 10 digits n ∧ (∃ c ∈ digits.head?, c ≠ '_') ∧
      cs = digits ++ suffix.toList ∧ read = readAs 10 digits n := by
  constructor
  · intro h
    obtain ⟨⟨digits, rest⟩, hread, hsuffix⟩ := Option.bind_eq_some_iff.mp h
    obtain ⟨rfl, hrun, c, hc, hdigit⟩ := digitRun?_eq_some hread
    dsimp only at hsuffix
    split at hsuffix
    · next hinteger =>
      obtain ⟨suffix, hmem, rfl⟩ := exists_suffix hinteger
      have hspells : Spells 10 digits (number 10 digits) := spells_ten_iff.mpr ⟨hrun, rfl⟩
      refine ⟨_, digits, suffix, hmem, hspells, ⟨c, hc, ?_⟩, rfl, ?_⟩
      · rintro rfl
        exact absurd hdigit (by decide)
      · rw [← ofDecimal_eq hspells, Option.some.inj hsuffix]
    · cases hsuffix
  · rintro ⟨n, digits, suffix, hsuffix, hspells, hfirst, rfl, rfl⟩
    have hrun := (spells_ten_iff.mp hspells).1
    rw [← ofDecimal_eq hspells]
    obtain ⟨c, more, rfl, hdigit⟩ := hspells.exists_cons hfirst
    obtain ⟨htake, hdrop⟩ := takeWhile_dropWhile_suffix hrun
      fun c hc => (of_mem_suffix hsuffix hc).2.1
    rw [List.cons_append] at htake hdrop
    have hread : digitRun? (c :: (more ++ suffix.toList)) = some (c :: more, suffix.toList) := by
      rw [digitRun?, if_pos hdigit, htake, hdrop]
    rw [List.cons_append, decimal?, hread]
    simp [isIntegerSuffix_toList hsuffix]

theorem hexadecimal?_eq_none {read : Except Decimal.LimitError Nat} (h : decimal? cs = some read) :
    hexadecimal? cs = none := by
  obtain ⟨n, digits, suffix, hsuffix, hspells, -, rfl, -⟩ := decimal?_eq_some_iff.mp h
  rw [Option.eq_none_iff_forall_ne_some]
  intro m hhex
  obtain ⟨x, more, _, _, hx, -, -, hsame⟩ := hexadecimal?_eq_some_iff.mp hhex
  have hlower := toLower_eq_x_iff.mpr hx
  have hmem : x ∈ digits ++ suffix.toList := by
    rw [hsame]
    exact List.mem_cons_of_mem _ List.mem_cons_self
  obtain hdigit | hletter := List.mem_append.mp hmem
  · have hgap := (spells_ten_iff.mp hspells).1 x hdigit
    rw [toLower_of_isDigitOrGap hgap] at hlower
    subst hlower
    exact absurd hgap (by decide)
  · exact (of_mem_suffix hsuffix hletter).2.2.1 hlower

theorem magnitude_eq_some_iff {read : Except Decimal.LimitError Nat} :
    ((hexadecimal? cs).map .ok).or (decimal? cs) = some read ↔
      ∃ base n digits, ∃ suffix ∈ integerSuffixes, IsMagnitude base digits n ∧
        cs = digits ++ suffix.toList ∧ read = readAs base digits n := by
  constructor
  · intro h
    obtain hhex | ⟨-, hdecimal⟩ := Option.or_eq_some_iff.mp h
    · obtain ⟨n, hn, rfl⟩ := Option.map_eq_some_iff.mp hhex
      obtain ⟨x, digits, suffix, hsuffix, hx, hspells, hdigit, rfl⟩ :=
        hexadecimal?_eq_some_iff.mp hn
      exact ⟨16, n, _, suffix, hsuffix, .hexadecimal hx hspells hdigit, rfl, rfl⟩
    · obtain ⟨n, digits, suffix, hsuffix, hspells, hfirst, rfl, hread⟩ :=
        decimal?_eq_some_iff.mp hdecimal
      exact ⟨10, n, digits, suffix, hsuffix, .decimal hspells hfirst, rfl, hread⟩
  · rintro ⟨base, n, digits, suffix, hsuffix, hdigits, rfl, rfl⟩
    cases hdigits with
    | decimal hspells hfirst =>
        have hdecimal : decimal? (digits ++ suffix.toList) = some (readAs 10 digits n) :=
          decimal?_eq_some_iff.mpr ⟨n, digits, suffix, hsuffix, hspells, hfirst, rfl, rfl⟩
        rw [hexadecimal?_eq_none hdecimal, hdecimal]
        rfl
    | @hexadecimal x digits n hx hspells hdigit =>
        have hhex : hexadecimal? ('0' :: x :: digits ++ suffix.toList) = some n :=
          hexadecimal?_eq_some_iff.mpr ⟨x, digits, suffix, hsuffix, hx, hspells, hdigit, rfl⟩
        rw [hhex]
        rfl

/-! ### Signs -/

theorem IsMagnitude.exists_cons (h : IsMagnitude base digits n) :
    ∃ c more, digits = c :: more ∧ c.isDigit = true := by
  cases h with
  | decimal hspells hfirst => exact hspells.exists_cons hfirst
  | hexadecimal _ _ _ => exact ⟨'0', _, rfl, by decide⟩

theorem sign_written_append (s : Sign) (h : ∃ d more, cs = d :: more ∧ d.isDigit = true) :
    (sign (s.written ++ cs)).2 = cs ∧
      ∀ n : Nat, (if (sign (s.written ++ cs)).1 then -(n : Int) else n) = s.of n := by
  obtain ⟨d, more, rfl, hdigit⟩ := h
  cases s with
  | plus => exact ⟨rfl, fun _ => rfl⟩
  | minus => exact ⟨rfl, fun _ => rfl⟩
  | none =>
      have hplain : d ∉ ['+', '-'] := by
        intro hmark
        simp only [List.mem_cons, List.not_mem_nil, or_false] at hmark
        obtain rfl | rfl := hmark <;> exact absurd hdigit (by decide)
      rw [Sign.written, List.nil_append, sign_of_not_mem hplain]
      exact ⟨rfl, fun _ => rfl⟩

theorem exists_sign (cs : List Char) : ∃ s : Sign, cs = s.written ++ (sign cs).2 ∧
    ∀ n : Nat, (if (sign cs).1 then -(n : Int) else n) = s.of n := by
  unfold sign
  split
  · exact ⟨.minus, rfl, fun _ => rfl⟩
  · exact ⟨.plus, rfl, fun _ => rfl⟩
  · exact ⟨.none, rfl, fun _ => rfl⟩

theorem integer?_eq_some_iff {read : Except Decimal.LimitError Int} : integer? cs = some read ↔
    ∃ (s : Sign) (base n : Nat) (digits : List Char), ∃ suffix ∈ integerSuffixes,
      IsMagnitude base digits n ∧ cs = s.written ++ (digits ++ suffix.toList) ∧
        read = (readAs base digits n).map s.of := by
  constructor
  · intro h
    obtain ⟨size, hsize, hread⟩ := Option.bind_eq_some_iff.mp h
    obtain ⟨s, hcs, hof⟩ := exists_sign cs
    obtain ⟨base, n, digits, suffix, hsuffix, hdigits, hrest, rfl⟩ :=
      magnitude_eq_some_iff.mp hsize
    refine ⟨s, base, n, digits, suffix, hsuffix, hdigits, hrest ▸ hcs, ?_⟩
    rw [← Option.some.inj hread]
    exact congrArg (Except.map · (readAs base digits n)) (funext hof)
  · rintro ⟨s, base, n, digits, suffix, hsuffix, hdigits, rfl, rfl⟩
    obtain ⟨c, more, rfl, hdigit⟩ := hdigits.exists_cons
    obtain ⟨hrest, hof⟩ := sign_written_append s ⟨c, more ++ suffix.toList, rfl, hdigit⟩
    have hsize := magnitude_eq_some_iff.mpr ⟨base, n, _, suffix, hsuffix, hdigits, rfl, rfl⟩
    refine Option.bind_eq_some_iff.mpr
      ⟨readAs base (c :: more) n, ?_, congrArg (fun of => some (Except.map of _)) (funext hof)⟩
    rw [← hsize]
    exact congrArg (fun rest => ((hexadecimal? rest).map .ok).or (decimal? rest)) hrest

/-! ### Values -/

/-- A whole number begins with its sign or a digit, so it is taken for nothing else before. -/
theorem value_of_integer? {read : Except Decimal.LimitError Int}
    (h : integer? (Text.trim expression.toList) = some read) :
    value expression = read.map .int := by
  obtain ⟨s, base, n, digits, suffix, _, hdigits, htrim, -⟩ := integer?_eq_some_iff.mp h
  obtain ⟨c, more, rfl, hdigit⟩ := hdigits.exists_cons
  have hmarks : ∀ d ∈ ['n', 't', 'f', '"', '\'', '@'], d.isDigit = false :=
    forall_mem_of_all (by decide)
  have hfirst : c ∉ ['n', 't', 'f', '"', '\'', '@'] :=
    fun hmem => Bool.false_ne_true ((hmarks c hmem).symm.trans hdigit)
  cases s with
  | none => rw [value_of_unmarked htrim hfirst, h]
  | plus => rw [value_of_unmarked htrim (by decide), h]
  | minus => rw [value_of_unmarked htrim (by decide), h]

theorem Spells.isBlank (hbase : base ≤ 16) (h : Spells base digits n)
    (hc : c ∈ digits) : Text.isBlank c = false := by
  have htable : ∀ d < 16, ((digitChars d).all fun c => decide (Text.isBlank c = false)) = true := by
    decide
  obtain rfl | ⟨d, hd, hmem⟩ := ((spells_iff hbase).mp h).1 c hc
  · decide
  · exact forall_mem_of_all (htable d (Nat.lt_of_lt_of_le hd hbase)) c hmem

theorem IsMagnitude.isBlank (h : IsMagnitude base digits n) (hc : c ∈ digits) :
    Text.isBlank c = false := by
  cases h with
  | decimal hspells _ => exact hspells.isBlank (by decide) hc
  | hexadecimal hx hspells _ =>
      rw [List.mem_cons, List.mem_cons] at hc
      obtain rfl | rfl | hc := hc
      · decide
      · obtain rfl | rfl := hx <;> decide
      · exact hspells.isBlank (Nat.le_refl 16) hc

theorem trim_integerText (s : Sign) (hdigits : IsMagnitude base digits n)
    (hsuffix : suffix ∈ integerSuffixes) :
    trim (integerText s digits suffix) = integerText s digits suffix := by
  have hsign : ∀ c ∈ s.written, Text.isBlank c = false := by
    cases s <;> exact forall_mem_of_all (by decide)
  have hblank : ∀ c ∈ s.written ++ (digits ++ suffix.toList), Text.isBlank c = false :=
    List.forall_mem_append.mpr ⟨hsign, List.forall_mem_append.mpr
      ⟨fun _ => hdigits.isBlank, fun _ hc => (of_mem_suffix hsuffix hc).2.2.2⟩⟩
  rw [trim, onChars, integerText, String.toList_ofList]
  exact congrArg String.ofList (Text.trim_eq_self (fun c hc => hblank c (List.mem_of_mem_head? hc))
    fun c hc => hblank c (List.mem_of_mem_getLast? hc))

theorem spells_toDigits (hone : 1 < base) (hbase : base ≤ 16) (n : Nat) :
    Spells base (Nat.toDigits base n) n ∧ ∀ c ∈ Nat.toDigits base n, c ≠ '_' := by
  have hdigit {d : Nat} (hd : d < base) : Nat.digitChar d ≠ '_' :=
    (digit_of_mem_digitChars (Nat.lt_of_lt_of_le hd hbase) List.mem_cons_self).1
  induction n using Nat.strongRecOn with
  | ind n ih =>
      by_cases hlt : n < base
      · have hsingle := Spells.digit (c := Nat.digitChar n) Spells.nil hlt List.mem_cons_self
        rw [Nat.toDigits_of_lt_base hlt]
        exact ⟨by simpa using hsingle, List.forall_mem_singleton.mpr (hdigit hlt)⟩
      · have hle : base ≤ n := Nat.le_of_not_lt hlt
        have hlast : n % base < base := Nat.mod_lt n (Nat.lt_trans Nat.zero_lt_one hone)
        obtain ⟨hfront, hplain⟩ := ih (n / base) (Nat.div_lt_self (by omega) hone)
        have hspells := Spells.digit (c := Nat.digitChar (n % base)) hfront hlast List.mem_cons_self
        rw [Nat.div_add_mod'] at hspells
        rw [Nat.toDigits_of_base_le hone hle]
        exact ⟨hspells, List.forall_mem_append.mpr
          ⟨hplain, List.forall_mem_singleton.mpr (hdigit hlast)⟩⟩

theorem isMagnitude_toDigits (n : Nat) :
    IsMagnitude 10 (Nat.toDigits 10 n) n ∧
      IsMagnitude 16 ('0' :: 'x' :: Nat.toDigits 16 n) n := by
  have hdigit (base : Nat) : ∃ c ∈ (Nat.toDigits base n).head?, c ∈ Nat.toDigits base n :=
    ⟨_, List.head?_eq_some_head Nat.toDigits_ne_nil, List.head_mem _⟩
  constructor
  · obtain ⟨hspells, hplain⟩ := spells_toDigits (show 1 < 10 by decide) (by decide) n
    obtain ⟨c, hfirst, hc⟩ := hdigit 10
    exact .decimal hspells ⟨c, hfirst, hplain c hc⟩
  · obtain ⟨hspells, hplain⟩ := spells_toDigits (show 1 < 16 by decide) (by decide) n
    obtain ⟨c, -, hc⟩ := hdigit 16
    exact .hexadecimal (.inl rfl) hspells ⟨c, hc, hplain c hc⟩

theorem value_integerText (s : Sign) (hdigits : IsMagnitude base digits n)
    (hsuffix : suffix ∈ integerSuffixes) :
    value (integerText s digits suffix) = (readAs base digits n).map fun n => .int (s.of n) := by
  have htrim : Text.trim (integerText s digits suffix).toList =
      s.written ++ (digits ++ suffix.toList) := by
    have hsame := congrArg String.toList (trim_integerText s hdigits hsuffix)
    rw [trim, onChars, String.toList_ofList] at hsame
    exact hsame.trans String.toList_ofList
  rw [value_of_integer? (integer?_eq_some_iff.mpr
    ⟨s, base, n, digits, suffix, hsuffix, hdigits, htrim, rfl⟩)]
  cases readAs base digits n <;> rfl

/-- Every spelling of a whole number, of which there are some for each, has the number as its value,
with the sign in front of it and whatever suffix is behind it, unless it is overlong. -/
theorem value_whole_number (n : Nat) :
    (IsMagnitude 10 (Nat.toDigits 10 n) n ∧ IsMagnitude 16 ('0' :: 'x' :: Nat.toDigits 16 n) n) ∧
      ∀ (s : Sign) (base : Nat) (digits : List Char), IsMagnitude base digits n →
        ∀ suffix ∈ integerSuffixes, value (integerText s digits suffix) =
          if IsOverlong base digits then .error ⟨digitCount digits⟩ else .ok (.int (s.of n)) := by
  refine ⟨isMagnitude_toDigits n, fun s base digits hdigits suffix hsuffix => ?_⟩
  rw [value_integerText s hdigits hsuffix, readAs]
  split <;> rfl

/-- Digits that could be an exponent or the suffix of a real number. -/
theorem value_spaced_hexadecimal :
    IsMagnitude 16 "0X_00_1e_5F_".toList 7775 ∧ "uL" ∈ integerSuffixes ∧
      value "-0X_00_1e_5F_uL" = .ok (.int (-7775)) := by
  have hspells : Spells 16 "_00_1e_5F_".toList 7775 :=
    spells_sixteen_iff.mpr ⟨forall_mem_of_all (by decide), by decide⟩
  have hdigits : IsMagnitude 16 "0X_00_1e_5F_".toList 7775 :=
    .hexadecimal (.inr rfl) hspells ⟨'0', by decide, by decide⟩
  exact ⟨hdigits, by decide, (value_whole_number 7775).2 .minus _ _ hdigits "uL" (by decide)⟩

def overlongDigits : List Char := List.replicate (Decimal.digitLimit + 1) '1'

theorem isMagnitude_overlongDigits :
    IsMagnitude 10 overlongDigits (number 10 overlongDigits) ∧ IsOverlong 10 overlongDigits := by
  have hcount : digitCount overlongDigits = Decimal.digitLimit + 1 := by
    rw [digitCount, overlongDigits, List.filter_replicate_of_pos (by decide), List.length_replicate]
  have hspells : Spells 10 overlongDigits (number 10 overlongDigits) :=
    spells_ten_iff.mpr ⟨fun c hc => by rw [List.eq_of_mem_replicate hc]; decide, rfl⟩
  refine ⟨.decimal hspells ⟨'1', rfl, by decide⟩, rfl, ?_⟩
  rw [hcount]
  exact Nat.lt_succ_self _

/-- A number that is written as a number is written has no value. -/
theorem value_ne_int_overlong :
    IsMagnitude 10 overlongDigits (number 10 overlongDigits) ∧
      value (integerText .none overlongDigits "") ≠ .ok (.int (number 10 overlongDigits)) := by
  obtain ⟨hdigits, hover⟩ := isMagnitude_overlongDigits
  refine ⟨hdigits, ?_⟩
  rw [value_integerText .none hdigits (by decide), readAs, if_pos hover]
  exact fun h => nomatch h

end RouteLinks.Literal
