import Mathlib.Data.List.Basic
import RouteLinks.Unicode.LetterCase
/-!
# Lower case

A text in lower case has characters of which each is its own lower case, and such a text stays as it
is. That no image of a capital is a capital is read off the table, run by run: an image lies before
or behind a run, or in its gaps.
-/

namespace RouteLinks.Unicode

theorem lowerFrom_append (before xs ys : List Char) :
    ∃ front, lowerFrom before (xs ++ ys) = front ++ lowerFrom (xs.reverse ++ before) ys := by
  induction xs generalizing before with
  | nil => exact ⟨[], rfl⟩
  | cons c rest ih =>
      obtain ⟨front, hfront⟩ := ih (c :: before)
      have hbefore : (c :: rest).reverse ++ before = rest.reverse ++ c :: before := by simp
      rw [List.cons_append, lowerFrom, hfront, ← List.append_assoc, hbefore]
      exact ⟨_, rfl⟩

def isLower (c : Char) : Bool := c != 'Σ' && c != 'İ' && lowerChar c == c

theorem lowerFrom_eq_self {cs : List Char} (h : cs.all isLower = true) (before : List Char) :
    lowerFrom before cs = cs := by
  induction cs generalizing before with
  | nil => rfl
  | cons c rest ih =>
      obtain ⟨hc, hrest⟩ := Bool.and_eq_true_iff.mp h
      simp only [isLower, Bool.and_eq_true, bne_iff_ne, beq_iff_eq] at hc
      obtain ⟨⟨hsigma, hdot⟩, hlower⟩ := hc
      rw [lowerFrom, ih hrest]
      simp [hsigma, hdot, hlower]

/-! ### Images of runs -/

/-- Whether the numbers from `first` to `last`, every one or every second, are none of a run. -/
def Run.misses (q : Run) (first last step : Nat) : Bool :=
  last.blt q.first || q.last.blt first ||
    (q.step == 2 && (step == 2 || first == last) && first % 2 != q.first % 2)

theorem Run.has_eq_false {q : Run} {first last step n : Nat} (h : q.misses first last step = true)
    (hlow : first ≤ n) (hhigh : n ≤ last) (hstep : (n - first) % step = 0) : q.has n = false := by
  simp only [misses, Bool.or_eq_true, Bool.and_eq_true, Nat.blt_eq, beq_iff_eq,
    bne_iff_ne] at h
  rw [Bool.eq_false_iff]
  intro hhas
  simp only [has, Bool.and_eq_true, decide_eq_true_eq, beq_iff_eq] at hhas
  obtain ⟨⟨hfirst, hlast⟩, hmember⟩ := hhas
  rcases h with (hbefore | hbehind) | ⟨⟨hgaps, hwide⟩, hparity⟩
  · omega
  · omega
  · rw [hgaps] at hmember
    rcases hwide with rfl | rfl <;> omega

/-- The first and the last image of a run at a distance. -/
def image (n : Nat) (distance : Int) : Nat := (n + distance).toNat

/-- Whether the images of a run are characters beyond ASCII, or a small letter, and no member of any
run. -/
def keepsLower (r : Run) (distance : Int) : Bool :=
  let first := image r.first distance
  let last := image r.last distance
  0 ≤ r.first + distance && r.first ≤ r.last && last < 0x110000 &&
    (last < 0xD800 || 0xE000 ≤ first) &&
    (0x80 ≤ first || (first == last && 97 ≤ first && first ≤ 122)) &&
    (⟨0x130, 0x130, 1⟩ : Run).misses first last r.step &&
    lowerRuns.all fun (q, _) => q.misses first last r.step

theorem keepsLower_lowerRuns :
    (lowerRuns.all fun (r, distance) => keepsLower r distance) = true := by
  decide +kernel

theorem sigma_hasRun : (lowerRuns.any fun (q, _) => q.has 0x3A3) = true := by decide +kernel

theorem isLower_of_not_has {n : Nat} (hvalid : n.isValidChar) (hascii : 0x80 ≤ n)
    (hdot : n ≠ 0x130) (h : ∀ run ∈ lowerRuns, run.1.has n = false) :
    isLower (Char.ofNat n) = true := by
  have htoNat : (Char.ofNat n).toNat = n := by
    rw [Char.ofNat, dif_pos hvalid]
    rfl
  have hsigma : n ≠ 0x3A3 := by
    rintro rfl
    obtain ⟨run, hrun, hhas⟩ := List.any_eq_true.mp sigma_hasRun
    exact Bool.false_ne_true ((h run hrun).symm.trans hhas)
  have hnone : lowerRuns.find? (·.1.has n) = none :=
    List.find?_eq_none.mpr fun run hrun => by simp [h run hrun]
  have hne : ∀ c : Char, c.toNat ≠ n → Char.ofNat n ≠ c := by
    rintro c hc rfl
    exact hc htoNat
  have hlower : lowerChar (Char.ofNat n) = Char.ofNat n := by
    rw [lowerChar, htoNat]
    simp only [hnone]
    rw [if_neg (by omega)]
  simp only [isLower, Bool.and_eq_true, bne_iff_ne, beq_iff_eq]
  exact ⟨⟨hne 'Σ' (Ne.symm hsigma), hne 'İ' (Ne.symm hdot)⟩, hlower⟩

theorem isLower_ascii : ((List.range 0x80).all fun n => isLower (Char.ofNat n).toLower) = true := by
  decide +kernel

theorem isLower_small : ((List.range 26).all fun n => isLower (Char.ofNat (97 + n))) = true := by
  decide +kernel

theorem isLower_lowerChar {c : Char} (hdot : c ≠ 'İ') : isLower (lowerChar c) = true := by
  rw [lowerChar]
  split
  · next hascii =>
    have hlower := List.all_eq_true.mp isLower_ascii c.toNat (List.mem_range.mpr hascii)
    rwa [Char.ofNat_toNat] at hlower
  · next hascii =>
    split
    · next r distance hfind =>
      have hhas := List.find?_some hfind
      simp only [Run.has, Bool.and_eq_true, decide_eq_true_eq, beq_iff_eq] at hhas
      obtain ⟨⟨hfirst, hlast⟩, hstep⟩ := hhas
      have hkeeps := List.all_eq_true.mp keepsLower_lowerRuns _ (List.mem_of_find?_eq_some hfind)
      simp only [keepsLower, Bool.and_eq_true, Bool.or_eq_true, decide_eq_true_eq, beq_iff_eq,
        List.all_eq_true] at hkeeps
      obtain ⟨⟨⟨⟨⟨⟨hzero, _⟩, hbound⟩, hsurrogate⟩, hbeyond⟩, hmisses⟩, hruns⟩ := hkeeps
      show isLower (Char.ofNat (image c.toNat distance)) = true
      have hlow : image r.first distance ≤ image c.toNat distance := by
        unfold image
        omega
      have hhigh : image c.toNat distance ≤ image r.last distance := by
        unfold image
        omega
      have hmember : (image c.toNat distance - image r.first distance) % r.step = 0 := by
        have hsame : image c.toNat distance - image r.first distance = c.toNat - r.first := by
          unfold image
          omega
        rw [hsame, hstep]
      rcases hbeyond with hbeyond | ⟨⟨hone, hmin⟩, hmax⟩
      · refine isLower_of_not_has ?_ (Nat.le_trans hbeyond hlow) ?_ fun run hrun =>
          Run.has_eq_false (hruns run hrun) hlow hhigh hmember
        · unfold Nat.isValidChar
          rcases hsurrogate with hbelow | habove
          · exact .inl (by omega)
          · exact .inr ⟨by omega, by omega⟩
        · intro hat
          have hfalse := Run.has_eq_false hmisses hlow hhigh hmember
          rw [hat] at hfalse
          exact absurd hfalse (by decide)
      · -- A single capital beyond ASCII has a small letter of ASCII.
        have hsmall := List.all_eq_true.mp isLower_small (image c.toNat distance - 97)
          (List.mem_range.mpr (by omega))
        rwa [Nat.add_sub_cancel' (by omega)] at hsmall
    · next hnone =>
      have hvalid : c.toNat.isValidChar := c.valid
      rw [← Char.ofNat_toNat c]
      refine isLower_of_not_has hvalid (by omega) ?_ fun run hrun => ?_
      · rintro hat
        exact hdot (by rw [← Char.ofNat_toNat c, hat])
      · simpa using List.find?_eq_none.mp hnone run hrun

theorem all_isLower_lowerFrom (before cs : List Char) :
    (lowerFrom before cs).all isLower = true := by
  induction cs generalizing before with
  | nil => rfl
  | cons c rest ih =>
      rw [lowerFrom, List.all_append, ih, Bool.and_true]
      split
      · split <;> decide +kernel
      · split
        · decide +kernel
        · next hdot =>
          rw [List.all_cons, List.all_nil, Bool.and_true]
          exact isLower_lowerChar (by simpa using hdot)

theorem toLower_eq_self {s : String} (h : s.toList.all isLower = true) : toLower s = s := by
  rw [toLower, lowerFrom_eq_self h, String.ofList_toList]

theorem all_isLower_toLower (s : String) : (toLower s).toList.all isLower = true := by
  rw [toLower, String.toList_ofList]
  exact all_isLower_lowerFrom [] s.toList

end RouteLinks.Unicode
