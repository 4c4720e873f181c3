import Mathlib.Data.List.Basic
/-!
# Characters one by one

There are few characters of ASCII, so a fact about all of them is checked by looking at each.
-/

namespace RouteLinks

theorem forall_mem_of_all {p : Char → Prop} [DecidablePred p] {cs : List Char}
    (h : (cs.all fun c => decide (p c)) = true) : ∀ c ∈ cs, p c :=
  fun c hc => of_decide_eq_true (List.all_eq_true.mp h c hc)

theorem of_toNat_lt {p : Char → Prop} {bound : Nat} (h : ∀ n < bound, p (Char.ofNat n)) {c : Char}
    (hc : c.toNat < bound) : p c := by
  have hp := h c.toNat hc
  rwa [Char.ofNat_toNat] at hp

theorem toLower_of_not_isUpper {c : Char} (h : ¬c.isUpper = true) : c.toLower = c := by
  refine dif_neg ?_
  exact fun hbounds => h (decide_eq_true hbounds)

theorem toNat_lt_of_isUpper {c : Char} (h : c.isUpper = true) : c.toNat < 91 :=
  Nat.lt_succ_of_le (of_decide_eq_true h).2

theorem eq_or_eq_of_toLower {c d : Char} (h : c.toLower = d) : c = d ∨ c = d.toUpper := by
  subst h
  by_cases hupper : c.isUpper = true
  · have hcase : c.isUpper = true → c = c.toLower.toUpper :=
      of_toNat_lt (p := fun c => c.isUpper = true → c = c.toLower.toUpper) (by decide)
        (toNat_lt_of_isUpper hupper)
    exact .inr (hcase hupper)
  · exact .inl (toLower_of_not_isUpper hupper).symm

end RouteLinks
