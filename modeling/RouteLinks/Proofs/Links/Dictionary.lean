import RouteLinks.Proofs.Text.Ascii
import RouteLinks.Routes.Descriptor
/-!
# The dictionary of the framework

A result keeps its route values in a dictionary of the framework, which compares keys without regard
to case and refuses one that it has. How it compares characters is a parameter; all that is used of
it is that it does not tell the two cases of ASCII letters apart, and nothing else from them.
-/

namespace RouteLinks

/-- What a comparison that ignores case makes of characters. It does not tell the two cases of an
ASCII letter apart, and takes no other character for an ASCII one. -/
structure IgnoresCase (fold : Char → Char) : Prop where
  lower : ∀ c : Char, fold c.toLower = fold c
  ascii : ∀ c d : Char, d.toNat < 128 → fold c = fold d → c.toLower = d.toLower

/-- Whether two keys are one to a dictionary, which compares them character by character. -/
def SameKey (fold : Char → Char) (k l : String) : Prop := k.toList.map fold = l.toList.map fold

instance (fold : Char → Char) (k l : String) : Decidable (SameKey fold k l) :=
  inferInstanceAs (Decidable (_ = _))

def addKey? (fold : Char → Char) (keys : List String) (key : String) : Option (List String) :=
  if ∃ k ∈ keys, SameKey fold k key then none else some (keys ++ [key])

def addKeys? (fold : Char → Char) (keys added : List String) : Option (List String) :=
  added.foldlM (addKey? fold) keys

theorem addKeys?_eq_some_iff {fold : Char → Char} {keys added result : List String} :
    addKeys? fold keys added = some result ↔
      result = keys ++ added ∧ (∀ k ∈ keys, ∀ l ∈ added, ¬SameKey fold k l) ∧
        added.Pairwise fun k l => ¬SameKey fold k l := by
  induction added generalizing keys with
  | nil => simp [addKeys?, eq_comm]
  | cons key rest ih =>
      have hstep : addKeys? fold keys (key :: rest) =
          (addKey? fold keys key).bind fun next => addKeys? fold next rest := List.foldlM_cons
      rw [hstep, addKey?]
      split
      · next hpresent =>
        obtain ⟨k, hk, hsame⟩ := hpresent
        constructor
        · rintro ⟨⟩
        · rintro ⟨-, hnew, -⟩
          exact absurd hsame (hnew k hk key List.mem_cons_self)
      · next hnew =>
        rw [Option.bind_some, ih, List.append_assoc, List.singleton_append, List.pairwise_cons]
        constructor
        · rintro ⟨rfl, hapart, hrest⟩
          refine ⟨rfl, fun k hk => List.forall_mem_cons.mpr ⟨fun hsame => hnew ⟨k, hk, hsame⟩, ?_⟩,
            hapart key (by simp), hrest⟩
          exact fun l hl => hapart k (List.mem_append_left _ hk) l hl
        · rintro ⟨rfl, hapart, hfirst, hrest⟩
          refine ⟨rfl, fun k hk l hl => ?_, hrest⟩
          rcases List.mem_append.mp hk with hk | hk
          · exact hapart k hk l (List.mem_cons_of_mem _ hl)
          · obtain rfl := List.mem_singleton.mp hk
            exact hfirst l hl

variable {fold : Char → Char}

/-- A comparison that knows the case of ASCII letters alone. -/
theorem ignoresCase_toLower : IgnoresCase Char.toLower where
  lower c := by
    by_cases hupper : c.isUpper = true
    · exact of_toNat_lt (p := fun c => c.toLower.toLower = c.toLower) (by decide)
        (toNat_lt_of_isUpper hupper)
    · rw [toLower_of_not_isUpper hupper, toLower_of_not_isUpper hupper]
  ascii _ _ _ h := h

/-! ### Keys of the identity -/

theorem isAscii_of_toLower {c : Char} (h : c.toLower.toNat < 128) : c.toNat < 128 := by
  unfold Char.toLower at h
  split at h
  · next hupper =>
    exact Nat.lt_of_le_of_lt (UInt32.le_iff_toNat_le.mp hupper.2) (by decide)
  · exact h

theorem map_toLower_eq_of_map_eq (hfold : IgnoresCase fold) {cs ds : List Char}
    (hds : ∀ d ∈ ds, d.toNat < 128) (hsame : cs.map fold = ds.map fold) :
    cs.map Char.toLower = ds.map Char.toLower := by
  induction cs generalizing ds with
  | nil =>
      obtain rfl := List.map_eq_nil_iff.mp hsame.symm
      rfl
  | cons c rest ih =>
      cases ds with
      | nil => cases hsame
      | cons d more =>
          obtain ⟨hd, hmore⟩ := List.forall_mem_cons.mp hds
          obtain ⟨hfirst, hrest⟩ := List.cons.inj hsame
          rw [List.map_cons, List.map_cons, hfold.ascii c d hd hfirst, ih hmore hrest]

theorem lowerFrom_eq_of_map_toLower {cs small : List Char} (hsmall : ∀ d ∈ small, d.toNat < 128)
    (h : cs.map Char.toLower = small) (before : List Char) :
    Unicode.lowerFrom before cs = small := by
  subst h
  induction cs generalizing before with
  | nil => rfl
  | cons c rest ih =>
      rw [List.map_cons] at hsmall ⊢
      obtain ⟨hfirst, hrest⟩ := List.forall_mem_cons.mp hsmall
      have hc : c.toNat < 128 := isAscii_of_toLower hfirst
      have hother : ∀ x : Char, 128 ≤ x.toNat → c ≠ x := by
        rintro x hx rfl
        omega
      rw [Unicode.lowerFrom, if_neg (by simpa using hother 'Σ' (by decide)),
        if_neg (by simpa using hother 'İ' (by decide)), Unicode.lowerChar, if_pos hc,
        ih _ hrest, List.singleton_append]

/-- A key that is one of the identity without regard to case is recognized as such. -/
theorem isIdentityKey_of_sameKey (hfold : IgnoresCase fold) {k key : String}
    (hkey : key ∈ identityKeys) (hsame : SameKey fold k key) : isIdentityKey k = true := by
  have hkeys : ∀ key ∈ identityKeys, (key.toList.all fun d => decide (d.toNat < 128)) = true ∧
      key.toList.map Char.toLower = key.toList := by decide
  obtain ⟨hall, hsmall⟩ := hkeys key hkey
  have hkeyascii := forall_mem_of_all hall
  have hlower := lowerFrom_eq_of_map_toLower hkeyascii
    ((map_toLower_eq_of_map_eq hfold hkeyascii hsame).trans hsmall) []
  rw [isIdentityKey, Unicode.toLower, hlower, String.ofList_toList]
  exact List.contains_iff_mem.mpr hkey

end RouteLinks
