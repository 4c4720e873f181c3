import RouteLinks.Proofs.Order
import RouteLinks.Text.Utf8
/-!
# UTF-8 is read as it is written

A sequence that stands for a character has one byte or a first byte with those that it asks for. The
bounds of the second byte leave one sequence for each character, so reading gives a text if and only
if the bytes are those of the text.
-/

namespace RouteLinks.Utf8

/-! ### Sequences -/

def IsTail (b : UInt8) : Prop := 0x80 ≤ b.toNat ∧ b.toNat ≤ 0xBF

/-- A byte that may stand second. It rules out what a shorter sequence could say, surrogates, and
what lies beyond the last character. -/
@[mk_iff]
structure Follows (a b : UInt8) : Prop where
  isTail : IsTail b
  notShorter : (a.toNat = 0xE0 → 0xA0 ≤ b.toNat) ∧ (a.toNat = 0xF0 → 0x90 ≤ b.toNat)
  notSurrogate : a.toNat = 0xED → b.toNat ≤ 0x9F
  notBeyond : a.toNat = 0xF4 → b.toNat ≤ 0x8F

/-- The sequences that stand for a character, with its number. -/
inductive Sequence : Bytes → Nat → Prop
  | one {v : Nat} {a : UInt8} (ha : a.toNat < 0x80) (hv : v = a.toNat) : Sequence [a] v
  | two {v : Nat} {a b : UInt8} (hlow : 0xC2 ≤ a.toNat) (hhigh : a.toNat ≤ 0xDF)
      (hb : Follows a b) (hv : v = (a.toNat - 0xC0) * 64 + (b.toNat - 0x80)) : Sequence [a, b] v
  | three {v : Nat} {a b c : UInt8} (hlow : 0xE0 ≤ a.toNat) (hhigh : a.toNat ≤ 0xEF)
      (hb : Follows a b) (hc : IsTail c)
      (hv : v = ((a.toNat - 0xE0) * 64 + (b.toNat - 0x80)) * 64 + (c.toNat - 0x80)) :
      Sequence [a, b, c] v
  | four {v : Nat} {a b c d : UInt8} (hlow : 0xF0 ≤ a.toNat) (hhigh : a.toNat ≤ 0xF4)
      (hb : Follows a b) (hc : IsTail c) (hd : IsTail d)
      (hv : v = (((a.toNat - 0xF0) * 64 + (b.toNat - 0x80)) * 64 + (c.toNat - 0x80)) * 64 +
        (d.toNat - 0x80)) :
      Sequence [a, b, c, d] v

theorem sequence_utf8EncodeChar (c : Char) : Sequence (String.utf8EncodeChar c) c.toNat := by
  have hvalid : c.toNat < 0xD800 ∨ 0xDFFF < c.toNat ∧ c.toNat < 0x110000 := c.valid
  have hbyte : ∀ n < 256, (UInt8.ofNat n).toNat = n := by
    intro n hn
    rw [UInt8.toNat_ofNat']
    omega
  rw [String.utf8EncodeChar, Char.toNat_val]
  generalize c.toNat = v at hvalid ⊢
  have hlast := hbyte (v % 64 + 128) (by omega)
  split_ifs with hone htwo hthree
  · have ha := hbyte v (by omega)
    exact .one (by omega) ha.symm
  · have ha := hbyte (v / 64 % 32 + 192) (by omega)
    exact .two (by omega) (by omega) ⟨⟨by omega, by omega⟩, by omega, by omega, by omega⟩ (by omega)
  · have ha := hbyte (v / 4096 % 16 + 224) (by omega)
    have hb := hbyte (v / 64 % 64 + 128) (by omega)
    exact .three (by omega) (by omega) ⟨⟨by omega, by omega⟩, by omega, by omega, by omega⟩
      ⟨by omega, by omega⟩ (by omega)
  · have ha := hbyte (v / 262144 % 8 + 240) (by omega)
    have hb := hbyte (v / 4096 % 64 + 128) (by omega)
    have hc := hbyte (v / 64 % 64 + 128) (by omega)
    exact .four (by omega) (by omega) ⟨⟨by omega, by omega⟩, by omega, by omega, by omega⟩
      ⟨by omega, by omega⟩ ⟨by omega, by omega⟩ (by omega)

namespace Sequence

variable {bytes : Bytes} {v : Nat}

theorem isValidChar (h : Sequence bytes v) : v.isValidChar := by
  cases h with
  | one ha hv => exact .inl (by omega)
  | two hlow hhigh hb hv =>
      obtain ⟨⟨hmin, hmax⟩, _, _, _⟩ := hb
      exact .inl (by omega)
  | three hlow hhigh hb hc hv =>
      obtain ⟨⟨hmin, hmax⟩, _, hsurrogate, _⟩ := hb
      obtain ⟨hmin', hmax'⟩ := hc
      unfold Nat.isValidChar
      omega
  | four hlow hhigh hb hc hd hv =>
      obtain ⟨⟨hmin, hmax⟩, hshorter, _, hbeyond⟩ := hb
      obtain ⟨hmin', hmax'⟩ := hc
      obtain ⟨hmin'', hmax''⟩ := hd
      exact .inr (by omega)

theorem utf8EncodeChar_eq (h : Sequence bytes v) :
    String.utf8EncodeChar (Char.ofNat v) = bytes := by
  have hvalue : (Char.ofNat v).toNat = v := by
    rw [Char.ofNat, dif_pos h.isValidChar]
    rfl
  rw [String.utf8EncodeChar, Char.toNat_val, hvalue]
  cases h with
  | one ha hv =>
      rw [if_pos (by omega), hv, UInt8.ofNat_toNat]
  | @two v a b hlow hhigh hb hv =>
      obtain ⟨⟨hmin, hmax⟩, _, _, _⟩ := hb
      have hfirst : v / 64 % 32 + 192 = a.toNat := by omega
      have hlast : v % 64 + 128 = b.toNat := by omega
      rw [if_neg (by omega), if_pos (by omega), hfirst, hlast, UInt8.ofNat_toNat, UInt8.ofNat_toNat]
  | @three v a b c hlow hhigh hb hc hv =>
      obtain ⟨⟨hmin, hmax⟩, hshorter, _, _⟩ := hb
      obtain ⟨hmin', hmax'⟩ := hc
      have hfirst : v / 4096 % 16 + 224 = a.toNat := by omega
      have hsecond : v / 64 % 64 + 128 = b.toNat := by omega
      have hlast : v % 64 + 128 = c.toNat := by omega
      rw [if_neg (by omega), if_neg (by omega), if_pos (by omega), hfirst, hsecond, hlast,
        UInt8.ofNat_toNat, UInt8.ofNat_toNat, UInt8.ofNat_toNat]
  | @four v a b c d hlow hhigh hb hc hd hv =>
      obtain ⟨⟨hmin, hmax⟩, hshorter, _, _⟩ := hb
      obtain ⟨hmin', hmax'⟩ := hc
      obtain ⟨hmin'', hmax''⟩ := hd
      have hfirst : v / 262144 % 8 + 240 = a.toNat := by omega
      have hsecond : v / 4096 % 64 + 128 = b.toNat := by omega
      have hthird : v / 64 % 64 + 128 = c.toNat := by omega
      have hlast : v % 64 + 128 = d.toNat := by omega
      rw [if_neg (by omega), if_neg (by omega), if_neg (by omega), hfirst, hsecond, hthird, hlast,
        UInt8.ofNat_toNat, UInt8.ofNat_toNat, UInt8.ofNat_toNat, UInt8.ofNat_toNat]

end Sequence

/-! ### Reading -/

/-- What a first byte says about the bytes behind it. -/
structure Leads (a : UInt8) (p : Pending) : Prop where
  shape : p.missing = 1 ∧ 0xC2 ≤ a.toNat ∧ a.toNat ≤ 0xDF ∧ p.bits = a.toNat - 0xC0 ∨
    p.missing = 2 ∧ 0xE0 ≤ a.toNat ∧ a.toNat ≤ 0xEF ∧ p.bits = a.toNat - 0xE0 ∨
    p.missing = 3 ∧ 0xF0 ≤ a.toNat ∧ a.toNat ≤ 0xF4 ∧ p.bits = a.toNat - 0xF0
  within : ∀ b, p.low.toNat ≤ b.toNat ∧ b.toNat ≤ p.high.toNat ↔ Follows a b

theorem start_cases (a : UInt8) :
    (a.toNat < 0x80 ∧ start a = .ascii (Char.ofNat a.toNat)) ∨
      (∃ p, start a = .lead p ∧ Leads a p) ∨
      (start a = .illFormed ∧ (0x80 ≤ a.toNat ∧ a.toNat < 0xC2 ∨ 0xF4 < a.toNat)) := by
  unfold start
  simp only [UInt8.lt_iff_toNat_lt, UInt8.le_iff_toNat_le, beq_iff_eq, ← UInt8.toNat_inj,
    UInt8.reduceToNat, Bool.and_eq_true, decide_eq_true_eq]
  split_ifs with hascii htwo hE0 hED hthree hF0 hfour hF4
  case pos => exact .inl ⟨hascii, rfl⟩
  case neg =>
    refine .inr (.inr ⟨rfl, ?_⟩)
    omega
  all_goals
    refine .inr (.inl ⟨_, rfl, ?_, fun b => ?_⟩)
    · dsimp only
      omega
    · simp only [follows_iff, IsTail, UInt8.reduceToNat]
      omega

theorem start_ascii {a : UInt8} (h : a.toNat < 0x80) : start a = .ascii (Char.ofNat a.toNat) := by
  rcases start_cases a with ⟨_, hstart⟩ | ⟨p, _, hleads⟩ | ⟨_, hill⟩
  · exact hstart
  · have hshape := hleads.shape
    omega
  · omega

theorem start_lead {a : UInt8} (hlow : 0xC2 ≤ a.toNat) (hhigh : a.toNat ≤ 0xF4) :
    ∃ p, start a = .lead p ∧ Leads a p := by
  rcases start_cases a with ⟨ha, _⟩ | hlead | ⟨_, hill⟩
  · omega
  · exact hlead
  · omega

theorem scan_pending {p : Pending} {b : UInt8} (h : p.low.toNat ≤ b.toNat ∧ b.toNat ≤ p.high.toNat)
    (rest : Bytes) :
    scan (some p) (b :: rest) =
      if p.missing ≤ 1 then
        some (Char.ofNat (p.bits * 64 + (b.toNat - 0x80))) :: scan none rest
      else
        scan (some ⟨p.bits * 64 + (b.toNat - 0x80), p.missing - 1, 0x80, 0xBF⟩) rest := by
  have hbounds : (decide (p.low ≤ b) && decide (b ≤ p.high)) = true := by
    simpa [UInt8.le_iff_toNat_le] using h
  rw [scan]
  simp only [hbounds, if_true]

theorem scan_beyond {p : Pending} {b : UInt8}
    (h : ¬(p.low.toNat ≤ b.toNat ∧ b.toNat ≤ p.high.toNat)) (rest : Bytes) :
    scan (some p) (b :: rest) = none :: scan none (b :: rest) := by
  have hout : (decide (p.low ≤ b) && decide (b ≤ p.high)) = false := by
    simpa [UInt8.le_iff_toNat_le] using h
  rw [scan, scan]
  simp [hout]

theorem scan_some_cases (p : Pending) (bytes : Bytes) :
    (scan (some p) bytes).head? = some none ∨
      ∃ b rest, bytes = b :: rest ∧ p.low.toNat ≤ b.toNat ∧ b.toNat ≤ p.high.toNat := by
  cases bytes with
  | nil => exact .inl rfl
  | cons b rest =>
      by_cases hbounds : p.low.toNat ≤ b.toNat ∧ b.toNat ≤ p.high.toNat
      · exact .inr ⟨b, rest, rfl, hbounds⟩
      · exact .inl (by rw [scan_beyond hbounds]; rfl)

theorem scan_tail {b : UInt8} (h : IsTail b) (bits missing : Nat) (rest : Bytes) :
    scan (some ⟨bits, missing, 0x80, 0xBF⟩) (b :: rest) =
      if missing ≤ 1 then some (Char.ofNat (bits * 64 + (b.toNat - 0x80))) :: scan none rest
      else scan (some ⟨bits * 64 + (b.toNat - 0x80), missing - 1, 0x80, 0xBF⟩) rest :=
  @scan_pending ⟨bits, missing, 0x80, 0xBF⟩ b h rest

theorem scan_lead {a b : UInt8} {p : Pending} (hstart : start a = .lead p) (hleads : Leads a p)
    (hb : Follows a b) (rest : Bytes) :
    scan none (a :: b :: rest) =
      if p.missing ≤ 1 then
        some (Char.ofNat (p.bits * 64 + (b.toNat - 0x80))) :: scan none rest
      else
        scan (some ⟨p.bits * 64 + (b.toNat - 0x80), p.missing - 1, 0x80, 0xBF⟩) rest := by
  rw [scan, hstart]
  exact scan_pending ((hleads.within b).mpr hb) rest

/-- A sequence is read as its character, whatever comes behind it. -/
theorem Sequence.scan_append {bytes : Bytes} {v : Nat} (h : Sequence bytes v) (rest : Bytes) :
    scan none (bytes ++ rest) = some (Char.ofNat v) :: scan none rest := by
  cases h with
  | @one _ a ha hv =>
      rw [List.singleton_append, scan, start_ascii ha, hv]
  | @two _ a b hlow hhigh hb hv =>
      obtain ⟨p, hstart, hleads⟩ := start_lead hlow (by omega)
      obtain ⟨hmissing, hbits⟩ : p.missing = 1 ∧ p.bits = a.toNat - 0xC0 := by
        have hshape := hleads.shape
        omega
      rw [List.cons_append, List.cons_append, scan_lead hstart hleads hb, hmissing, hbits, hv]
      rfl
  | @three _ a b c hlow hhigh hb hc hv =>
      obtain ⟨p, hstart, hleads⟩ := @start_lead a (by omega) (by omega)
      obtain ⟨hmissing, hbits⟩ : p.missing = 2 ∧ p.bits = a.toNat - 0xE0 := by
        have hshape := hleads.shape
        omega
      rw [List.cons_append, List.cons_append, scan_lead hstart hleads hb, hmissing, hbits,
        if_neg (by decide), List.cons_append, scan_tail hc, hv]
      rfl
  | @four _ a b c d hlow hhigh hb hc hd hv =>
      obtain ⟨p, hstart, hleads⟩ := start_lead (by omega) hhigh
      obtain ⟨hmissing, hbits⟩ : p.missing = 3 ∧ p.bits = a.toNat - 0xF0 := by
        have hshape := hleads.shape
        omega
      rw [List.cons_append, List.cons_append, scan_lead hstart hleads hb, hmissing, hbits,
        if_neg (by decide), List.cons_append, scan_tail hc, if_neg (by decide), List.cons_append,
        scan_tail hd, hv]
      rfl

theorem exists_sequence {a : UInt8} {rest : Bytes} (h : (scan none (a :: rest)).head? ≠ some none) :
    ∃ bytes v more, a :: rest = bytes ++ more ∧ Sequence bytes v := by
  rcases start_cases a with ⟨ha, _⟩ | ⟨p, hstart, hleads⟩ | ⟨hstart, _⟩
  · exact ⟨[a], a.toNat, rest, rfl, .one ha rfl⟩
  · have hshape := hleads.shape
    have hnext : (scan (some p) rest).head? ≠ some none := by
      rw [scan, hstart] at h
      exact h
    obtain ⟨b, rest, rfl, hwithin⟩ := (scan_some_cases p rest).resolve_left hnext
    have hb := (hleads.within b).mp hwithin
    rw [scan_pending hwithin] at hnext
    by_cases htwo : p.missing = 1
    · exact ⟨[a, b], _, rest, rfl, .two (by omega) (by omega) hb rfl⟩
    rw [if_neg (by omega)] at hnext
    obtain ⟨c, rest, rfl, hc⟩ := (scan_some_cases _ rest).resolve_left hnext
    rw [scan_tail hc] at hnext
    by_cases hthree : p.missing = 2
    · exact ⟨[a, b, c], _, rest, rfl, .three (by omega) (by omega) hb hc rfl⟩
    rw [if_neg (by omega)] at hnext
    obtain ⟨d, rest, rfl, hd⟩ := (scan_some_cases _ rest).resolve_left hnext
    exact ⟨[a, b, c, d], _, rest, rfl, .four (by omega) (by omega) hb hc hd rfl⟩
  · rw [scan, hstart] at h
    exact absurd rfl h

/-! ### Texts -/

theorem scan_flatMap_utf8EncodeChar_append (cs : List Char) (back : Bytes) :
    scan none (cs.flatMap String.utf8EncodeChar ++ back) = cs.map some ++ scan none back := by
  induction cs with
  | nil => rfl
  | cons c rest ih =>
      rw [List.flatMap_cons, List.append_assoc, (sequence_utf8EncodeChar c).scan_append,
        Char.ofNat_toNat, ih, List.map_cons, List.cons_append]

theorem scan_flatMap_utf8EncodeChar (cs : List Char) :
    scan none (cs.flatMap String.utf8EncodeChar) = cs.map some := by
  have happend := scan_flatMap_utf8EncodeChar_append cs []
  rw [List.append_nil] at happend
  exact happend.trans (List.append_nil _)

theorem flatMap_utf8EncodeChar_of_scan {bytes : Bytes} {cs : List Char}
    (h : scan none bytes = cs.map some) : cs.flatMap String.utf8EncodeChar = bytes := by
  have hwell : (scan none bytes).head? ≠ some none := by cases cs <;> simp [h]
  induction cs generalizing bytes with
  | nil =>
      cases bytes with
      | nil => rfl
      | cons a rest =>
          obtain ⟨bytes, v, more, hbytes, hsequence⟩ := exists_sequence hwell
          rw [hbytes, hsequence.scan_append] at h
          cases h
  | cons c others ih =>
      cases bytes with
      | nil => cases h
      | cons a rest =>
          obtain ⟨bytes, v, more, hbytes, hsequence⟩ := exists_sequence hwell
          rw [hbytes, hsequence.scan_append, List.map_cons] at h
          obtain ⟨hfirst, hmore⟩ := List.cons.inj h
          rw [List.flatMap_cons, ih hmore (by cases others <;> simp [hmore]),
            ← Option.some.inj hfirst,
            hsequence.utf8EncodeChar_eq, hbytes]

/-- Reading gives a text if and only if the bytes are those of the text. -/
theorem decode?_eq_some_iff {bytes : Bytes} {s : String} :
    decode? bytes = some s ↔ encode s = bytes := by
  rw [decode?, Option.map_eq_some_iff]
  constructor
  · rintro ⟨cs, hscan, rfl⟩
    rw [mapM_eq_some_iff, List.map_id] at hscan
    rw [encode, String.toList_ofList]
    exact flatMap_utf8EncodeChar_of_scan hscan
  · rintro rfl
    refine ⟨s.toList, ?_, String.ofList_toList⟩
    rw [mapM_eq_some_iff, List.map_id]
    exact scan_flatMap_utf8EncodeChar s.toList

/-! ### Cuts -/

/-- Every byte that goes on with a sequence is a tail. -/
def Pending.WantsTail (p : Pending) : Prop :=
  ∀ b : UInt8, p.low.toNat ≤ b.toNat ∧ b.toNat ≤ p.high.toNat → IsTail b

theorem wantsTail_of_start {a : UInt8} {p : Pending} (h : start a = .lead p) : p.WantsTail := by
  intro b hb
  rcases start_cases a with ⟨_, hother⟩ | ⟨q, hq, hleads⟩ | ⟨hother, _⟩
  · cases h.symm.trans hother
  · cases h.symm.trans hq
    exact ((hleads.within b).mp hb).isTail
  · cases h.symm.trans hother

/-- Before a byte that is no tail nothing is left open. -/
theorem scan_append_of_not_isTail {back : Bytes} (h : ∀ b ∈ back.head?, ¬IsTail b) (front : Bytes)
    {pending : Option Pending} (hpending : ∀ p ∈ pending, p.WantsTail) :
    scan pending (front ++ back) = scan pending front ++ scan none back := by
  induction front generalizing pending with
  | nil =>
      rcases pending with _ | p
      · rfl
      · rcases back with _ | ⟨b, rest⟩
        · rfl
        · rw [List.nil_append, scan_beyond fun hin => h b rfl (hpending p rfl b hin)]
          rfl
  | cons a front ih =>
      have hnone : scan none (front ++ back) = scan none front ++ scan none back := ih (by simp)
      have hfresh : scan none (a :: front ++ back) = scan none (a :: front) ++ scan none back := by
        rw [List.cons_append, scan, scan]
        cases hstart : start a with
        | ascii c => exact congrArg (some c :: ·) hnone
        | lead p => exact ih fun q hq => Option.some.inj hq ▸ wantsTail_of_start hstart
        | illFormed => exact congrArg (none :: ·) hnone
      rcases pending with _ | p
      · exact hfresh
      · by_cases hbounds : p.low.toNat ≤ a.toNat ∧ a.toNat ≤ p.high.toNat
        · rw [List.cons_append, scan_pending hbounds, scan_pending hbounds]
          split
          · rw [hnone, List.cons_append]
          · exact ih fun q hq b hb => by
              obtain rfl := Option.some.inj hq
              exact hb
        · rw [List.cons_append] at hfresh ⊢
          rw [scan_beyond hbounds, scan_beyond hbounds, hfresh, List.cons_append]

/-- Bytes may be cut behind a byte of ASCII, and before a byte that is no tail. -/
def IsCut (front back : Bytes) : Prop :=
  (∃ a ∈ front.getLast?, a.toNat < 0x80) ∨ ∀ b ∈ back.head?, ¬IsTail b

theorem isCut_iff {front back : Bytes} :
    IsCut front back ↔ front.getLast?.any (·.toNat < 0x80) = true ∨
      back.head?.all (fun b => b.toNat < 0x80 || 0xBF < b.toNat) = true := by
  rw [Option.any_eq_true, Option.all_eq_true]
  simp only [IsCut, IsTail, Option.mem_def, decide_eq_true_eq, Bool.or_eq_true]
  refine or_congr Iff.rfl (forall₂_congr fun b _ => ?_)
  omega

instance (front back : Bytes) : Decidable (IsCut front back) := decidable_of_iff' _ isCut_iff

theorem IsCut.scan_append {front back : Bytes} (h : IsCut front back) :
    scan none (front ++ back) = scan none front ++ scan none back := by
  rcases h with ⟨a, hlast, hascii⟩ | hback
  · obtain ⟨before, rfl⟩ := List.getLast?_eq_some_iff.mp hlast
    have hno : ¬IsTail a := fun htail => by have := htail.1; omega
    have hat : ∀ rest, scan none (before ++ a :: rest) =
        scan none before ++ some (Char.ofNat a.toNat) :: scan none rest := by
      intro rest
      rw [scan_append_of_not_isTail (by simpa using hno) before (by simp), scan, start_ascii hascii]
    rw [List.append_assoc, List.singleton_append, hat, hat, List.append_assoc]
    rfl
  · exact scan_append_of_not_isTail hback front (by simp)

/-- What is read up to a cut is read from all of the bytes, too. -/
theorem IsCut.decodeLossy_append {front back : Bytes} (h : IsCut front back) :
    (decodeLossy (front ++ back)).toList =
      (decodeLossy front).toList ++ (decodeLossy back).toList := by
  simp only [decodeLossy, h.scan_append, List.map_append, String.toList_ofList]

theorem scan_ne_nil {pending : Option Pending} {bytes : Bytes}
    (h : pending.isSome = true ∨ bytes ≠ []) : scan pending bytes ≠ [] := by
  induction bytes generalizing pending with
  | nil =>
      rcases pending with _ | p
      · simp at h
      · simp [scan]
  | cons b rest ih =>
      have hlead : ∀ p, scan (some p) rest ≠ [] := fun p => ih (.inl rfl)
      have hfresh : scan none (b :: rest) ≠ [] := by
        rw [scan]
        cases start b with
        | lead p => exact hlead p
        | ascii | illFormed => exact List.cons_ne_nil _ _
      rcases pending with _ | p
      · exact hfresh
      · by_cases hbounds : p.low.toNat ≤ b.toNat ∧ b.toNat ≤ p.high.toNat
        · rw [scan_pending hbounds]
          split
          · exact List.cons_ne_nil _ _
          · exact hlead _
        · rw [scan_beyond hbounds]
          exact List.cons_ne_nil _ _

theorem decodeLossy_ne_nil {bytes : Bytes} (h : bytes ≠ []) : (decodeLossy bytes).toList ≠ [] := by
  rw [decodeLossy, String.toList_ofList, Ne, List.map_eq_nil_iff]
  exact scan_ne_nil (.inr h)

/-! ### ASCII characters -/

/-- A sequence that has begun is not read as an ASCII character, however it goes on. -/
structure Pending.IsBeyondAscii (p : Pending) : Prop where
  wantsTail : p.WantsTail
  bits : ∀ b : UInt8, p.low.toNat ≤ b.toNat ∧ b.toNat ≤ p.high.toNat →
    p.missing ≤ 1 ∧ 0x80 ≤ p.bits * 64 + (b.toNat - 0x80) ∨
      p.missing = 2 ∧ 2 ≤ p.bits * 64 + (b.toNat - 0x80) ∨
        p.missing = 3 ∧ 1 ≤ p.bits * 64 + (b.toNat - 0x80)

theorem Leads.isBeyondAscii {a : UInt8} {p : Pending} (h : Leads a p) : p.IsBeyondAscii := by
  have hshape := h.shape
  refine ⟨fun b hb => ((h.within b).mp hb).isTail, fun b hb => ?_⟩
  obtain ⟨⟨hlow, -⟩, hshorter, -, -⟩ := (h.within b).mp hb
  omega

theorem toNat_ofNat_cases (v : Nat) :
    (Char.ofNat v).toNat = v ∨ (Char.ofNat v).toNat = 0 := by
  by_cases hvalid : v.isValidChar
  · rw [Char.ofNat, dif_pos hvalid]
    exact .inl rfl
  · rw [Char.ofNat, dif_neg hvalid]
    exact .inr rfl

theorem count_scan {a : UInt8} (ha : 0 < a.toNat ∧ a.toNat < 0x80) (bytes : Bytes)
    {pending : Option Pending} (hpending : ∀ p ∈ pending, p.IsBeyondAscii) :
    (scan pending bytes).count (some (Char.ofNat a.toNat)) = bytes.count a := by
  have hother : ∀ {v : Nat}, v ≠ a.toNat → some (Char.ofNat v) ≠ some (Char.ofNat a.toNat) := by
    intro v hv heq
    have htoNat := congrArg Char.toNat (Option.some.inj heq)
    have hvalid : (Char.ofNat a.toNat).toNat = a.toNat := by
      rw [Char.ofNat, dif_pos (.inl (by omega))]
      rfl
    rcases toNat_ofNat_cases v with hvalue | hvalue <;> omega
  induction bytes generalizing pending with
  | nil => cases pending <;> simp [scan]
  | cons b rest ih =>
      have hnone : (scan none rest).count (some (Char.ofNat a.toNat)) = rest.count a := ih (by simp)
      have hfresh : (scan none (b :: rest)).count (some (Char.ofNat a.toNat)) =
          (b :: rest).count a := by
        rw [scan]
        rcases start_cases b with ⟨hb, hstart⟩ | ⟨p, hstart, hleads⟩ | ⟨hstart, hill⟩
        · rw [hstart]
          by_cases hsame : b = a
          · rw [hsame, List.count_cons_self, List.count_cons_self, hnone]
          · rw [List.count_cons_of_ne hsame,
              List.count_cons_of_ne (hother fun h => hsame (UInt8.toNat_inj.mp h)), hnone]
        · have hshape := hleads.shape
          rw [hstart, List.count_cons_of_ne (by rintro rfl; omega)]
          exact ih fun q hq => Option.some.inj hq ▸ hleads.isBeyondAscii
        · have hb : b ≠ a := by
            rintro rfl
            omega
          rw [hstart, List.count_cons_of_ne (by simp), List.count_cons_of_ne hb, hnone]
      rcases pending with _ | p
      · exact hfresh
      · obtain ⟨htail, hbits⟩ := hpending p rfl
        by_cases hbounds : p.low.toNat ≤ b.toNat ∧ b.toNat ≤ p.high.toNat
        · have hbeyond := hbits b hbounds
          have hlow := (htail b hbounds).1
          rw [scan_pending hbounds, List.count_cons_of_ne (by rintro rfl; omega)]
          split
          · rw [List.count_cons_of_ne (hother (by omega)), hnone]
          · refine ih fun q hq => ?_
            obtain rfl := Option.some.inj hq
            refine ⟨fun c hc => hc, fun c hc => ?_⟩
            dsimp only
            omega
        · rw [scan_beyond hbounds, List.count_cons_of_ne (by simp), hfresh]

theorem count_decodeLossy {a : UInt8} (ha : 0 < a.toNat ∧ a.toNat < 0x80) (bytes : Bytes) :
    (decodeLossy bytes).toList.count (Char.ofNat a.toNat) = bytes.count a := by
  have hnone : ∀ p ∈ (none : Option Pending), p.IsBeyondAscii := by simp
  rw [← count_scan ha bytes hnone, decodeLossy, String.toList_ofList, List.count, List.countP_map,
    List.count]
  refine List.countP_congr fun c _ => ?_
  cases c with
  | some c => simp
  | none =>
      have hother : Char.ofNat 0xFFFD ≠ Char.ofNat a.toNat := fun h => by
        have htoNat := congrArg Char.toNat h
        rcases toNat_ofNat_cases a.toNat with hvalue | hvalue <;>
          rw [hvalue, show (Char.ofNat 0xFFFD).toNat = 0xFFFD from rfl] at htoNat <;> omega
      simpa using hother

end RouteLinks.Utf8
