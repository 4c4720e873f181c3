import Mathlib.Algebra.BigOperators.Group.List.Basic
import Mathlib.Algebra.Order.Ring.Nat
import RouteLinks.Proofs.Text.Utf8
import RouteLinks.Routes.Edit
/-!
# Edits as one splice

Edits are made one after the other, from the highest offset downwards. What comes out is what one
pass over the source writes that puts the texts of each offset in front of the byte there: the part
of the source below the last edit has not moved yet, and that is all that the next one looks at. So
every byte of the source is still there, in order, and where the inserted texts stand can be told
from the edits alone.

A text is edited as its bytes. The result can be read again unless an edit cuts a character in two.
-/

namespace RouteLinks

namespace SourceEdit

def InRange (size : Nat) (edits : List SourceEdit) : Prop :=
  ∀ e ∈ edits, 0 ≤ e.offset ∧ e.offset ≤ size

def size (e : SourceEdit) : Nat := (Utf8.encode e.text).length

/-- The edits at an offset, those that are given later first. -/
def editsAt (edits : List SourceEdit) (offset : Nat) : List SourceEdit :=
  (edits.filter fun e => e.offset == (offset : Int)).reverse

def textsAt (edits : List SourceEdit) (offset : Nat) : Bytes :=
  (editsAt edits offset).flatMap fun e => Utf8.encode e.text

/-- Copies a source from an offset on and inserts the texts of each offset on the way. -/
def splice (edits : List SourceEdit) (offset : Nat) : Bytes → Bytes
  | [] => textsAt edits offset
  | b :: rest => textsAt edits offset ++ b :: splice edits (offset + 1) rest

variable {edits others : List SourceEdit} {e : SourceEdit} {offset : Nat} {data : Bytes}

/-! ### What is inserted at an offset -/

theorem mem_editsAt : e ∈ editsAt edits offset ↔ e ∈ edits ∧ e.offset = offset := by
  simp [editsAt]

theorem textsAt_eq_nil (h : ∀ e ∈ edits, e.offset ≠ offset) : textsAt edits offset = [] := by
  have hnone : editsAt edits offset = [] := by
    rw [List.eq_nil_iff_forall_not_mem]
    intro e he
    obtain ⟨hmem, hoffset⟩ := mem_editsAt.mp he
    exact h e hmem hoffset
  rw [textsAt, hnone, List.flatMap_nil]

theorem textsAt_append_of_eq (h : e.offset = offset) :
    textsAt (edits ++ [e]) offset = Utf8.encode e.text ++ textsAt edits offset := by
  simp [textsAt, editsAt, List.filter_append, h]

theorem textsAt_append_of_ne (h : e.offset ≠ offset) :
    textsAt (edits ++ [e]) offset = textsAt edits offset := by
  simp [textsAt, editsAt, List.filter_append, h]

/-! ### One edit more -/

theorem splice_congr (h : ∀ offset, textsAt edits offset = textsAt others offset) (offset : Nat)
    (data : Bytes) : splice edits offset data = splice others offset data := by
  induction data generalizing offset with
  | nil => exact h offset
  | cons b rest ih => rw [splice, splice, h, ih]

theorem splice_append (copied : Bytes)
    (h : ∀ e ∈ edits, e.offset < offset ∨ ((offset + copied.length : Nat) : Int) ≤ e.offset) :
    splice edits offset (copied ++ data) =
      copied ++ splice edits (offset + copied.length) data := by
  induction copied generalizing offset with
  | nil => rfl
  | cons b rest ih =>
      have hnone : textsAt edits offset = [] := textsAt_eq_nil fun e he => by
        have houtside := h e he
        simp only [List.length_cons] at houtside
        omega
      have hrest : ∀ e ∈ edits, e.offset < (offset + 1 : Nat) ∨
          ((offset + 1 + rest.length : Nat) : Int) ≤ e.offset := by
        intro e he
        have houtside := h e he
        simp only [List.length_cons] at houtside
        omega
      rw [List.cons_append, splice, hnone, List.nil_append, ih hrest, List.length_cons,
        Nat.add_assoc, Nat.add_comm 1, List.cons_append]

theorem splice_append_of_lt (h : e.offset < offset) :
    splice (edits ++ [e]) offset data = splice edits offset data := by
  have hother : e.offset ≠ offset := by omega
  induction data generalizing offset with
  | nil => exact textsAt_append_of_ne hother
  | cons b rest ih =>
      rw [splice, splice, textsAt_append_of_ne hother, ih (by omega) (by omega)]

/-- An edit that is given last stands in front of all that is at its offset. -/
theorem splice_append_of_eq (h : e.offset = offset) :
    splice (edits ++ [e]) offset data = Utf8.encode e.text ++ splice edits offset data := by
  cases data with
  | nil => exact textsAt_append_of_eq h
  | cons b rest =>
      rw [splice, splice, textsAt_append_of_eq h, splice_append_of_lt (by omega),
        List.append_assoc]

theorem length_insert (data : Bytes) (e : SourceEdit) :
    (insert data e).length = data.length + e.size := by
  simp only [insert, size, List.length_append, List.length_take, List.length_drop]
  omega

theorem insert_append {front back : Bytes} (h : e.offset = front.length) :
    insert (front ++ back) e = front ++ (Utf8.encode e.text ++ back) := by
  have hplace : place (front ++ back).length e.offset = front.length := by
    rw [place, h, if_neg (by omega), List.length_append, Int.toNat_natCast]
    omega
  rw [insert]
  simp only [hplace, List.take_left, List.drop_left, List.append_assoc]

/-- Edits that go down are a splice. -/
theorem foldl_insert (hrange : InRange data.length edits)
    (hdown : edits.Pairwise fun a b => b.offset ≤ a.offset) :
    edits.foldl insert data = splice edits 0 data := by
  induction edits using List.reverseRecOn with
  | nil =>
      rw [List.foldl_nil, ← List.append_nil data, splice_append data (by simp)]
      rfl
  | append_singleton edits e ih =>
      obtain ⟨hrange, hlast⟩ := List.forall_mem_append.mp hrange
      obtain ⟨hnonneg, hle⟩ := hlast e (List.mem_singleton_self e)
      obtain ⟨hdown, _, hlower⟩ := List.pairwise_append.mp hdown
      obtain ⟨place, hplace⟩ := Int.eq_ofNat_of_zero_le hnonneg
      have hlength : (data.take place).length = place := by
        rw [List.length_take]
        omega
      have habove : ∀ x ∈ edits, x.offset < (0 : Nat) ∨
          ((0 + (data.take place).length : Nat) : Int) ≤ x.offset := by
        intro x hx
        have hx := hlower x hx e (List.mem_singleton_self e)
        omega
      have hall : ∀ x ∈ edits ++ [e], x.offset < (0 : Nat) ∨
          ((0 + (data.take place).length : Nat) : Int) ≤ x.offset := by
        rw [List.forall_mem_append, List.forall_mem_singleton]
        exact ⟨habove, .inr (by omega)⟩
      -- Nothing has been inserted below the last edit yet, so it finds its place in the source.
      rw [List.foldl_append, ih hrange hdown, List.foldl_cons, List.foldl_nil]
      rw [← List.take_append_drop place data, splice_append _ habove, splice_append _ hall,
        insert_append (by omega), splice_append_of_eq (by omega)]

/-! ### All edits -/

theorem isRanking_downwards :
    IsRanking fun a b : SourceEdit => decide (b.offset < a.offset) := by
  constructor
  · intro a b h
    have hlt : b.offset < a.offset := of_decide_eq_true h
    exact decide_eq_false (by omega)
  · intro a b c hab hbc
    have hab : ¬ b.offset < a.offset := of_decide_eq_false hab
    have hbc : ¬ c.offset < b.offset := of_decide_eq_false hbc
    exact decide_eq_false (by omega)

theorem textsAt_sortBy (edits : List SourceEdit) (offset : Nat) :
    textsAt (sortBy (fun a b => decide (b.offset < a.offset)) edits) offset =
      textsAt edits offset := by
  have htie : ∀ a b : SourceEdit, (a.offset == (offset : Int)) = true →
      (b.offset == (offset : Int)) = true → decide (b.offset < a.offset) = false := by
    intro a b ha hb
    rw [beq_iff_eq] at ha hb
    exact decide_eq_false (by omega)
  rw [textsAt, editsAt, filter_sortBy isRanking_downwards htie]
  rfl

theorem applyAll_eq_splice (hrange : InRange data.length edits) :
    applyAll data edits = splice edits 0 data := by
  have hsorted := pairwise_sortBy_of_isRanking isRanking_downwards edits
  have hperm := sortBy_perm (fun a b : SourceEdit => decide (b.offset < a.offset)) edits
  rw [applyAll, foldl_insert (fun e he => hrange e (hperm.subset he)) (hsorted.imp ?_)]
  · exact splice_congr (textsAt_sortBy edits) 0 data
  · intro a b h
    exact not_lt.mp (of_decide_eq_false h)

theorem length_foldl_insert (edits : List SourceEdit) (data : Bytes) :
    (edits.foldl insert data).length = data.length + (edits.map size).sum := by
  induction edits generalizing data with
  | nil => rfl
  | cons e rest ih =>
      rw [List.foldl_cons, ih, length_insert, List.map_cons, List.sum_cons, Nat.add_assoc]

theorem length_applyAll (data : Bytes) (edits : List SourceEdit) :
    (applyAll data edits).length = data.length + (edits.map size).sum := by
  rw [applyAll, length_foldl_insert, ((sortBy_perm _ edits).map size).sum_nat]

theorem applyAll_eq_of_perm (hrange : InRange data.length edits) (hperm : edits.Perm others)
    (hnodup : (edits.map (·.offset)).Nodup) : applyAll data others = applyAll data edits := by
  have hothers : InRange data.length others := fun e he => hrange e (hperm.mem_iff.mpr he)
  have hnodup' := (hperm.map _).nodup_iff.mp hnodup
  rw [applyAll_eq_splice hrange, applyAll_eq_splice hothers]
  refine splice_congr (fun offset => ?_) 0 data
  rw [textsAt, textsAt, editsAt, editsAt]
  -- No two edits share an offset, so each of the two lists has one member at most.
  have hsame : ∀ a b : SourceEdit, a ∈ others.filter (fun e => e.offset == (offset : Int)) →
      b ∈ edits.filter (fun e => e.offset == (offset : Int)) → a.offset = b.offset := by
    intro a b ha hb
    rw [List.mem_filter, beq_iff_eq] at ha hb
    rw [ha.2, hb.2]
  rw [List.Perm.eq_of_pairwise (fun a b ha hb hab _ => absurd (hsame a b ha hb) hab)
    ((List.pairwise_map.mp hnodup').filter _) ((List.pairwise_map.mp hnodup).filter _)
    (hperm.symm.filter _)]

/-! ### The source within the result -/

/-- Where the texts of an offset begin in the result: behind the source up to there and the texts of
all lower offsets. -/
def textsBegin (edits : List SourceEdit) (offset : Nat) : Nat :=
  offset + ((edits.filter fun e => decide (e.offset < (offset : Int))).map size).sum

def isInserted (edits : List SourceEdit) (position : Nat) : Bool :=
  edits.any fun e =>
    decide (textsBegin edits e.offset.toNat ≤ position ∧
      position < textsBegin edits e.offset.toNat + (textsAt edits e.offset.toNat).length)

def withoutInserted (edits : List SourceEdit) (result : Bytes) : Bytes :=
  (result.zipIdx.filter fun (_, position) => !isInserted edits position).map Prod.fst

theorem length_textsAt (edits : List SourceEdit) (offset : Nat) :
    (textsAt edits offset).length =
      ((edits.filter fun e => e.offset == (offset : Int)).map size).sum := by
  rw [textsAt, editsAt, List.length_flatMap, List.map_reverse, List.sum_reverse]
  rfl

theorem textsBegin_zero (h : ∀ e ∈ edits, 0 ≤ e.offset) : textsBegin edits 0 = 0 := by
  have hnone : edits.filter (fun e => decide (e.offset < ((0 : Nat) : Int))) = [] := by
    rw [List.filter_eq_nil_iff]
    intro e he
    have hnonneg := h e he
    simpa using hnonneg
  rw [textsBegin, hnone]
  rfl

theorem sum_size_below_succ (edits : List SourceEdit) (offset : Nat) :
    ((edits.filter fun e => decide (e.offset < ((offset + 1 : Nat) : Int))).map size).sum =
      ((edits.filter fun e => decide (e.offset < (offset : Int))).map size).sum +
        ((edits.filter fun e => e.offset == (offset : Int)).map size).sum := by
  induction edits with
  | nil => rfl
  | cons e rest ih =>
      rw [List.filter_cons, List.filter_cons, List.filter_cons]
      simp only [decide_eq_true_eq, beq_iff_eq]
      rcases Int.lt_trichotomy e.offset offset with hbelow | hat | habove
      · rw [if_pos (by omega), if_pos hbelow, if_neg (by omega), List.map_cons, List.map_cons,
          List.sum_cons, List.sum_cons, ih, Nat.add_assoc]
      · rw [if_pos (by omega), if_neg (by omega), if_pos hat, List.map_cons, List.map_cons,
          List.sum_cons, List.sum_cons, ih, Nat.add_left_comm]
      · rw [if_neg (by omega), if_neg (by omega), if_neg (by omega), ih]

theorem textsBegin_succ (edits : List SourceEdit) (offset : Nat) :
    textsBegin edits (offset + 1) =
      textsBegin edits offset + (textsAt edits offset).length + 1 := by
  rw [textsBegin, textsBegin, length_textsAt, sum_size_below_succ]
  omega

theorem monotone_textsBegin (edits : List SourceEdit) : Monotone (textsBegin edits) := by
  refine monotone_nat_of_le_succ fun offset => ?_
  rw [textsBegin_succ]
  omega

theorem isInserted_of_lt {position : Nat} (hle : textsBegin edits offset ≤ position)
    (hlt : position < textsBegin edits offset + (textsAt edits offset).length) :
    isInserted edits position = true := by
  have hsome : textsAt edits offset ≠ [] := List.ne_nil_of_length_pos (by omega)
  obtain ⟨e, he, hoffset⟩ : ∃ e ∈ edits, e.offset = offset := by
    by_contra hnone
    exact hsome (textsAt_eq_nil fun e he hoffset => hnone ⟨e, he, hoffset⟩)
  have hplace : e.offset.toNat = offset := by omega
  rw [isInserted, List.any_eq_true]
  refine ⟨e, he, decide_eq_true ?_⟩
  rw [hplace]
  exact ⟨hle, hlt⟩

theorem isInserted_add_length (edits : List SourceEdit) (offset : Nat) :
    isInserted edits (textsBegin edits offset + (textsAt edits offset).length) = false := by
  rw [isInserted, List.any_eq_false]
  intro e _ hinserted
  obtain ⟨hle, hlt⟩ := of_decide_eq_true hinserted
  generalize e.offset.toNat = other at hle hlt
  rcases Nat.lt_trichotomy other offset with hlower | rfl | hhigher
  · have hbefore := monotone_textsBegin edits (Nat.succ_le_of_lt hlower)
    rw [Nat.succ_eq_add_one, textsBegin_succ] at hbefore
    omega
  · omega
  · have hbehind := monotone_textsBegin edits (Nat.succ_le_of_lt hhigher)
    rw [Nat.succ_eq_add_one, textsBegin_succ] at hbehind
    omega

theorem filter_zipIdx_textsAt (edits : List SourceEdit) (offset : Nat) :
    ((textsAt edits offset).zipIdx (textsBegin edits offset)).filter
      (fun (_, position) => !isInserted edits position) = [] := by
  rw [List.filter_eq_nil_iff]
  rintro ⟨b, position⟩ hmem
  obtain ⟨hle, hlt, _⟩ := List.mem_zipIdx hmem
  simpa using isInserted_of_lt hle (by omega)

theorem filter_zipIdx_splice (edits : List SourceEdit) (offset : Nat) (data : Bytes) :
    (((splice edits offset data).zipIdx (textsBegin edits offset)).filter
      fun (_, position) => !isInserted edits position).map Prod.fst = data := by
  induction data generalizing offset with
  | nil => rw [splice, filter_zipIdx_textsAt, List.map_nil]
  | cons b rest ih =>
      rw [splice, List.zipIdx_append, List.filter_append, filter_zipIdx_textsAt, List.nil_append,
        List.zipIdx_cons, List.filter_cons_of_pos (by simp [isInserted_add_length]),
        ← textsBegin_succ, List.map_cons, ih]

theorem withoutInserted_splice (h : ∀ e ∈ edits, 0 ≤ e.offset) (data : Bytes) :
    withoutInserted edits (splice edits 0 data) = data := by
  have hsource := filter_zipIdx_splice edits 0 data
  rw [textsBegin_zero h] at hsource
  exact hsource

/-! ### Characters -/

/-- An offset lies within the bytes of a character. -/
def CutsCharacter (cs : List Char) (offset : Int) : Prop :=
  ∃ front c back, cs = front ++ c :: back ∧
    ((front.flatMap String.utf8EncodeChar).length : Int) < offset ∧
    offset < (front.flatMap String.utf8EncodeChar).length + (String.utf8EncodeChar c).length

theorem CutsCharacter.cons {cs : List Char} {place : Int} (h : CutsCharacter cs place) (c : Char) :
    CutsCharacter (c :: cs) (place + (String.utf8EncodeChar c).length) := by
  obtain ⟨front, cut, back, rfl, hbegin, hend⟩ := h
  refine ⟨c :: front, cut, back, rfl, ?_, ?_⟩
  · rw [List.flatMap_cons, List.length_append]
    omega
  · rw [List.flatMap_cons, List.length_append]
    omega

theorem textsAt_eq_flatMap (edits : List SourceEdit) (offset : Nat) :
    textsAt edits offset =
      ((editsAt edits offset).flatMap (·.text.toList)).flatMap String.utf8EncodeChar := by
  rw [textsAt, List.flatMap_assoc]
  rfl

/-- Where no edit cuts a character, what comes out is made of characters. -/
theorem exists_splice_eq_flatMap {cs : List Char}
    (h : ∀ e ∈ edits, ¬ CutsCharacter cs (e.offset - offset)) :
    ∃ out : List Char, splice edits offset (cs.flatMap String.utf8EncodeChar) =
      out.flatMap String.utf8EncodeChar := by
  induction cs generalizing offset with
  | nil => exact ⟨_, textsAt_eq_flatMap edits offset⟩
  | cons c rest ih =>
      obtain ⟨b, tail, hbytes⟩ := List.exists_cons_of_ne_nil (String.utf8EncodeChar_ne_nil (c := c))
      have hlength : (String.utf8EncodeChar c).length = tail.length + 1 := by
        rw [hbytes, List.length_cons]
      have hwhole : ∀ e ∈ edits, e.offset < (offset + 1 : Nat) ∨
          ((offset + 1 + tail.length : Nat) : Int) ≤ e.offset := by
        intro e he
        by_contra hinside
        refine h e he ⟨[], c, rest, rfl, ?_, ?_⟩
        · rw [List.flatMap_nil, List.length_nil]
          omega
        · rw [List.flatMap_nil, List.length_nil]
          omega
      obtain ⟨out, hout⟩ := @ih (offset + 1 + tail.length) fun e he hcuts => h e he (by
        have hshifted := hcuts.cons c
        rwa [show e.offset - ((offset + 1 + tail.length : Nat) : Int) +
          (String.utf8EncodeChar c).length = e.offset - offset by omega] at hshifted)
      refine ⟨(editsAt edits offset).flatMap (·.text.toList) ++ c :: out, ?_⟩
      rw [List.flatMap_cons, hbytes, List.cons_append, splice, splice_append tail hwhole, hout,
        List.flatMap_append, List.flatMap_cons, ← textsAt_eq_flatMap, hbytes, List.cons_append]

theorem applyToText?_eq_some_iff {text result : String} :
    applyToText? text edits = some result ↔
      Utf8.encode result = applyAll (Utf8.encode text) edits := by
  rw [applyToText?, Utf8.decode?_eq_some_iff]

theorem exists_cutsCharacter {text : String} (hrange : InRange (Utf8.encode text).length edits)
    (hfails : applyToText? text edits = none) :
    ∃ e ∈ edits, CutsCharacter text.toList e.offset := by
  by_contra hwhole
  obtain ⟨out, hout⟩ := @exists_splice_eq_flatMap edits 0 text.toList fun e he hcuts =>
    hwhole ⟨e, he, by simpa using hcuts⟩
  have hread : applyToText? text edits = some (String.ofList out) := by
    rw [applyToText?_eq_some_iff, applyAll_eq_splice hrange, Utf8.encode, Utf8.encode,
      String.toList_ofList, hout]
  rw [hfails] at hread
  cases hread

example : applyToText? "é" [⟨"A.cs", 1, "x"⟩] = none := by decide +kernel

/-! ### The whole -/

/-- A result is one pass over the source. -/
structure Splices (data : Bytes) (edits : List SourceEdit) (result : Bytes) : Prop where
  spliced : result = splice edits 0 data
  length : result.length = data.length + (edits.map size).sum
  restored : withoutInserted edits result = data

theorem splices_applyAll_of_inRange (hrange : InRange data.length edits) :
    Splices data edits (applyAll data edits) := by
  have hspliced := applyAll_eq_splice hrange
  refine ⟨hspliced, length_applyAll data edits, ?_⟩
  rw [hspliced]
  exact withoutInserted_splice (fun e he => (hrange e he).1) data

structure SplicesText (text : String) (edits : List SourceEdit) : Prop where
  spliced : ∀ result, applyToText? text edits = some result →
    Splices (Utf8.encode text) edits (Utf8.encode result)
  reordered : ∀ others, edits.Perm others → (edits.map (·.offset)).Nodup →
    applyToText? text others = applyToText? text edits
  cuts : applyToText? text edits = none → ∃ e ∈ edits, CutsCharacter text.toList e.offset

/-- Edits in range are a splice of the source. Those with different offsets can be given in any
order. A text can be read again if none of its characters is cut. -/
theorem splices_applyAll (data : Bytes) (edits : List SourceEdit)
    (hrange : InRange data.length edits) :
    Splices data edits (applyAll data edits) ∧
      (∀ others, edits.Perm others → (edits.map (·.offset)).Nodup →
        applyAll data others = applyAll data edits) ∧
      ∀ text, Utf8.encode text = data → SplicesText text edits := by
  refine ⟨splices_applyAll_of_inRange hrange, fun others => applyAll_eq_of_perm hrange, ?_⟩
  rintro text rfl
  refine ⟨fun result hresult => ?_, fun others hperm hnodup => ?_, exists_cutsCharacter hrange⟩
  · rw [applyToText?_eq_some_iff.mp hresult]
    exact splices_applyAll_of_inRange hrange
  · rw [applyToText?, applyToText?, applyAll_eq_of_perm hrange hperm hnodup]

/-- Two edits at one offset behind a character of two bytes, and one in front of it. -/
theorem splices_applyAll_two_at_one_offset :
    InRange 3 [⟨"", 2, "a"⟩, ⟨"", 0, "b"⟩, ⟨"", 2, "c"⟩] ∧
      Splices [0xC3, 0xA9, 0x21] [⟨"", 2, "a"⟩, ⟨"", 0, "b"⟩, ⟨"", 2, "c"⟩]
        [0x62, 0xC3, 0xA9, 0x63, 0x61, 0x21] ∧
      SplicesText "é!" [⟨"", 2, "a"⟩, ⟨"", 0, "b"⟩, ⟨"", 2, "c"⟩] := by
  have hrange : InRange 3 [⟨"", 2, "a"⟩, ⟨"", 0, "b"⟩, ⟨"", 2, "c"⟩] := by
    simp [InRange]
  have htext : Utf8.encode "é!" = [0xC3, 0xA9, 0x21] := by decide +kernel
  have hresult : applyAll [0xC3, 0xA9, 0x21] [⟨"", 2, "a"⟩, ⟨"", 0, "b"⟩, ⟨"", 2, "c"⟩] =
      [0x62, 0xC3, 0xA9, 0x63, 0x61, 0x21] := by
    decide +kernel
  obtain ⟨hsplices, _, hread⟩ := splices_applyAll [0xC3, 0xA9, 0x21] _ hrange
  rw [hresult] at hsplices
  exact ⟨hrange, hsplices, hread "é!" htext⟩

end SourceEdit

end RouteLinks
