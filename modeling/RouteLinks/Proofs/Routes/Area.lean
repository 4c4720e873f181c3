import RouteLinks.Proofs.Text.Ascii
import RouteLinks.Routes.Naming
/-!
# The area of a namespace

A namespace may name areas at several places, and at each of them by several words, as a word may
itself have the marker or an ending in it. Of all these the area is the longest word at the first
place. So behind a text without the marker, a word between the marker and an ending is the area,
whatever is in it and whatever the namespace goes on with.
-/

namespace RouteLinks.Area

variable {cs rest tail text before word other : List Char} {c : Char}

def endings : List String := ["Controllers", "Handlers"]

structure IsWord (cs : List Char) : Prop where
  ne_nil : cs ≠ []
  isWord : ∀ c ∈ cs, Unicode.isWord c = true

/-- One character and `Areas` and one character, none of them a line feed, and the text behind. -/
def Opens (cs tail : List Char) : Prop :=
  ∃ a b, a ≠ '\n' ∧ b ≠ '\n' ∧ cs = a :: ("Areas".toList ++ b :: tail)

def Closes (cs : List Char) : Prop :=
  ∃ c ending rest, c ≠ '\n' ∧ ending ∈ endings ∧ cs = c :: (ending.toList ++ rest)

/-- A text has the name of an area at its start, and the end of the area behind it. -/
def BeginsWith (word cs : List Char) : Prop :=
  IsWord word ∧ ∃ rest, cs = word ++ rest ∧ Closes rest

/-- A text names an area behind the characters `before`. -/
def NamedAt (text before word : List Char) : Prop :=
  ∃ rest tail, text = before ++ rest ∧ Opens rest tail ∧ BeginsWith word tail

/-- An area is named at no earlier place, and there by no longer word. -/
structure IsChosen (text before word : List Char) : Prop where
  named : NamedAt text before word
  first : ∀ {before' other}, NamedAt text before' other → before.length ≤ before'.length
  longest : ∀ {other}, NamedAt text before other → other.length ≤ word.length

/-! ### The marker and the endings -/

theorem isSeparator_iff : isSeparator c = true ↔ c ≠ '\n' := bne_iff_ne

theorem endsHere_iff : endsHere cs = true ↔ Closes cs := by
  cases cs with
  | nil => exact iff_of_false (fun h => nomatch h) fun ⟨_, _, _, _, _, h⟩ => nomatch h
  | cons c rest =>
      rw [endsHere, Bool.and_eq_true, isSeparator_iff, Bool.or_eq_true, List.isPrefixOf_iff_prefix,
        List.isPrefixOf_iff_prefix]
      constructor
      · rintro ⟨hc, ⟨after, rfl⟩ | ⟨after, rfl⟩⟩
        · exact ⟨c, "Controllers", after, hc, by decide, rfl⟩
        · exact ⟨c, "Handlers", after, hc, by decide, rfl⟩
      · rintro ⟨_, ending, after, hc, hending, hsame⟩
        obtain ⟨rfl, rfl⟩ := List.cons.inj hsame
        simp only [endings, List.mem_cons, List.not_mem_nil, or_false] at hending
        refine ⟨hc, ?_⟩
        obtain rfl | rfl := hending
        · exact .inl (List.prefix_append _ _)
        · exact .inr (List.prefix_append _ _)

theorem afterMarker?_eq_some_iff : afterMarker? cs = some tail ↔ Opens cs tail := by
  constructor
  · intro h
    unfold afterMarker? at h
    split at h
    · next a rest =>
      split at h
      · next hmarker =>
        obtain ⟨ha, hprefix⟩ := Bool.and_eq_true_iff.mp hmarker
        obtain ⟨behind, rfl⟩ := List.isPrefixOf_iff_prefix.mp hprefix
        rw [List.drop_left' (by decide)] at h
        split at h
        · next b more =>
          split at h
          · next hb =>
            obtain rfl := Option.some.inj h
            exact ⟨a, b, isSeparator_iff.mp ha, isSeparator_iff.mp hb, rfl⟩
          · cases h
        · cases h
      · cases h
    · cases h
  · rintro ⟨a, b, ha, hb, rfl⟩
    have hprefix : "Areas".toList.isPrefixOf ("Areas".toList ++ b :: tail) = true :=
      List.isPrefixOf_iff_prefix.mpr (List.prefix_append _ _)
    rw [afterMarker?, isSeparator_iff.mpr ha, hprefix, List.drop_left' (by decide)]
    simp [isSeparator_iff.mpr hb]

theorem Opens.eq {tail' : List Char} (h : Opens cs tail) (h' : Opens cs tail') : tail = tail' := by
  rw [← afterMarker?_eq_some_iff] at h h'
  exact Option.some.inj (h.symm.trans h')

/-! ### The word at a place -/

theorem beginsWith_cons_iff : BeginsWith word (c :: rest) ↔
    Unicode.isWord c = true ∧
      ∃ more, word = c :: more ∧ (more = [] ∧ Closes rest ∨ BeginsWith more rest) := by
  constructor
  · rintro ⟨⟨hne, hword⟩, behind, hsplit, hcloses⟩
    obtain ⟨d, more, rfl⟩ := List.exists_cons_of_ne_nil hne
    obtain ⟨rfl, rfl⟩ := List.cons.inj hsplit
    obtain ⟨hc, hmore⟩ := List.forall_mem_cons.mp hword
    refine ⟨hc, more, rfl, ?_⟩
    by_cases hlast : more = []
    · subst hlast
      exact .inl ⟨rfl, hcloses⟩
    · exact .inr ⟨⟨hlast, hmore⟩, behind, rfl, hcloses⟩
  · rintro ⟨hc, more, rfl, ⟨rfl, hcloses⟩ | ⟨⟨-, hmore⟩, behind, rfl, hcloses⟩⟩
    · exact ⟨⟨List.cons_ne_nil _ _, List.forall_mem_singleton.mpr hc⟩, rest, rfl, hcloses⟩
    · exact ⟨⟨List.cons_ne_nil _ _, List.forall_mem_cons.mpr ⟨hc, hmore⟩⟩, behind, rfl, hcloses⟩

theorem beginsWith_of_word? (h : word? cs = some word) : BeginsWith word cs := by
  induction cs generalizing word with
  | nil => cases h
  | cons c rest ih =>
      rw [word?] at h
      split at h
      · next hc =>
        refine beginsWith_cons_iff.mpr ⟨hc, ?_⟩
        split at h
        · next more hmore => exact ⟨more, (Option.some.inj h).symm, .inr (ih hmore)⟩
        · split at h
          · next hend => exact ⟨[], (Option.some.inj h).symm, .inl ⟨rfl, endsHere_iff.mp hend⟩⟩
          · cases h
      · cases h

theorem exists_word? (h : BeginsWith other cs) :
    ∃ word, word? cs = some word ∧ other.length ≤ word.length := by
  induction cs generalizing other with
  | nil =>
      obtain ⟨⟨hne, -⟩, behind, hsplit, -⟩ := h
      exact absurd (List.append_eq_nil_iff.mp hsplit.symm).1 hne
  | cons c rest ih =>
      obtain ⟨hc, more, rfl, ⟨rfl, hcloses⟩ | hmore⟩ := beginsWith_cons_iff.mp h
      · rw [word?, if_pos hc, endsHere_iff.mpr hcloses]
        cases word? rest with
        | some longer => exact ⟨c :: longer, rfl, Nat.succ_le_succ (Nat.zero_le _)⟩
        | none => exact ⟨[c], rfl, Nat.le_refl _⟩
      · obtain ⟨word, hword, hle⟩ := ih hmore
        rw [word?, if_pos hc, hword]
        exact ⟨c :: word, rfl, Nat.succ_le_succ hle⟩

/-! ### Places -/

theorem namedAt_nil_iff :
    NamedAt text [] word ↔ ∃ tail, afterMarker? text = some tail ∧ BeginsWith word tail := by
  simp only [NamedAt, List.nil_append, afterMarker?_eq_some_iff, exists_and_left, exists_eq_left']

theorem namedAt_cons_iff {d : Char} :
    NamedAt (c :: rest) (d :: before) word ↔ c = d ∧ NamedAt rest before word := by
  simp only [NamedAt, List.cons_append, List.cons.injEq, and_assoc, exists_and_left]

theorem NamedAt.ne_nil (h : NamedAt text before word) : word ≠ [] := by
  obtain ⟨_, _, _, _, hword, _⟩ := h
  exact hword.ne_nil

def here? (cs : List Char) : Option (List Char) := (afterMarker? cs).bind word?

theorem find?_cons (c : Char) (rest : List Char) :
    find? (c :: rest) = (here? (c :: rest)).or (find? rest) := by
  rw [find?, here?]
  cases (afterMarker? (c :: rest)).bind word? <;> rfl

theorem namedAt_of_here? (h : here? text = some word) : NamedAt text [] word := by
  obtain ⟨tail, htail, hword⟩ := Option.bind_eq_some_iff.mp h
  exact namedAt_nil_iff.mpr ⟨tail, htail, beginsWith_of_word? hword⟩

theorem exists_here? (h : NamedAt text [] other) :
    ∃ word, here? text = some word ∧ other.length ≤ word.length := by
  obtain ⟨tail, htail, hother⟩ := namedAt_nil_iff.mp h
  rw [here?, htail]
  exact exists_word? hother

theorem exists_isChosen (h : find? text = some word) : ∃ before, IsChosen text before word := by
  induction text with
  | nil => cases h
  | cons c rest ih =>
      rw [find?_cons] at h
      obtain hhere | ⟨hnone, hrest⟩ := Option.or_eq_some_iff.mp h
      · refine ⟨[], namedAt_of_here? hhere, fun _ => Nat.zero_le _, fun hother => ?_⟩
        obtain ⟨found, hfound, hle⟩ := exists_here? hother
        rwa [Option.some.inj (hhere.symm.trans hfound)]
      · obtain ⟨before, hnamed, hfirst, hlongest⟩ := ih hrest
        refine ⟨c :: before, namedAt_cons_iff.mpr ⟨rfl, hnamed⟩, fun {before' other} hother => ?_,
          fun hother => hlongest (namedAt_cons_iff.mp hother).2⟩
        cases before' with
        | nil =>
            obtain ⟨found, hfound, -⟩ := exists_here? hother
            exact nomatch hnone.symm.trans hfound
        | cons d more => exact Nat.succ_le_succ (hfirst (namedAt_cons_iff.mp hother).2)

theorem exists_find? (h : NamedAt text before other) : ∃ word, find? text = some word := by
  induction text generalizing before with
  | nil =>
      obtain ⟨rest, tail, hsplit, ⟨a, b, -, -, rfl⟩, -⟩ := h
      exact absurd (List.append_eq_nil_iff.mp hsplit.symm).2 (List.cons_ne_nil _ _)
  | cons c rest ih =>
      rw [find?_cons]
      cases before with
      | nil =>
          obtain ⟨word, hword, -⟩ := exists_here? h
          exact ⟨word, by rw [hword]; rfl⟩
      | cons d more =>
          obtain ⟨word, hword⟩ := ih (namedAt_cons_iff.mp h).2
          cases hhere : here? (c :: rest) with
          | some found => exact ⟨found, rfl⟩
          | none => exact ⟨word, hword⟩

theorem NamedAt.eq_of_length (h : NamedAt text before word) (hother : NamedAt text before other)
    (hlength : word.length = other.length) : word = other := by
  obtain ⟨rest, tail, rfl, hopens, -, behind, rfl, -⟩ := h
  obtain ⟨rest', tail', hsplit, hopens', -, behind', rfl, -⟩ := hother
  obtain rfl := List.append_cancel_left hsplit
  exact (List.append_inj (hopens.eq hopens') hlength).1

theorem IsChosen.eq {before' : List Char} (h : IsChosen text before word)
    (hother : IsChosen text before' other) : word = other := by
  have hplace : before = before' := by
    have hlength := Nat.le_antisymm (h.first hother.named) (hother.first h.named)
    obtain ⟨rest, -, rfl, -⟩ := h.named
    obtain ⟨rest', -, hsplit, -⟩ := hother.named
    exact (List.append_inj hsplit hlength).1
  subst hplace
  exact h.named.eq_of_length hother.named
    (Nat.le_antisymm (hother.longest h.named) (h.longest hother.named))

theorem find?_eq_some_iff : find? text = some word ↔ ∃ before, IsChosen text before word := by
  refine ⟨exists_isChosen, fun ⟨before, hchosen⟩ => ?_⟩
  obtain ⟨found, hfound⟩ := exists_find? hchosen.named
  obtain ⟨_, hother⟩ := exists_isChosen hfound
  rw [hfound, hother.eq hchosen]

/-! ### A segment between the marker and an ending -/

/-- What is behind a text without the marker names no area earlier. -/
theorem length_le_of_opens {front behind : List Char} (h : ¬"Areas".toList <:+: before)
    (hopens : Opens rest tail) (hsplit : before ++ '.' :: behind = front ++ rest) :
    before.length ≤ front.length := by
  obtain ⟨a, b, -, -, rfl⟩ := hopens
  obtain ⟨more, rfl, -⟩ | ⟨more, rfl, hmore⟩ := List.append_eq_append_iff.mp hsplit
  · simp
  · cases more with
    | nil => simp
    | cons d more =>
        obtain ⟨rfl, hmarker⟩ := List.cons.inj hmore
        -- the marker begins before the dot, so it ends before it or has a dot
        obtain ⟨part, rfl, -⟩ | ⟨part, hpart, hdot⟩ := List.append_eq_append_iff.mp hmarker
        · exact absurd ⟨front ++ [a], part, by simp⟩ h
        · cases part with
          | nil =>
              refine absurd ⟨front ++ [a], [], ?_⟩ h
              rw [hpart]
              simp
          | cons e part =>
              obtain ⟨rfl, -⟩ := List.cons.inj hdot
              have hmem : '.' ∈ "Areas".toList := hpart ▸ List.mem_append_right _ List.mem_cons_self
              exact absurd hmem (by decide)

theorem BeginsWith.length_le {behind : List Char} (h : BeginsWith other (word ++ '.' :: behind)) :
    other.length ≤ word.length := by
  obtain ⟨⟨-, hother⟩, _, hsplit, -⟩ := h
  obtain ⟨more, rfl, hdot⟩ | ⟨more, rfl, -⟩ := List.append_eq_append_iff.mp hsplit
  · cases more with
    | nil => simp
    | cons d more =>
        obtain ⟨rfl, -⟩ := List.cons.inj hdot
        exact absurd (hother '.' (List.mem_append_right _ List.mem_cons_self)) (by decide)
  · simp

theorem isChosen_segment {ending : String} (h : ¬"Areas".toList <:+: before) (hword : IsWord word)
    (hending : ending ∈ endings) (after : List Char) :
    IsChosen (before ++ '.' :: ("Areas".toList ++ '.' :: (word ++ '.' :: (ending.toList ++ after))))
      before word := by
  have hopens : Opens ('.' :: ("Areas".toList ++ '.' :: (word ++ '.' :: (ending.toList ++ after))))
      (word ++ '.' :: (ending.toList ++ after)) := ⟨'.', '.', by decide, by decide, rfl⟩
  refine ⟨⟨_, _, rfl, hopens, hword, _, rfl, '.', ending, after, by decide, hending, rfl⟩, ?_, ?_⟩
  · rintro front other ⟨rest, tail, hsplit, hopens', -⟩
    exact length_le_of_opens h hopens' hsplit
  · rintro other ⟨rest, tail, hsplit, hopens', hother⟩
    obtain rfl := List.append_cancel_left hsplit
    obtain rfl := hopens.eq hopens'
    exact hother.length_le

theorem ofNamespace_eq_iff {name area : String} (hne : area ≠ "") :
    ofNamespace name = area ↔ ∃ before, IsChosen name.toList before area.toList := by
  rw [← find?_eq_some_iff, ofNamespace]
  cases find? name.toList with
  | none => simpa using hne.symm
  | some word => rw [Option.getD_some, Option.some.injEq, ← String.toList_inj, String.toList_ofList]

/-- A namespace has an area if it names one, and then it is the longest word at the first place
where it does. A segment between the marker and an ending is the area, if the marker is not in what
is before. -/
theorem ofNamespace_first_longest (name : String) :
    (ofNamespace name ≠ "" ↔ ∃ before word, NamedAt name.toList before word) ∧
      (∀ area ≠ "", ofNamespace name = area ↔ ∃ before, IsChosen name.toList before area.toList) ∧
      ∀ before area after : String, ¬"Areas".toList <:+: before.toList → IsWord area.toList →
        ∀ ending ∈ endings,
          ofNamespace (before ++ ".Areas." ++ area ++ "." ++ ending ++ after) = area := by
  refine ⟨⟨fun hne => ?_, fun ⟨before, word, hnamed⟩ => ?_⟩, fun area => ofNamespace_eq_iff,
    fun before area after hbefore harea ending hending => ?_⟩
  · obtain ⟨before, hchosen⟩ := (ofNamespace_eq_iff hne).mp rfl
    exact ⟨before, _, hchosen.named⟩
  · obtain ⟨found, hfound⟩ := exists_find? hnamed
    obtain ⟨_, hchosen⟩ := exists_isChosen hfound
    rw [ofNamespace, hfound, Option.getD_some, ne_eq, String.ofList_eq_empty_iff]
    exact hchosen.named.ne_nil
  · have hne : area ≠ "" := by
      rintro rfl
      exact harea.ne_nil rfl
    rw [ofNamespace_eq_iff hne]
    refine ⟨before.toList, ?_⟩
    have hchosen := isChosen_segment hbefore harea hending after.toList
    simpa using hchosen

/-- A word goes on behind an ending if it can, and a segment may have the marker in it. -/
theorem ofNamespace_nested :
    (∃ before, IsChosen "A.AreasXBXHandlersXControllers".toList before "BXHandlers".toList) ∧
      ¬"Areas".toList <:+: "App".toList ∧ IsWord "XAreasXHandlers".toList ∧
        ofNamespace ("App" ++ ".Areas." ++ "XAreasXHandlers" ++ "." ++ "Controllers" ++ ".Areas") =
          "XAreasXHandlers" := by
  have hbefore : ¬"Areas".toList <:+: "App".toList := by decide
  have hword : IsWord "XAreasXHandlers".toList := ⟨by decide, forall_mem_of_all (by decide)⟩
  refine ⟨?_, hbefore, hword, ?_⟩
  · exact ((ofNamespace_first_longest _).2.1 "BXHandlers" (by decide)).mp rfl
  · exact (ofNamespace_first_longest "").2.2 _ _ _ hbefore hword _ (by decide)

end RouteLinks.Area
