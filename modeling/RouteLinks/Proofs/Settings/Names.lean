import RouteLinks.Proofs.Settings.Values
import RouteLinks.Proofs.Text.Identifier
/-!
# Names in settings

Which texts are accepted for the settings that are names, told by a grammar: a name is a word with
an optional mark, and a dotted name is a row of names with points between them. The blanks around a
text do not count and are not stored. A part of a namespace may have a line feed behind it, so more
than the dotted names are accepted, and a line feed can get into the generated code.
-/

namespace RouteLinks

/-! ### The grammar of names -/

def IsNameStart (c : Char) : Prop :=
  'A' ≤ c ∧ c ≤ 'Z' ∨ 'a' ≤ c ∧ c ≤ 'z' ∨ c = '_'

def IsNameRest (c : Char) : Prop := IsNameStart c ∨ '0' ≤ c ∧ c ≤ '9'

/-- A name: a word of letters, digits and underscores, which may be marked. -/
inductive IsName : List Char → Prop where
  | plain {first : Char} {rest : List Char} (hfirst : IsNameStart first)
      (hrest : ∀ c ∈ rest, IsNameRest c) : IsName (first :: rest)
  | marked {first : Char} {rest : List Char} (hfirst : IsNameStart first)
      (hrest : ∀ c ∈ rest, IsNameRest c) : IsName ('@' :: first :: rest)

/-- A name, or a name with a line feed behind it. -/
inductive IsNameLine : List Char → Prop where
  | name {cs : List Char} (h : IsName cs) : IsNameLine cs
  | ended {cs : List Char} (h : IsName cs) : IsNameLine (cs ++ ['\n'])

def IsDotted (isPart : List Char → Prop) (cs : List Char) : Prop :=
  ∃ parts, parts ≠ [] ∧ (∀ part ∈ parts, isPart part) ∧ cs = ['.'].intercalate parts

theorem isStart_iff {c : Char} : Identifier.isStart c = true ↔ IsNameStart c := by
  have hletter : c.isAlpha = true ↔ ('A' ≤ c ∧ c ≤ 'Z') ∨ 'a' ≤ c ∧ c ≤ 'z' := by
    show (decide ('A' ≤ c ∧ c ≤ 'Z') || (decide ('a' ≤ c) && decide (c ≤ 'z'))) = true ↔ _
    simp only [Bool.or_eq_true, Bool.and_eq_true, decide_eq_true_eq]
  rw [Identifier.isStart, Bool.or_eq_true, hletter, beq_iff_eq, IsNameStart, or_assoc]

theorem isPart_iff {c : Char} : Identifier.isPart c = true ↔ IsNameRest c := by
  have hdigit : c.isDigit = true ↔ '0' ≤ c ∧ c ≤ '9' := by
    simp only [Char.isDigit, Bool.and_eq_true, decide_eq_true_eq]
    rfl
  rw [IsNameRest, ← isStart_iff, ← hdigit, Identifier.isPart, Char.isAlphanum, Identifier.isStart]
  simp only [Bool.or_eq_true]
  tauto

theorem isName_iff {s : String} : Identifier.isIdentifier s = true ↔ IsName s.toList := by
  rw [Identifier.isIdentifier_iff]
  constructor
  · rintro ⟨_, hs, c, rest, rfl, hc, hrest⟩
    have hparts : ∀ d ∈ rest, IsNameRest d := fun d hd =>
      isPart_iff.mp (List.all_eq_true.mp hrest d hd)
    rcases hs with hs | hs <;> rw [hs]
    · exact .plain (isStart_iff.mp hc) hparts
    · exact .marked (isStart_iff.mp hc) hparts
  · intro h
    generalize hcs : s.toList = cs at h
    cases h with
    | @plain first rest hfirst hrest =>
        exact ⟨_, .inl rfl, first, rest, rfl, isStart_iff.mpr hfirst,
          List.all_eq_true.mpr fun d hd => isPart_iff.mpr (hrest d hd)⟩
    | @marked first rest hfirst hrest =>
        exact ⟨_, .inr rfl, first, rest, rfl, isStart_iff.mpr hfirst,
          List.all_eq_true.mpr fun d hd => isPart_iff.mpr (hrest d hd)⟩

theorem IsName.bounds {cs : List Char} (h : IsName cs) : ∀ c ∈ cs, IsNameRest c ∨ c = '@' := by
  cases h with
  | plain hfirst hrest =>
      exact List.forall_mem_cons.mpr ⟨.inl (.inl hfirst), fun c hc => .inl (hrest c hc)⟩
  | marked hfirst hrest =>
      exact List.forall_mem_cons.mpr ⟨.inr rfl,
        List.forall_mem_cons.mpr ⟨.inl (.inl hfirst), fun c hc => .inl (hrest c hc)⟩⟩

theorem IsName.not_mem {cs : List Char} (h : IsName cs) : '.' ∉ cs ∧ '\n' ∉ cs := by
  have hnone : ∀ c : Char, ¬IsNameRest c → c ≠ '@' → c ∉ cs := fun c hrest hmark hc =>
    (h.bounds c hc).elim hrest hmark
  have hpoint : ¬IsNameRest '.' := by
    rw [← isPart_iff]
    decide
  have hline : ¬IsNameRest '\n' := by
    rw [← isPart_iff]
    decide
  exact ⟨hnone '.' hpoint (by decide), hnone '\n' hline (by decide)⟩

theorem IsNameLine.not_mem {cs : List Char} (h : IsNameLine cs) : '.' ∉ cs := by
  cases h with
  | name h => exact h.not_mem.1
  | ended h => simpa using h.not_mem.1

/-- A part of a namespace is a name that may have a line feed behind it. -/
theorem isNamespacePart_iff {part : String} :
    isNamespacePart part = true ↔ IsNameLine part.toList := by
  rw [isNamespacePart, isName_iff, dropEnding]
  split
  · next hends =>
    obtain ⟨front, hfront⟩ := List.isSuffixOf_iff_suffix.mp hends
    have hline : "\n".toList = ['\n'] := by decide
    have htake : part.toList.take (part.toList.length - "\n".toList.length) = front := by
      rw [← hfront, List.length_append, Nat.add_sub_cancel, List.take_left]
    rw [htake, String.toList_ofList, ← hfront, hline]
    constructor
    · exact .ended
    · intro h
      generalize hcs : front ++ ['\n'] = cs at h
      cases h with
      | name h => exact absurd (by simp [← hcs]) h.not_mem.2
      | ended h => rwa [List.append_cancel_right hcs]
  · next hends =>
    refine ⟨.name, fun h => ?_⟩
    generalize hcs : part.toList = cs at h
    cases h with
    | name h => exact h
    | ended h =>
        refine absurd (List.isSuffixOf_iff_suffix.mpr ?_) hends
        rw [hcs]
        exact List.suffix_append _ _

theorem isDotted_iff {s : String} :
    isNamespace s = true ↔ IsDotted IsNameLine s.toList := by
  rw [isNamespace, splitAt, List.all_map, List.all_eq_true]
  constructor
  · intro h
    refine ⟨Text.fields '.' s.toList, Text.fields_ne_nil _ _, fun part hpart => ?_,
      (Text.intercalate_fields '.' s.toList).symm⟩
    have hname := isNamespacePart_iff.mp (h part hpart)
    rwa [String.toList_ofList] at hname
  · rintro ⟨parts, hne, hparts, hs⟩ part hpart
    rw [hs, Text.fields_intercalate hne fun part hpart => (hparts part hpart).not_mem] at hpart
    refine isNamespacePart_iff.mpr ?_
    rw [String.toList_ofList]
    exact hparts part hpart

/-- The dotted names are what is accepted without a line feed. -/
theorem isDotted_isName_iff {cs : List Char} :
    IsDotted IsName cs ↔ IsDotted IsNameLine cs ∧ '\n' ∉ cs := by
  constructor
  · rintro ⟨parts, hne, hparts, rfl⟩
    refine ⟨⟨parts, hne, fun part hpart => .name (hparts part hpart), rfl⟩, fun hmem => ?_⟩
    rcases Text.mem_intercalate hmem with hpoint | ⟨part, hpart, hc⟩
    · simp at hpoint
    · exact (hparts part hpart).not_mem.2 hc
  · rintro ⟨⟨parts, hne, hparts, rfl⟩, hline⟩
    refine ⟨parts, hne, fun part hpart => ?_, rfl⟩
    have hfields : part ∈ Text.fields '.' (['.'].intercalate parts) := by
      rwa [Text.fields_intercalate hne fun part hpart => (hparts part hpart).not_mem]
    generalize hcs : part = cs
    have hname := hcs ▸ hparts part hpart
    cases hname with
    | name h => exact h
    | ended h =>
        refine absurd (Text.mem_of_mem_fields hfields ?_).1 hline
        simp [hcs]

/-! ### What is accepted -/

namespace Settings

/-- A text is accepted for a setting exactly under a rule, wherever it stands and whatever else the
mapping says, and what is stored is the text without the blanks around it. -/
structure Takes (r : ValueReader) (x : Setting) (s : String) (rule : Prop) : Prop where
  accepted : ∀ entries key, find? r entries x = some (key, .text s) →
    ((∀ p ∈ problems (ofEntries r entries), p.key ≠ some key) ↔ rule)
  stored : ∀ entries key t, find? r entries x = some (key, .text s) → ofEntries r entries = .ok t →
    t.valueOf x = .text (trim s)

theorem takes_of_trimmedName? {r : ValueReader} (hr : r.IsFaithful) {x : Setting}
    {isName : String → Bool} {complaint : String → Complaint} {s : String} {rule : Prop}
    (hkind : ∀ value, x.kind.read r value =
      (single (fun d => (r.text? d).bind (trimmedName? isName complaint)) value).map .text)
    (hrule : isName (trim s) = true ↔ rule) : Takes r x s rule := by
  have hread : ∀ v, x.kind.read r (.text s) = .ok v ↔ rule ∧ .text (trim s) = v := by
    intro v
    simp only [hkind, map_eq_ok_iff, single_eq_ok_iff, bind_trimmedName?_text hr,
      trimmedName?_eq_ok_iff, hrule]
    constructor
    · rintro ⟨_, ⟨hname, rfl⟩, hv⟩
      exact ⟨hname, hv⟩
    · rintro ⟨hname, hv⟩
      exact ⟨_, ⟨hname, rfl⟩, hv⟩
  constructor
  · intro entries key hfind
    rw [forall_key_ne_iff hr hfind]
    exact ⟨fun ⟨v, hv⟩ => ((hread v).mp hv).1, fun h => ⟨_, (hread _).mpr ⟨h, rfl⟩⟩⟩
  · intro entries key t hfind ht
    exact ((hread _).mp (valueOf_of_find? hfind ht)).2.symm

/-- The prefix has to be a name and is taken exactly if it is one. A namespace is taken if it is a
dotted name, but also if parts of it have a line feed behind them; so a text that is taken is a
dotted name exactly if no line feed is left in it. -/
theorem takes_names {r : ValueReader} (hr : r.IsFaithful) (s : String) :
    Takes r .namingPrefix s (IsName (trim s).toList) ∧
      Takes r .targetNamespace s (IsDotted IsNameLine (trim s).toList) ∧
      Takes r .linksNamespace s (IsDotted IsNameLine (trim s).toList) ∧
      (IsDotted IsName (trim s).toList ↔
        IsDotted IsNameLine (trim s).toList ∧ '\n' ∉ (trim s).toList) :=
  ⟨takes_of_trimmedName? hr (fun _ => rfl) isName_iff,
    takes_of_trimmedName? hr (fun _ => rfl) isDotted_iff,
    takes_of_trimmedName? hr (fun _ => rfl) isDotted_iff, isDotted_isName_iff⟩

/-- A prefix with a mark and blanks around it is taken without the blanks, under its first key. -/
theorem takes_marked_prefix :
    ValueReader.lenient.IsFaithful ∧
      find? .lenient [("namingPrefix", .text " @Site ")] .namingPrefix =
        some ("namingPrefix", .text " @Site ") ∧
      ∃ t, ofEntries .lenient [("namingPrefix", .text " @Site ")] = .ok t ∧
        t.valueOf .namingPrefix = .text "@Site" := by
  have hr := ValueReader.isFaithful_lenient
  have hfind : find? .lenient [("namingPrefix", .text " @Site ")] .namingPrefix =
      some ("namingPrefix", .text " @Site ") := by rfl
  have hread : ofEntries .lenient [("namingPrefix", .text " @Site ")] =
      .ok { namingPrefix := "@Site" } := by rfl
  have htrim : trim " @Site " = "@Site" := by decide
  refine ⟨hr, hfind, _, hread, ?_⟩
  rw [← htrim]
  exact (takes_names hr " @Site ").1.stored _ _ _ hfind hread

/-- A line feed before a point gets into the namespace. -/
theorem takes_broken_namespace :
    ofEntries .lenient [("targetNamespace", .text "A\n.B")] =
        .ok { targetNamespace := "A\n.B" } ∧
      trim "A\n.B" = "A\n.B" ∧ ¬IsDotted IsName "A\n.B".toList := by
  refine ⟨by rfl, by decide, fun h => ?_⟩
  exact (isDotted_isName_iff.mp h).2 (by decide)

end Settings

end RouteLinks
