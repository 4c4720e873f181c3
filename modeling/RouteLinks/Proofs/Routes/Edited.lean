import RouteLinks.Proofs.Symbols.Matching
import RouteLinks.Routes.Edit
/-!
# The model of edited sources

The edits of a run put one modifier in front of a return type or of the keyword `class`. What a
reader of the edited sources finds is the same model but for this: a class or method at the place
of an edit has the new modifier somewhere among its modifiers, a class that has become partial has
no place for a further edit, and all other places may have moved. How the sources themselves look
is left open.

Ancestry and discovery see nothing of this: they lead to the same classes, each as it has become.
-/

namespace RouteLinks

/-- A modifier is put somewhere among others. -/
def Inserted (modifier : String) (before after : List String) : Prop :=
  ∃ front back, before = front ++ back ∧ after = front ++ modifier :: back

theorem Inserted.mem {modifier : String} {before after : List String}
    (h : Inserted modifier before after) : modifier ∈ after := by
  obtain ⟨front, back, rfl, rfl⟩ := h
  simp

theorem Inserted.contains_eq {modifier word : String} {before after : List String}
    (h : Inserted modifier before after) (hne : word ≠ modifier) :
    after.contains word = before.contains word := by
  obtain ⟨front, back, rfl, rfl⟩ := h
  rw [Bool.eq_iff_iff]
  simp [hne]

variable {edits : List SourceEdit}

/-! ### Methods -/

namespace Method

def IsOpenedBy (edits : List SourceEdit) (x : Method) : Prop :=
  ∃ place : Nat, x.returnTypeAt = some place ∧ SourceEdit.mk x.filePath place "virtual " ∈ edits

/-- What a method is after some edits of its source. -/
structure Becomes (edits : List SourceEdit) (x y : Method) : Prop where
  same : y = { x with modifiers := y.modifiers, returnTypeAt := y.returnTypeAt }
  opened : x.IsOpenedBy edits → Inserted "virtual" x.modifiers y.modifiers
  kept : ¬ x.IsOpenedBy edits → y.modifiers = x.modifiers
  placed : y.returnTypeAt.isSome = x.returnTypeAt.isSome

namespace Becomes

variable {x y : Method}

theorem contains_modifiers (h : x.Becomes edits y) (word : String) (hne : word ≠ "virtual") :
    y.modifiers.contains word = x.modifiers.contains word := by
  by_cases hopened : x.IsOpenedBy edits
  · exact (h.opened hopened).contains_eq hne
  · rw [h.kept hopened]

theorem signature_eq (h : x.Becomes edits y) : y.signature = x.signature := by
  rw [h.same]
  rfl

/-- A method can be overridden if it could be before, or if an edit has opened it. -/
theorem isOverridable (h : x.Becomes edits y)
    (hopen : x.isOverridable = true ∨ x.IsOpenedBy edits) : y.isOverridable = true := by
  by_cases hopened : x.IsOpenedBy edits
  · simp [Method.isOverridable, (h.opened hopened).mem]
  · rw [Method.isOverridable, h.kept hopened]
    exact hopen.resolve_right hopened

end Becomes

end Method

/-! ### Classes -/

namespace Class

def IsOpenedBy (edits : List SourceEdit) (c : Class) : Prop :=
  ∃ place : Nat, c.partialAt = some place ∧ SourceEdit.mk c.filePath place "partial " ∈ edits

structure Becomes (edits : List SourceEdit) (c d : Class) : Prop where
  same : d = { c with modifiers := d.modifiers, methods := d.methods, partialAt := d.partialAt }
  methods : List.Forall₂ (Method.Becomes edits) c.methods d.methods
  opened : c.IsOpenedBy edits → Inserted "partial" c.modifiers d.modifiers ∧ d.partialAt = none
  kept : ¬ c.IsOpenedBy edits →
    d.modifiers = c.modifiers ∧ d.partialAt.isSome = c.partialAt.isSome

namespace Becomes

variable {c d : Class}

theorem contains_modifiers (h : c.Becomes edits d) (word : String) (hne : word ≠ "partial") :
    d.modifiers.contains word = c.modifiers.contains word := by
  by_cases hopened : c.IsOpenedBy edits
  · exact (h.opened hopened).1.contains_eq hne
  · rw [(h.kept hopened).1]

theorem name_eq (h : c.Becomes edits d) : d.name = c.name := by
  rw [h.same]

theorem scope_eq (h : c.Becomes edits d) : d.scope = c.scope := by
  rw [h.same]

theorem filePath_eq (h : c.Becomes edits d) : d.filePath = c.filePath := by
  rw [h.same]

theorem usings_eq (h : c.Becomes edits d) : d.usings = c.usings := by
  rw [h.same]

theorem qualifiedName_eq (h : c.Becomes edits d) : d.qualifiedName = c.qualifiedName := by
  rw [Class.qualifiedName, Class.qualifiedName, h.name_eq, h.scope_eq]

theorem hasAttribute_eq (h : c.Becomes edits d) (name : String) :
    d.hasAttribute name = c.hasAttribute name := by
  rw [h.same]
  rfl

theorem base?_eq (h : c.Becomes edits d) : d.base? = c.base? := by
  rw [h.same]
  rfl

theorem candidates_eq (h : c.Becomes edits d) (name : String) :
    d.candidates name = c.candidates name := by
  rw [Class.candidates, Class.candidates, h.scope_eq, h.usings_eq]

theorem partialAt_eq_none (h : c.Becomes edits d)
    (hopened : c.partialAt.isSome = true → c.IsOpenedBy edits) : d.partialAt = none := by
  by_cases hopen : c.IsOpenedBy edits
  · exact (h.opened hopen).2
  · rw [← Option.isNone_iff_eq_none, ← Option.not_isSome, (h.kept hopen).2]
    simpa using mt hopened hopen

end Becomes

end Class

theorem Class.Becomes.looksLike {c d : Class} (h : c.Becomes edits d) : c.LooksLike d where
  endsWith_name := by rw [h.name_eq]
  name := by rw [h.name_eq]
  isNested := by rw [h.same]
  hasAttribute := h.hasAttribute_eq
  isPublic := h.contains_modifiers _ (by decide)
  isStatic := h.contains_modifiers _ (by decide)
  isSealed := h.contains_modifiers _ (by decide)
  isGeneric := by rw [h.same]; rfl
  hasError := by rw [h.same]

/-! ### Models -/

namespace Model

/-- What a model is after some edits of its sources. -/
def Becomes (edits : List SourceEdit) (m n : Model) : Prop :=
  List.Forall₂ (Class.Becomes edits) m.classes n.classes

namespace Becomes

variable {m n : Model}

theorem find? (h : m.Becomes edits n) (name : String) :
    Option.Rel (Class.Becomes edits) (m.find? name) (n.find? name) :=
  rel_find? h fun _ _ hclass => by rw [hclass.qualifiedName_eq]

/-- Ancestry and discovery see nothing of the edits. -/
theorem toMatches (h : m.Becomes edits n) : Matches (Class.Becomes edits) m n where
  classes := h
  beq_qualifiedName hclass hother := by rw [hclass.qualifiedName_eq, hother.qualifiedName_eq]
  looksLike := Class.Becomes.looksLike
  base? {c d} hclass := by
    rw [hclass.base?_eq]
    cases c.base? with
    | none => exact .none
    | some written =>
        refine .some ⟨?_, rfl⟩
        rw [hclass.candidates_eq]
        exact List.forall₂_same.mpr fun name _ => h.find? name

theorem discoveryDiagnostics_eq (h : m.Becomes edits n) :
    n.discoveryDiagnostics = m.discoveryDiagnostics := by
  apply filterMap_eq_of_forall₂ h
  intro c d hclass
  rw [discoveryDiagnostic?, discoveryDiagnostic?, h.toMatches.discover_eq hclass, hclass.same]
  rfl

end Becomes

end Model

end RouteLinks
