import RouteLinks.Proofs.Order
import RouteLinks.Symbols.Discovery
/-!
# Models that match

Ancestry and discovery read little of a class: its name, the names that its base can stand for, and
some modifiers and attributes. Two models match where their classes are related one by one and
related classes are the same in this much, whatever else the relation lets differ. Then the walk
from base to base comes to related classes, and the same classes are controllers.
-/

namespace RouteLinks

/-- What discovery reads of a class by itself is the same in another. -/
structure Class.LooksLike (c d : Class) : Prop where
  endsWith_name : endsWith d.name controllerSuffix = endsWith c.name controllerSuffix
  name : looksLikeController d.name = looksLikeController c.name
  isNested : d.isNested = c.isNested
  hasAttribute : ∀ name, d.hasAttribute name = c.hasAttribute name
  isPublic : d.isPublic = c.isPublic
  isStatic : d.isStatic = c.isStatic
  isSealed : d.isSealed = c.isSealed
  isGeneric : d.isGeneric = c.isGeneric
  hasError : d.hasError = c.hasError

/-- The walks come to related classes and end in the same way. -/
structure Ancestry.Matches (related : Class → Class → Prop) (a b : Ancestry) : Prop where
  chain : List.Forall₂ related a.chain b.chain
  external : b.external.map looksLikeController = a.external.map looksLikeController
  isCyclic : b.isCyclic = a.isCyclic

namespace Model

/-- Two written bases lead to related classes by each name that they can stand for, and look alike
where they lead out of the program. -/
structure MatchesBase (related : Class → Class → Prop) (m n : Model) (c d : Class)
    (written written' : String) : Prop where
  candidates : List.Forall₂ (fun name name' => Option.Rel related (m.find? name) (n.find? name'))
    (c.candidates (withoutArguments written)) (d.candidates (withoutArguments written'))
  external :
    looksLikeController (String.ofList (Text.lastField '.' (withoutArguments written').toList)) =
      looksLikeController (String.ofList (Text.lastField '.' (withoutArguments written).toList))

/-- The classes of two models are related one by one, and related classes are the same to ancestry
and discovery. -/
structure Matches (related : Class → Class → Prop) (m n : Model) : Prop where
  classes : List.Forall₂ related m.classes n.classes
  beq_qualifiedName : ∀ {c c' d d'}, related c d → related c' d' →
    (d.qualifiedName == d'.qualifiedName) = (c.qualifiedName == c'.qualifiedName)
  base? : ∀ {c d}, related c d → Option.Rel (MatchesBase related m n c d) c.base? d.base?
  looksLike : ∀ {c d}, related c d → c.LooksLike d

namespace Matches

variable {related : Class → Class → Prop} {m n : Model} {c d : Class}

theorem baseOf? (h : Matches related m n) (hclass : related c d) :
    Option.Rel related (m.baseOf? c) (n.baseOf? d) := by
  have hbase := h.base? hclass
  rw [Model.baseOf?, Model.baseOf?]
  generalize c.base? = written, d.base? = written' at hbase ⊢
  cases hbase with
  | none => exact .none
  | some hwritten =>
      refine rel_findSome? hwritten.candidates fun name name' hfound => ?_
      generalize m.find? name = found, n.find? name' = found' at hfound ⊢
      cases hfound with
      | none => exact .none
      | some hfound =>
          rw [Option.filter_some, Option.filter_some, bne, bne, h.beq_qualifiedName hfound hclass]
          split
          · exact .some hfound
          · exact .none

theorem climb (h : Matches related m n) (hclass : related c d) {above before : List Class}
    (habove : List.Forall₂ related above before) (fuel : Nat) :
    (m.climb c above fuel).Matches related (n.climb d before fuel) := by
  induction fuel generalizing c d above before with
  | zero => exact ⟨List.rel_reverse (.cons hclass habove), rfl, rfl⟩
  | succ fuel ih =>
      have hchain := List.rel_reverse (.cons hclass habove)
      have hbase := h.base? hclass
      have hbaseOf := h.baseOf? hclass
      rw [Model.climb, Model.climb]
      generalize c.base? = written, d.base? = written' at hbase ⊢
      cases hbase with
      | none => exact ⟨hchain, rfl, rfl⟩
      | some hwritten =>
          generalize m.baseOf? c = base, n.baseOf? d = base' at hbaseOf ⊢
          cases hbaseOf with
          | none => exact ⟨hchain, congrArg some hwritten.external, rfl⟩
          | @some base base' hbase =>
              have hmet : (d :: before).any (·.qualifiedName == base'.qualifiedName) =
                  (c :: above).any (·.qualifiedName == base.qualifiedName) :=
                any_eq_of_forall₂ (.cons hclass habove) fun _ _ hother =>
                  h.beq_qualifiedName hother hbase
              simp only [hmet]
              split
              · exact ⟨hchain, rfl, rfl⟩
              · exact ih hbase (.cons hclass habove)

theorem ancestry (h : Matches related m n) (hclass : related c d) :
    (m.ancestry c).Matches related (n.ancestry d) := by
  rw [Model.ancestry, Model.ancestry, ← h.classes.length_eq]
  exact h.climb hclass .nil _

theorem isCandidate_eq (h : Matches related m n) (hclass : related c d) :
    n.isCandidate d = m.isCandidate c := by
  have hancestry := h.ancestry hclass
  have hlooks := h.looksLike hclass
  have hbases : ((n.ancestry d).chain.drop 1).any (looksLikeController ·.name) =
      ((m.ancestry c).chain.drop 1).any (looksLikeController ·.name) :=
    any_eq_of_forall₂ (List.forall₂_drop 1 hancestry.chain)
      fun _ _ hbase => (h.looksLike hbase).name
  simp only [isCandidate, hbases, hlooks.isNested, hancestry.external, hlooks.endsWith_name,
    hlooks.hasAttribute]

theorem discover_eq (h : Matches related m n) (hclass : related c d) :
    n.discover d = m.discover c := by
  have hlooks := h.looksLike hclass
  simp only [discover, h.isCandidate_eq hclass, hlooks.isPublic, hlooks.isStatic, hlooks.isSealed,
    hlooks.isGeneric, hlooks.hasError, hlooks.hasAttribute, (h.ancestry hclass).isCyclic]

theorem controllers (h : Matches related m n) :
    List.Forall₂ related m.controllers n.controllers := by
  refine List.rel_filter (fun c d hclass => ?_) h.classes
  simp only [h.discover_eq hclass]

end Matches

end Model

end RouteLinks
