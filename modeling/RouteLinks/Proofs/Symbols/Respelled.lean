import RouteLinks.Proofs.Grouping
import RouteLinks.Proofs.Symbols.Matching
import RouteLinks.Proofs.Symbols.Spelling
import RouteLinks.Routes.Controller
/-!
# The model of respelled sources

A program may be written again with other marks of verbatim identifiers. What a reader finds is then
the same program in another spelling: each class, namespace and method has the name that the
spelling gives it wherever it is named. The marks of a parameter are nobody else's concern, so they
may differ from one declaration to the next. Attributes and modifiers are as they were.

Putting declarations together, looking up bases and discovery compare names, or look at their
endings, and do so in any spelling alike. So the classes are the same, and the same of them are
controllers.
-/

namespace RouteLinks

variable {s : Spelling}

/-! ### Parameters -/

structure Parameter.Respelled (s : Spelling) (p q : Parameter) : Prop where
  name : q.name = p.name ∨
    (p.name.toList.head? ≠ some '@' ∧ p.name ≠ "__arglist" ∧ q.name = "@" ++ p.name)
  type : singleSpaced (q.type.getD "") = s.typeText (singleSpaced (p.type.getD ""))
  hasType : q.type?.isSome = p.type?.isSome
  isPointer : (q.type.getD "").toList.contains '*' = (p.type.getD "").toList.contains '*'
  modifiers : q.modifiers = p.modifiers

namespace Parameter

/-- Whether there is an obstacle, without the texts that it is reported with. -/
theorem isSome_obstacle? (p : Parameter) :
    p.obstacle?.isSome = (p.type?.isNone || p.name == "__arglist" ||
      (p.type.getD "").toList.contains '*' ||
        (referenceModifiers.find? p.modifiers.contains).isSome || isIdentityKey p.routeKey) := by
  cases htype : p.type? with
  | none => simp [obstacle?, htype]
  | some type =>
      have hwritten : p.type.getD "" = type := by
        rw [(Option.filter_eq_some_iff.mp htype).1, Option.getD_some]
      rw [hwritten]
      simp only [obstacle?, htype]
      split
      · next hname => simp [hname]
      · next hname =>
        split
        · next hpointer => simp only [hpointer, Option.isSome_some, Bool.or_true, Bool.true_or]
        · next hpointer =>
          rw [Bool.not_eq_true] at hname hpointer
          rw [hname, hpointer]
          cases referenceModifiers.find? p.modifiers.contains with
          | some modifier => simp
          | none => cases hkey : isIdentityKey p.routeKey <;> simp

namespace Respelled

variable {p q : Parameter}

theorem routeKey_eq (h : p.Respelled s q) : q.routeKey = p.routeKey := by
  rcases h.name with hsame | ⟨hplain, -, hmarked⟩
  · rw [routeKey, routeKey, hsame]
  · have hkey : p.routeKey = p.name := by
      unfold routeKey
      split
      · next rest hname => simp [hname] at hplain
      · rfl
    rw [hkey, routeKey, hmarked]
    simp

theorem isSome_obstacle?_eq (h : p.Respelled s q) :
    q.obstacle?.isSome = p.obstacle?.isSome := by
  have hname : (q.name == "__arglist") = (p.name == "__arglist") := by
    rcases h.name with hsame | ⟨-, hother, hmarked⟩
    · rw [hsame]
    · have hdiffer : "@" ++ p.name ≠ "__arglist" := by
        intro h
        have hfirst := congrArg (fun name => name.toList.head?) h
        simp at hfirst
      rw [hmarked, beq_false_of_ne hdiffer, beq_false_of_ne hother]
  have htype : q.type?.isNone = p.type?.isNone := by
    rw [← Option.not_isSome, ← Option.not_isSome, h.hasType]
  rw [isSome_obstacle?, isSome_obstacle?, hname, htype, h.isPointer, h.modifiers, h.routeKey_eq]

end Respelled

end Parameter

/-! ### Methods -/

namespace Spelling

/-- How a signature is written. -/
def signature (s : Spelling) (x : Signature) : Signature :=
  ⟨s.method x.name, x.types.map s.typeText⟩

theorem signature_injective (s : Spelling) : Function.Injective s.signature := by
  rintro ⟨name, types⟩ ⟨name', types'⟩ hsame
  obtain ⟨hname, htypes⟩ := Signature.mk.inj hsame
  exact congrArg₂ Signature.mk (verbatim_injective s.marksMethod hname)
    (s.injective_typeText.list_map htypes)

end Spelling

structure Method.Respelled (s : Spelling) (x y : Method) : Prop where
  name : y.name = s.method x.name
  containingClass : y.containingClass = s.name x.containingClass
  modifiers : y.modifiers = x.modifiers
  attributes : y.attributes = x.attributes
  isGeneric : y.isGeneric = x.isGeneric
  parameters : List.Forall₂ (Parameter.Respelled s) x.parameters y.parameters
  hasShape : (ResultShape.ofType? y.returnType).isSome = (ResultShape.ofType? x.returnType).isSome

namespace Method.Respelled

variable {x y : Method}

theorem signature_eq (h : x.Respelled s y) : y.signature = s.signature x.signature := by
  simp only [Method.signature, Spelling.signature, h.name, List.map_map]
  rw [map_eq_of_forall₂ h.parameters fun _ _ hparameter => hparameter.type]
  rfl

theorem isEmpty_problems_eq (h : x.Respelled s y) : y.problems.isEmpty = x.problems.isEmpty := by
  have hall : ∀ m : Method, m.problems.isEmpty = !m.parameters.any (·.obstacle?.isSome) := by
    intro m
    rw [Bool.eq_iff_iff]
    simp [Method.problems]
  rw [hall, hall, any_eq_of_forall₂ h.parameters fun _ _ hparameter =>
    hparameter.isSome_obstacle?_eq]

end Method.Respelled

/-! ### Declarations -/

structure BaseRespelled (s : Spelling) (b c : String) : Prop where
  isEmpty : c.isEmpty = b.isEmpty
  withoutArguments : withoutArguments c = s.name (withoutArguments b)

structure ClassHead.Respelled (s : Spelling) (h k : ClassHead) : Prop where
  modifiers : k.modifiers = h.modifiers
  attributes : k.attributes = h.attributes
  base : Option.Rel (BaseRespelled s) h.base k.base
  isGeneric : k.typeParameters.isEmpty = h.typeParameters.isEmpty
  usings : k.usings = h.usings.map s.name
  hasError : k.hasError = h.hasError

structure MethodHead.Respelled (s : Spelling) (h k : MethodHead) : Prop where
  modifiers : k.modifiers = h.modifiers
  attributes : k.attributes = h.attributes
  isGeneric : k.typeParameters.isEmpty = h.typeParameters.isEmpty
  parameters : List.Forall₂ (Parameter.Respelled s) h.parameters k.parameters
  hasShape : (ResultShape.ofType? k.returnType).isSome = (ResultShape.ofType? h.returnType).isSome

/-- What a declaration is named and says, in another spelling. Constructors are not asked for their
names. -/
def SourceUnit.NamedRespelled (s : Spelling) (u v : SourceUnit) : Prop :=
  match u.head, v.head with
  | .ofClass h, .ofClass k =>
    h.Respelled s k ∧ v.name = s.name u.name ∧ v.qualifiedName = s.name u.qualifiedName
  | .ofMethod h, .ofMethod k => h.Respelled s k ∧ v.name = s.method u.name
  | .ofConstructor _, .ofConstructor _ => True
  | _, _ => False

structure SourceUnit.Respelled (s : Spelling) (u v : SourceUnit) : Prop where
  named : u.NamedRespelled s v
  scope : v.scope = s.name u.scope
  owner : v.owner = u.owner.map s.name
  imports : v.imports = u.imports.map s.name

def SourceFile.Respelled (s : Spelling) (f g : SourceFile) : Prop :=
  List.Forall₂ (SourceUnit.Respelled s) f.units g.units

/-! ### Classes -/

structure Class.Respelled (s : Spelling) (c d : Class) : Prop where
  name : d.name = s.name c.name
  scope : d.scope = s.name c.scope
  modifiers : d.modifiers = c.modifiers
  attributes : d.attributes = c.attributes
  base : Option.Rel (BaseRespelled s) c.base d.base
  isGeneric : d.isGeneric = c.isGeneric
  usings : d.usings = c.usings.map s.name
  methods : List.Forall₂ (Method.Respelled s) c.methods d.methods
  isNested : d.isNested = c.isNested
  hasError : d.hasError = c.hasError

def Model.Respelled (s : Spelling) (m n : Model) : Prop :=
  List.Forall₂ (Class.Respelled s) m.classes n.classes

namespace Class.Respelled

variable {c d c' d' : Class}

theorem qualifiedName_eq (h : c.Respelled s d) : d.qualifiedName = s.name c.qualifiedName := by
  rw [Class.qualifiedName, Class.qualifiedName, h.name, h.scope, s.name_qualify]

theorem beq_qualifiedName (h : c.Respelled s d) (h' : c'.Respelled s d') :
    (d.qualifiedName == d'.qualifiedName) = (c.qualifiedName == c'.qualifiedName) := by
  rw [h.qualifiedName_eq, h'.qualifiedName_eq, s.name_beq]

theorem hasAttribute_eq (h : c.Respelled s d) (name : String) :
    d.hasAttribute name = c.hasAttribute name := by
  rw [Class.hasAttribute, Class.hasAttribute, h.attributes]

theorem base? (h : c.Respelled s d) : Option.Rel (BaseRespelled s) c.base? d.base? := by
  have hbase := h.base
  rw [Class.base?, Class.base?]
  generalize c.base = base, d.base = base' at hbase ⊢
  cases hbase with
  | none => exact .none
  | some hwritten =>
      rw [Option.filter_some, Option.filter_some, hwritten.isEmpty]
      split
      · exact .some hwritten
      · exact .none

theorem merge (h : c.Respelled s d) (h' : c'.Respelled s d') :
    (c.merge c').Respelled s (d.merge d') := by
  have hbase? : d.base?.isSome = c.base?.isSome := by
    have hrel := h.base?
    generalize c.base? = base, d.base? = base' at hrel ⊢
    cases hrel <;> rfl
  refine
    { name := h.name, scope := h.scope, isGeneric := h.isGeneric, isNested := h.isNested
      modifiers := ?_, attributes := ?_, base := ?_, usings := ?_
      methods := List.rel_append h.methods h'.methods, hasError := ?_ }
  · simp only [Class.merge, h.modifiers, h'.modifiers]
  · simp only [Class.merge, h.attributes, h'.attributes]
  · simp only [Class.merge, hbase?]
    split
    · exact h.base
    · exact h'.base
  · simp only [Class.merge, h.usings, h'.usings]
    exact mergeUnique_map s.name_injective _ _
  · simp only [Class.merge, h.hasError, h'.hasError]

end Class.Respelled

namespace SourceUnit.Respelled

variable {u v : SourceUnit} {units units' : List SourceUnit}

theorem ownerName?_eq (h : u.Respelled s v) : v.ownerName? = u.ownerName?.map s.name := by
  rw [ownerName?, ownerName?, h.owner, h.scope, Option.map_map, Option.map_map]
  congr 1
  funext owner
  exact (s.name_qualify u.scope owner).symm

theorem method? (h : u.Respelled s v) :
    Option.Rel (Method.Respelled s) u.method? v.method? := by
  have hnamed := h.named
  rw [SourceUnit.method?, SourceUnit.method?, h.ownerName?_eq]
  unfold NamedRespelled at hnamed
  generalize u.head = head, v.head = head' at hnamed ⊢
  cases head with
  | ofClass => cases head' <;> first | exact .none | exact hnamed.elim
  | ofConstructor => cases head' <;> first | exact .none | exact hnamed.elim
  | ofMethod head =>
      cases head' with
      | ofClass | ofConstructor => exact hnamed.elim
      | ofMethod head' =>
          obtain ⟨hhead, hname⟩ := hnamed
          cases u.ownerName? with
          | none => exact .none
          | some owner =>
              have hgeneric := hhead.isGeneric
              exact .some
                { name := hname, containingClass := rfl, modifiers := hhead.modifiers
                  attributes := hhead.attributes, isGeneric := congrArg not hgeneric
                  parameters := hhead.parameters, hasShape := hhead.hasShape }

theorem class? (hunits : List.Forall₂ (SourceUnit.Respelled s) units units')
    (h : u.Respelled s v) :
    Option.Rel (Class.Respelled s) (u.class? units) (v.class? units') := by
  have hnamed := h.named
  have hmethods := List.rel_filterMap (fun _ _ hunit => SourceUnit.Respelled.method? hunit) hunits
  rw [SourceUnit.class?, SourceUnit.class?]
  unfold NamedRespelled at hnamed
  cases hu : u.head with
  | ofMethod =>
      cases hv : v.head <;> first | exact .none | (rw [hu, hv] at hnamed; exact hnamed.elim)
  | ofConstructor =>
      cases hv : v.head <;> first | exact .none | (rw [hu, hv] at hnamed; exact hnamed.elim)
  | ofClass head =>
      cases hv : v.head with
      | ofMethod | ofConstructor => rw [hu, hv] at hnamed; exact hnamed.elim
      | ofClass head' =>
          rw [hu, hv] at hnamed
          obtain ⟨hhead, hname, hqualified⟩ := hnamed
          have howner : v.owner.getD "" = s.name (u.owner.getD "") := by
            rw [h.owner]
            cases u.owner with
            | none => exact s.name_empty.symm
            | some owner => rfl
          refine .some
            { name := ?_, scope := h.scope, modifiers := hhead.modifiers
              attributes := hhead.attributes, base := hhead.base
              isGeneric := congrArg not hhead.isGeneric, usings := ?_, methods := ?_
              isNested := ?_, hasError := hhead.hasError }
          · simp only [howner, hname, s.name_qualify]
          · simp only [h.imports, hhead.usings]
            exact mergeUnique_map s.name_injective _ _
          · refine List.rel_filter ?_ hmethods
            intro x y hmethod
            simp only [hmethod.containingClass, hqualified, s.name_beq]
          · rw [h.owner, Option.isSome_map]

end SourceUnit.Respelled

namespace Model

theorem respelled_addClass {c d : Class} (hclass : c.Respelled s d) {classes classes' : List Class}
    (h : List.Forall₂ (Class.Respelled s) classes classes') :
    List.Forall₂ (Class.Respelled s) (addClass c classes) (addClass d classes') := by
  induction h with
  | nil => exact .cons hclass .nil
  | cons hfirst hrest ih =>
      rw [addClass, addClass, hfirst.beq_qualifiedName hclass]
      split
      · exact .cons (hfirst.merge hclass) hrest
      · exact .cons hfirst ih

theorem respelled_addFile {f g : SourceFile} (hfile : f.Respelled s g)
    {classes classes' : List Class} (h : List.Forall₂ (Class.Respelled s) classes classes') :
    List.Forall₂ (Class.Respelled s) (addFile classes f) (addFile classes' g) := by
  have hdeclared := List.rel_filterMap
    (fun _ _ hunit => SourceUnit.Respelled.class? hfile hunit) hfile
  refine List.rel_foldl ?_ h hdeclared
  exact fun _ _ hclasses _ _ hclass => respelled_addClass hclass hclasses

/-- Files in another spelling give the model in that spelling. -/
theorem respelled_ofFiles {files files' : List SourceFile}
    (h : List.Forall₂ (SourceFile.Respelled s) files files') :
    (ofFiles files).Respelled s (ofFiles files') := by
  refine List.rel_foldl ?_ .nil h
  exact fun _ _ hclasses _ _ hfile => respelled_addFile hfile hclasses

end Model

/-! ### Ancestry -/

theorem beginnings_map {α β : Type} (f : α → β) (xs : List α) :
    beginnings (xs.map f) = (beginnings xs).map (List.map f) := by
  simp [beginnings, List.map_take]

theorem Class.Respelled.candidates_eq {c d : Class} (h : c.Respelled s d) (name : String) :
    d.candidates (s.name name) = (c.candidates name).map s.name := by
  have hparts : (if d.scope.isEmpty then [] else splitAt '.' d.scope) =
      (if c.scope.isEmpty then [] else splitAt '.' c.scope).map s.identifier := by
    rw [h.scope, s.isEmpty_name, s.splitAt_name]
    split <;> rfl
  have hplain : ∀ part ∈ (if c.scope.isEmpty then [] else splitAt '.' c.scope),
      '.' ∉ part.toList := by
    split
    · simp
    · exact fun part => not_mem_of_mem_splitAt
  simp only [Class.candidates, hparts, List.map_append, h.usings, List.map_map, beginnings_map]
  congr 1
  · apply List.map_congr_left
    intro front hfront
    have hdots : ∀ part ∈ front, '.' ∉ part.toList := by
      obtain ⟨n, -, rfl⟩ := List.mem_map.mp hfront
      exact fun part hpart => hplain part (List.mem_of_mem_take hpart)
    simp only [Function.comp_apply, s.name_qualify, s.name_intercalate hdots]
  · apply List.map_congr_left
    intro space _
    exact (s.name_append_dot space name).symm

theorem Class.Respelled.looksLike {c d : Class} (h : c.Respelled s d) : c.LooksLike d where
  endsWith_name := by rw [h.name, s.endsWith_name]
  name := by rw [h.name, s.looksLikeController_name]
  isNested := h.isNested
  hasAttribute := h.hasAttribute_eq
  isPublic := congrArg (·.contains "public") h.modifiers
  isStatic := congrArg (·.contains "static") h.modifiers
  isSealed := congrArg (·.contains "sealed") h.modifiers
  isGeneric := h.isGeneric
  hasError := h.hasError

namespace Model.Respelled

variable {m n : Model}

theorem find? (h : m.Respelled s n) (name : String) :
    Option.Rel (Class.Respelled s) (m.find? name) (n.find? (s.name name)) :=
  rel_find? h fun _ _ hclass => by rw [hclass.qualifiedName_eq, s.name_beq]

/-- Ancestry and discovery work in any spelling alike. -/
theorem toMatches (h : m.Respelled s n) : Matches (Class.Respelled s) m n where
  classes := h
  beq_qualifiedName hclass hother := hclass.beq_qualifiedName hother
  looksLike := Class.Respelled.looksLike
  base? {c d} hclass := by
    have hbase := hclass.base?
    generalize c.base? = written, d.base? = written' at hbase ⊢
    cases hbase with
    | none => exact .none
    | @some written written' hwritten =>
        refine .some ⟨?_, ?_⟩
        · rw [hwritten.withoutArguments, hclass.candidates_eq, List.forall₂_map_right_iff]
          exact List.forall₂_same.mpr fun name _ => h.find? name
        · rw [hwritten.withoutArguments]
          exact s.looksLikeController_lastPart_name (RouteLinks.withoutArguments written)

end Model.Respelled

end RouteLinks
