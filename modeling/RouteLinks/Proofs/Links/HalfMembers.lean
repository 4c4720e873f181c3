import Mathlib.Data.List.Infix
import Mathlib.Data.List.Nodup
import RouteLinks.Proofs.Links.Execution
import RouteLinks.Proofs.Links.MemberNames
import RouteLinks.Proofs.Routes.Overridable
import RouteLinks.Proofs.Symbols.Sample
/-!
# What a generated half declares

Besides constructors and accessors a generated half has fields, properties, constants and classes.
Some of them have fixed names. The others have names that are made of the member name of an action
with parameters: for a member `M` there are the field `s_MParams`, the property `MParams` and the
class `ActionParamsClass_M`. They all share one space with the methods of the class, and nothing is
looked up in it before they are written.

Fixed names do not meet the names that are made. Of the names that are made of two members, a
property may meet each of the other's three, but a field and a class never meet, as one begins with
a small letter and the other with a capital one.
-/

namespace RouteLinks

/-! ### Names that are made of a member name -/

theorem bareName_append (name : String) {ending : String} (hending : bareName ending = ending) :
    bareName (name ++ ending) = bareName name ++ ending := by
  unfold bareName at hending ⊢
  rw [String.toList_append]
  rcases hchars : name.toList with _ | ⟨c, rest⟩
  · obtain rfl : name = "" := String.toList_inj.mp hchars
    simpa using hending
  · by_cases hmark : c = '@'
    · subst hmark
      simp
    · simp [hmark]

theorem length_bareName_le (name : String) : (bareName name).length ≤ name.length := by
  unfold bareName
  split
  · next rest hchars =>
    rw [← String.length_toList, ← String.length_toList, hchars]
    simp
  · exact Nat.le_refl _

/-- Where a beginning and an ending cannot overlap, a text that has both has them one after the
other. -/
theorem append_eq_append_iff_of_apart {front back a b : String}
    (hapart : ∀ overlap ∈ front.toList.tails, overlap <+: back.toList → overlap = []) :
    a ++ back = front ++ b ↔ ∃ x, a = front ++ x ∧ b = x ++ back := by
  constructor
  · intro hsame
    have hchars : a.toList ++ back.toList = front.toList ++ b.toList := by
      simpa using congrArg String.toList hsame
    obtain ⟨x, hfront, hback⟩ :
        ∃ x, a.toList = front.toList ++ x ∧ b.toList = x ++ back.toList := by
      rcases List.append_eq_append_iff.mp hchars with ⟨overlap, hfront, hback⟩ | hsplit
      · obtain rfl : overlap = [] :=
          hapart overlap ((List.mem_tails _ _).mpr ⟨_, hfront.symm⟩) ⟨_, hback.symm⟩
        exact ⟨[], by simpa using hfront.symm, by simpa using hback.symm⟩
      · exact hsplit
    exact ⟨.ofList x, String.toList_inj.mp (by simpa using hfront),
      String.toList_inj.mp (by simpa using hback)⟩
  · rintro ⟨x, rfl, rfl⟩
    exact String.append_assoc

/-- What is declared for the parameters of a member, by the names that the compiler compares. -/
def namesFor (member : String) : List String :=
  ["s_" ++ (member ++ "Params"), bareName member ++ "Params", "ActionParamsClass_" ++ member]

/-- The property for one member has the name of something that is declared for another one. -/
inductive Clashes (member other : String) : Prop
  /-- The members differ by the mark of a verbatim identifier. -/
  | property (h : bareName member = bareName other)
  | field (h : bareName member = "s_" ++ other)
  | parameterClass (x : String) (hmember : bareName member = "ActionParamsClass_" ++ x)
      (hother : other = x ++ "Params")

variable {member other : String}

/-- The ending of a property has nothing in common with the end of the beginning of a class. -/
theorem clashes_iff : Clashes member other ↔ bareName member ++ "Params" ∈ namesFor other := by
  have hapart : ∀ overlap ∈ "ActionParamsClass_".toList.tails,
      overlap <+: "Params".toList → overlap = [] := by decide
  rw [namesFor, List.mem_cons, List.mem_cons, List.mem_singleton, ← String.append_assoc,
    String.append_left_inj, String.append_left_inj, append_eq_append_iff_of_apart hapart]
  constructor
  · rintro (hproperty | hfield | ⟨x, hmember, hother⟩)
    · exact .inr (.inl hproperty)
    · exact .inl hfield
    · exact .inr (.inr ⟨x, hmember, hother⟩)
  · rintro (hfield | hproperty | ⟨x, hmember, hother⟩)
    · exact .field hfield
    · exact .property hproperty
    · exact .parameterClass x hmember hother

instance (member other : String) : Decidable (Clashes member other) :=
  decidable_of_iff _ clashes_iff.symm

example : Clashes "@Index" "Index" ∧ Clashes "s_Index" "Index" ∧
    Clashes "ActionParamsClass_Index" "IndexParams" ∧ ¬ Clashes "Index" "s_Index" := by decide

theorem field_ne_parameterClass (member other : String) :
    "s_" ++ member ≠ "ActionParamsClass_" ++ other := by
  intro hsame
  have hchars := congrArg String.toList hsame
  simp at hchars

theorem nodup_namesFor (member : String) : (namesFor member).Nodup := by
  -- The property is shorter than the two others, as a bare name is no longer than the name.
  have hshorter := length_bareName_le member
  have hfield : "s_" ++ (member ++ "Params") ≠ bareName member ++ "Params" := by
    intro hsame
    have hlength := congrArg String.length hsame
    simp only [String.length_append] at hlength
    have : "s_".length = 2 := rfl
    omega
  have hclass : bareName member ++ "Params" ≠ "ActionParamsClass_" ++ member := by
    intro hsame
    have hlength := congrArg String.length hsame
    simp only [String.length_append] at hlength
    have : "Params".length = 6 := rfl
    have : "ActionParamsClass_".length = 18 := rfl
    omega
  simp [namesFor, hfield, hclass, field_ne_parameterClass]

/-- Names that are made of two members meet only in a property of one of them. -/
theorem disjoint_namesFor_iff (hne : member ≠ other) :
    (namesFor member).Disjoint (namesFor other) ↔
      ¬ Clashes member other ∧ ¬ Clashes other member := by
  have hfields : "s_" ++ (member ++ "Params") ≠ "s_" ++ (other ++ "Params") := by
    rwa [Ne, String.append_right_inj, String.append_left_inj]
  have hclasses : "ActionParamsClass_" ++ member ≠ "ActionParamsClass_" ++ other := by
    rwa [Ne, String.append_right_inj]
  simp only [clashes_iff]
  constructor
  · intro hdisjoint
    refine ⟨fun hmem => hdisjoint ?_ hmem, fun hmem => hdisjoint hmem ?_⟩ <;> simp [namesFor]
  · rintro ⟨hproperty, hother⟩ name hname hmem
    simp only [namesFor, List.mem_cons, List.not_mem_nil, or_false] at hname
    -- What a field or a class of one member meets of the other can only be the property.
    rcases hname with rfl | rfl | rfl
    · simp only [namesFor, List.mem_cons, List.not_mem_nil, or_false, hfields,
        field_ne_parameterClass, false_or] at hmem
      exact hother (hmem ▸ List.mem_cons_self)
    · exact hproperty hmem
    · simp only [namesFor, List.mem_cons, List.not_mem_nil, or_false, hclasses,
        (field_ne_parameterClass _ _).symm, false_or] at hmem
      exact hother (by simp [namesFor, hmem])

/-- Different members are told apart by all that is declared for them if no two of them clash. -/
theorem nodup_flatMap_namesFor_iff {members : List String} (hnodup : members.Nodup) :
    (members.flatMap namesFor).Nodup ↔
      ∀ member ∈ members, ∀ other ∈ members, member ≠ other → ¬ Clashes member other := by
  rw [List.nodup_flatMap]
  constructor
  · rintro ⟨-, hpairs⟩ member hmember other hother hne
    have : Std.Symm (Function.onFun List.Disjoint namesFor) := ⟨fun _ _ => List.disjoint_symm⟩
    have hdisjoint := hpairs.forall hmember hother hne
    exact ((disjoint_namesFor_iff hne).mp hdisjoint).1
  · intro hnone
    refine ⟨fun member _ => nodup_namesFor member, hnodup.pairwise_of_forall_ne ?_⟩
    intro member hmember other hother hne
    exact (disjoint_namesFor_iff hne).mpr
      ⟨hnone member hmember other hother hne, hnone other hother member hmember hne.symm⟩

/-! ### The members of a half -/

def Node.members : Node → List Node
  | .type _ _ _ _ members => members
  | _ => []

/-- A member of a generated half that is neither a constructor nor an accessor. -/
inductive HalfMember where
  /-- A field, a constant or a property. -/
  | single (head name definition : String)
  /-- A field with a property that gives it out. -/
  | shared (className name : String)
  | constantsClass (name keyword : String) (constants : List (String × String))

namespace HalfMember

def node : HalfMember → Node
  | .single head name definition =>
    Controller.marked (head ++ " " ++ name ++ " " ++ definition ++ ";")
  | .shared className name => Controller.sharedInstance className name
  | .constantsClass name keyword constants => Controller.constantsClass name keyword constants

theorem node_ne_method (member : HalfMember) (signature : String) (body attributes : List String) :
    member.node ≠ .method signature body attributes := by
  cases member <;> nofun

def names : HalfMember → List String
  | .single _ name _ => [name]
  | .shared _ name => ["s_" ++ name, name]
  | .constantsClass name _ _ => [name]

end HalfMember

namespace Controller

def halfMembersFor (a : Action) : List HalfMember :=
  if a.parameters.isEmpty then []
  else
    [.shared a.parameterClass a.parameterAccessor,
      .constantsClass a.parameterClass "readonly" (a.parameters.map fun p => (p.name, p.routeKey))]

/-- The members of the generated half of a controller besides constructors and accessors. -/
def halfMembers (c : Controller) (s : Settings) (field : Option String) : List HalfMember :=
  (field.map fun name =>
      .single ("public " ++ c.className) "Actions"
        ("=> " ++ s.namingPrefix ++ "." ++ name)).toList ++
    ([.single "public readonly string" "Area" ("= " ++ Quoted.regular c.area),
        .single "public readonly string" "Name" ("= " ++ Quoted.regular c.name),
        .single "public const string" "NameConst" ("= " ++ Quoted.regular c.name)] ++
      ([.shared "ActionNamesClass" actionNamesMember,
          .constantsClass "ActionNamesClass" "readonly" c.actionNames,
          .constantsClass "ActionNameConstants" "const" c.actionNames] ++
        c.actions.flatMap halfMembersFor))

variable {c : Controller}

theorem map_node_halfMembersFor (a : Action) :
    (halfMembersFor a).map HalfMember.node = parameterMembers a := by
  rw [halfMembersFor, parameterMembers_eq]
  split <;> rfl

theorem members_generatedHalf (c : Controller) (s : Settings) (field : Option String) :
    (c.generatedHalf s field).members =
      c.constructors ++
        (c.accessorActions.map accessor ++ (c.halfMembers s field).map HalfMember.node) := by
  have hregistry : c.registryAccessor s field =
      (field.map fun name => HalfMember.single ("public " ++ c.className) "Actions"
        ("=> " ++ s.namingPrefix ++ "." ++ name)).toList.map HalfMember.node := by
    cases field with
    | none => rfl
    | some name =>
        have hjoined : " Actions => " = " " ++ "Actions" ++ " " ++ "=> " := rfl
        simp only [registryAccessor, HalfMember.node, Option.map_some, Option.toList_some,
          List.map_cons, List.map_nil, hjoined, String.append_assoc]
  have hsingle (head name sign value : String) :
      (HalfMember.single head name (sign ++ value)).node =
        marked (head ++ " " ++ name ++ " " ++ sign ++ value ++ ";") := by
    simp only [HalfMember.node, String.append_assoc]
  have hidentity : c.identityMembers =
      [.single "public readonly string" "Area" ("= " ++ Quoted.regular c.area),
        .single "public readonly string" "Name" ("= " ++ Quoted.regular c.name),
        .single "public const string" "NameConst"
          ("= " ++ Quoted.regular c.name)].map HalfMember.node := by
    simp only [List.map_cons, List.map_nil, hsingle]
    rfl
  simp only [generatedHalf, Node.members, List.append_assoc]
  rw [halfMembers, List.map_append, List.map_append, List.map_append, List.map_flatMap, hregistry,
    hidentity, funext map_node_halfMembersFor]
  rfl

def declaredNames (c : Controller) (s : Settings) (field : Option String) : List String :=
  (c.halfMembers s field).flatMap HalfMember.names

def methodNames (c : Controller) : List String :=
  c.symbol.methods.map (·.name) ++ c.actions.map Action.name

def fixedNames (field : Option String) : List String :=
  (field.map fun _ => "Actions").toList ++
    ["Area", "Name", "NameConst", "s_ActionNames", "ActionNames", "ActionNamesClass",
      "ActionNameConstants"]

def parameterized (c : Controller) : List String :=
  (c.actions.filter (!·.parameters.isEmpty)).map Action.memberName

theorem map_bareName_halfMembersFor (a : Action) :
    ((halfMembersFor a).flatMap HalfMember.names).map bareName =
      if a.parameters.isEmpty then [] else namesFor a.memberName := by
  have hfield : bareName ("s_" ++ (a.memberName ++ "Params")) =
      "s_" ++ (a.memberName ++ "Params") := by
    simp [bareName]
  have hproperty : bareName (a.memberName ++ "Params") = bareName a.memberName ++ "Params" :=
    bareName_append _ (by decide)
  have hclass : bareName ("ActionParamsClass_" ++ a.memberName) =
      "ActionParamsClass_" ++ a.memberName := by
    simp [bareName]
  rw [halfMembersFor, namesFor, ← hfield, ← hproperty, ← hclass]
  cases a.parameters.isEmpty <;> rfl

theorem map_bareName_declaredNames (c : Controller) (s : Settings) (field : Option String) :
    (c.declaredNames s field).map bareName =
      fixedNames field ++ c.parameterized.flatMap namesFor := by
  have hmade : (c.actions.flatMap fun a =>
      ((halfMembersFor a).flatMap HalfMember.names).map bareName) =
        c.parameterized.flatMap namesFor := by
    simp only [map_bareName_halfMembersFor, parameterized]
    induction c.actions with
    | nil => rfl
    | cons a rest ih =>
        rw [List.flatMap_cons, ih, List.filter_cons]
        cases a.parameters.isEmpty <;> rfl
  have hfixed : fixedNames field = ((field.map fun _ => "Actions").toList ++
      (["Area", "Name", "NameConst"] ++ ["s_ActionNames", "ActionNames", "ActionNamesClass",
        "ActionNameConstants"])).map bareName := by
    cases field <;> simp [fixedNames, bareName]
  rw [hfixed, ← hmade, ← List.map_flatMap, ← List.flatMap_assoc, ← List.map_append, declaredNames,
    halfMembers]
  cases field <;> rfl

/-! ### Clashes -/

/-- A half adds no member that clashes: all that it declares besides constructors and accessors has
names of its own, which no method of the controller has. -/
structure AddsNoClash (c : Controller) (s : Settings) (field : Option String) : Prop where
  distinct : ((c.declaredNames s field).map bareName).Nodup
  apart : ∀ name ∈ c.declaredNames s field, ∀ x ∈ c.methodNames, bareName x ≠ bareName name

theorem nodup_fixedNames (field : Option String) : (fixedNames field).Nodup := by
  cases field <;> simp [fixedNames]

theorem disjoint_fixedNames (field : Option String) (member : String) :
    (fixedNames field).Disjoint (namesFor member) := by
  have hshapes : ∀ name ∈ fixedNames (some ""),
      ¬ "Params".toList <:+ name.toList ∧ ¬ "ActionParamsClass_".toList <+: name.toList := by decide
  have hfixed : fixedNames field ⊆ fixedNames (some "") := by
    cases field <;> simp [fixedNames]
  intro name hname hmade
  obtain ⟨hending, hbeginning⟩ := hshapes name (hfixed hname)
  simp only [namesFor, List.mem_cons, List.not_mem_nil, or_false] at hmade
  rcases hmade with rfl | rfl | rfl
  · rw [← String.append_assoc, String.toList_append] at hending
    exact hending (List.suffix_append _ _)
  · rw [String.toList_append] at hending
    exact hending (List.suffix_append _ _)
  · rw [String.toList_append] at hbeginning
    exact hbeginning (List.prefix_append _ _)

/-- Names of one half are different if no two members with parameters clash. -/
theorem nodup_declaredNames_iff {m : Model} (hc : c ∈ all m) (s : Settings)
    (field : Option String) :
    ((c.declaredNames s field).map bareName).Nodup ↔
      ∀ member ∈ c.parameterized, ∀ other ∈ c.parameterized,
        member ≠ other → ¬ Clashes member other := by
  obtain ⟨symbol, -, rfl⟩ := mem_all.mp hc
  have hmembers : (ofClass m (runOf m) symbol).parameterized.Nodup :=
    (nodup_memberNames_ofClass m (runOf m) symbol).sublist (List.filter_sublist.map _)
  rw [map_bareName_declaredNames, List.nodup_append', nodup_flatMap_namesFor_iff hmembers]
  have hapart : (fixedNames field).Disjoint
      ((ofClass m (runOf m) symbol).parameterized.flatMap namesFor) := by
    intro name hname hmade
    obtain ⟨member, -, hmember⟩ := List.mem_flatMap.mp hmade
    exact disjoint_fixedNames field member hname hmember
  simp only [nodup_fixedNames field, hapart, true_and, and_true]

/-- The half of a controller consists of its constructors, its accessors and the members that
declare its names. No two of these clash, and none with a method, exactly if no method has a fixed
name or one that is made of a member with parameters, and no property for a member with parameters
has a name that is made of another one. -/
theorem addsNoClash_iff {m : Model} (hc : c ∈ all m) (s : Settings) (field : Option String) :
    (c.generatedHalf s field).members =
        c.constructors ++
          (c.accessorActions.map accessor ++ (c.halfMembers s field).map HalfMember.node) ∧
      (c.AddsNoClash s field ↔
        (∀ x ∈ c.methodNames, bareName x ∉ fixedNames field ∧
          ∀ member ∈ c.parameterized, bareName x ∉ namesFor member) ∧
        ∀ member ∈ c.parameterized, ∀ other ∈ c.parameterized,
          member ≠ other → ¬ Clashes member other) := by
  refine ⟨members_generatedHalf c s field, ?_⟩
  have hmade : ∀ x, (∀ name ∈ c.declaredNames s field, bareName x ≠ bareName name) ↔
      bareName x ∉ fixedNames field ∧ ∀ member ∈ c.parameterized, bareName x ∉ namesFor member := by
    intro x
    have hnames : (∀ name ∈ c.declaredNames s field, bareName x ≠ bareName name) ↔
        bareName x ∉ (c.declaredNames s field).map bareName := by
      simp only [List.mem_map, not_exists, not_and, ne_comm, ne_eq]
    rw [hnames, map_bareName_declaredNames, List.mem_append, List.mem_flatMap]
    simp only [not_or, not_exists, not_and]
  constructor
  · rintro ⟨hdistinct, hapart⟩
    exact ⟨fun x hx => (hmade x).mp fun name hname => hapart name hname x hx,
      (nodup_declaredNames_iff hc s field).mp hdistinct⟩
  · rintro ⟨hmethods, hmembers⟩
    exact ⟨(nodup_declaredNames_iff hc s field).mpr hmembers,
      fun name hname x hx => (hmade x).mpr (hmethods x hx) name hname⟩

/-- A file with a controller that has actions of some names with a parameter each, and an action
`Item` without one. -/
def parameterFile (names : List String) : SourceFile :=
  .home (("Item", .action) ::
    names.map fun name => (name, .action [{ name := "id", type := some "int" }]))

/-- Overloads of one name are told apart by their members. -/
theorem addsNoClash_overloads :
    ∃ c ∈ all (Model.ofFiles [parameterFile ["Item", "Index"]]),
      c.parameterized = ["Item1", "Index"] ∧ ∀ s, c.AddsNoClash s (some "Home") := by
  have hfound : ∃ c ∈ all (Model.ofFiles [parameterFile ["Item", "Index"]]),
      c.parameterized = ["Item1", "Index"] ∧
        (∀ x ∈ c.methodNames, bareName x ∉ fixedNames (some "Home") ∧
          ∀ member ∈ c.parameterized, bareName x ∉ namesFor member) ∧
        ∀ member ∈ c.parameterized, ∀ other ∈ c.parameterized,
          member ≠ other → ¬ Clashes member other := by decide
  obtain ⟨c, hc, hparameterized, hapart⟩ := hfound
  exact ⟨c, hc, hparameterized, fun s => (addsNoClash_iff hc s (some "Home")).2.mpr hapart⟩

/-- The constant `Name` of a half takes no heed of a method of that name. -/
theorem not_addsNoClash_method_name :
    ∃ c ∈ all (Model.ofFiles [parameterFile ["Name"]]), ∀ s field, ¬ c.AddsNoClash s field := by
  have hfound : ∃ c ∈ all (Model.ofFiles [parameterFile ["Name"]]), "Name" ∈ c.methodNames := by
    decide
  obtain ⟨c, hc, hmethod⟩ := hfound
  refine ⟨c, hc, fun s field hclean => hclean.apart "Name" ?_ "Name" hmethod rfl⟩
  simp [declaredNames, halfMembers, HalfMember.names]

end Controller

end RouteLinks
