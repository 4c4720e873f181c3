import RouteLinks.Proofs.Links.HalfMembers
import RouteLinks.Proofs.Symbols.Sample
/-!
# Accessors without parameters

An action that has parameters gets an accessor by which it can be named without them: a method of
the same name that takes none and is no action. Where a method without parameters of that name is
an action already, the accessor hides it, and links to it lead nowhere. What the generated half
looks at are the methods that the class itself declares, as they are written. So an accessor hides
what comes from a base, and what is written with the mark of a verbatim identifier where the other
is not; it hides nothing else.
-/

namespace RouteLinks

/-- A generated class has a method of a name that takes no parameters and is no action. -/
def Node.HasAccessor (half : Node) (name : String) : Prop :=
  ∃ body attributes, nonActionMark ∈ attributes ∧
    .method ("public virtual IActionResult " ++ name ++ "()") body attributes ∈ half.members

namespace Controller

variable {c : Controller} {name : String}

/-- Of the members of a generated half only the accessors are methods that are no actions. -/
theorem hasAccessor_generatedHalf_iff (s : Settings) (field : Option String) :
    (c.generatedHalf s field).HasAccessor name ↔ name ∈ c.accessorActions.map Action.name := by
  constructor
  · rintro ⟨body, attributes, hmark, hmember⟩
    rw [members_generatedHalf, List.mem_append, List.mem_append] at hmember
    rcases hmember with hconstructor | haccessor | hother
    · have hplain : ∀ n ∈ c.constructors,
          ∃ signature, n = .method signature [] [generatedMark] := by
        rw [constructors]
        split <;> simp
      obtain ⟨signature, hsame⟩ := hplain _ hconstructor
      rw [Node.method.injEq] at hsame
      rw [hsame.2.2] at hmark
      exact absurd hmark (by decide)
    · obtain ⟨a, ha, hsame⟩ := List.mem_map.mp haccessor
      rw [accessor, Node.method.injEq, String.append_left_inj, String.append_right_inj] at hsame
      exact hsame.1 ▸ List.mem_map_of_mem ha
    · obtain ⟨member, -, hsame⟩ := List.mem_map.mp hother
      exact absurd hsame (member.node_ne_method _ _ _)
  · intro hname
    obtain ⟨a, ha, rfl⟩ := List.mem_map.mp hname
    have hmember : accessor a ∈ (c.generatedHalf s field).members := by
      rw [members_generatedHalf]
      exact List.mem_append_right _ (List.mem_append_left _ (List.mem_map_of_mem ha))
    exact ⟨_, _, List.mem_cons_self, hmember⟩

/-- Actions are passed over if they have no parameters or their name is known already. -/
theorem mem_go_iff {bare met : List String} {actions : List Action} :
    name ∈ (accessorActions.go bare met actions).map Action.name ↔
      name ∉ bare ∧ name ∉ met ∧ ∃ a ∈ actions, a.name = name ∧ a.parameters ≠ [] := by
  induction actions generalizing met with
  | nil => simp [accessorActions.go]
  | cons first rest ih =>
      have hsplit : (∃ a ∈ first :: rest, a.name = name ∧ a.parameters ≠ []) ↔
          (first.name = name ∧ first.parameters ≠ []) ∨
            ∃ a ∈ rest, a.name = name ∧ a.parameters ≠ [] := by
        simp only [List.mem_cons, or_and_right, exists_or, exists_eq_left]
      rw [accessorActions.go, hsplit]
      split
      · next hpassed =>
        simp only [Bool.or_eq_true, List.isEmpty_iff, List.contains_iff_mem] at hpassed
        rw [ih]
        refine and_congr_right fun hbare => and_congr_right fun hmet => ?_
        refine ⟨.inr, fun h => h.resolve_left ?_⟩
        rintro ⟨rfl, hparameters⟩
        tauto
      · next htaken =>
        simp only [Bool.or_eq_true, List.isEmpty_iff, List.contains_iff_mem, not_or] at htaken
        obtain ⟨⟨hparameters, hbare⟩, hmet⟩ := htaken
        rw [List.map_cons, List.mem_cons, ih, List.mem_cons, not_or]
        by_cases hname : name = first.name
        · subst hname
          tauto
        · tauto

def bareMethods (c : Controller) : List String :=
  (c.symbol.methods.filter (·.parameters.isEmpty)).map (·.name)

theorem mem_accessorActions_iff : name ∈ c.accessorActions.map Action.name ↔
    name ∉ c.bareMethods ∧ ∃ a ∈ c.ownActions, a.name = name ∧ a.parameters ≠ [] := by
  rw [accessorActions, mem_go_iff, bareMethods]
  simp only [List.not_mem_nil, not_false_eq_true, true_and]

/-- No accessor of a generated half has the name of an action that takes no parameters. -/
def HidesNothing (c : Controller) (half : Node) : Prop :=
  ∀ name, half.HasAccessor name →
    ∀ b ∈ c.actions, b.parameters = [] → bareName b.name ≠ bareName name

/-- What an accessor would hide in any case: an action without parameters that an own action with
parameters has the name of, where the class itself declares no such method in the same spelling. -/
structure Hides (c : Controller) (a b : Action) : Prop where
  isOwn : a ∈ c.ownActions
  hasParameters : a.parameters ≠ []
  isAction : b ∈ c.actions
  noParameters : b.parameters = []
  sameName : bareName b.name = bareName a.name
  noBare : a.name ∉ c.bareMethods

theorem hidesNothing_generatedHalf_iff (s : Settings) (field : Option String) :
    c.HidesNothing (c.generatedHalf s field) ↔ ∀ a b, ¬ c.Hides a b := by
  constructor
  · intro hnothing a b h
    refine hnothing a.name ?_ b h.isAction h.noParameters h.sameName
    rw [hasAccessor_generatedHalf_iff, mem_accessorActions_iff]
    exact ⟨h.noBare, a, h.isOwn, rfl, h.hasParameters⟩
  · intro hnone name haccessor b hb hparameters hsame
    rw [hasAccessor_generatedHalf_iff, mem_accessorActions_iff] at haccessor
    obtain ⟨hbare, a, ha, rfl, hasParameters⟩ := haccessor
    exact hnone a b ⟨ha, hasParameters, hb, hparameters, hsame, hbare⟩

/-! ### The half of a controller -/

variable {files : List SourceFile}

theorem mem_methods_of_mem_ownActions (hregular : ∀ f ∈ files, f.IsRegular)
    (hc : c ∈ all (Model.ofFiles files)) {a : Action} (ha : a ∈ c.ownActions) :
    a.method ∈ c.symbol.methods := by
  obtain ⟨symbol, hsymbol, rfl⟩ := mem_all.mp hc
  obtain ⟨hmem, hown⟩ := List.mem_filter.mp ha
  have hnodup := Model.nodup_ofFiles files
  obtain ⟨d, hd, hmethod, -⟩ := exists_declaring_of_mem_actions hnodup hsymbol hmem
  have hdeclared := (Model.mem_controllers.mp hd).1
  have howner := (Model.of_mem_methods_ofFiles hregular hdeclared hmethod).1
  obtain rfl : d = symbol :=
    List.inj_on_of_nodup_map hnodup hdeclared (Model.mem_controllers.mp hsymbol).1
      (howner.symm.trans (beq_iff_eq.mp hown))
  exact hmethod

/-- No accessor hides an action of the class itself that is written as the accessor is. So nothing
is hidden exactly if, for every action without parameters that comes from a base or has another
spelling, the class itself declares a method without parameters where an accessor would be. -/
theorem hidesNothing_iff (hregular : ∀ f ∈ files, f.IsRegular) (hc : c ∈ all (Model.ofFiles files))
    (s : Settings) (field : Option String) :
    c.HidesNothing (c.generatedHalf s field) ↔
      ∀ a ∈ c.ownActions, a.parameters ≠ [] → ∀ b ∈ c.actions, b.parameters = [] →
        bareName b.name = bareName a.name →
          b.declaringClass ≠ c.qualifiedName ∨ b.name ≠ a.name → a.name ∈ c.bareMethods := by
  rw [hidesNothing_generatedHalf_iff]
  constructor
  · intro hnone a ha hparameters b hb hbare hname _
    by_contra hmissing
    exact hnone a b ⟨ha, hparameters, hb, hbare, hname, hmissing⟩
  · rintro hdeclared a b ⟨ha, hparameters, hb, hbare, hname, hmissing⟩
    have hsame : b.declaringClass = c.qualifiedName ∧ b.name = a.name := by
      by_contra hother
      exact hmissing (hdeclared a ha hparameters b hb hbare hname (not_and_or.mp hother))
    have hmethod : b.method ∈ c.symbol.methods :=
      mem_methods_of_mem_ownActions hregular hc
        (List.mem_filter.mpr ⟨hb, beq_iff_eq.mpr hsame.1⟩)
    refine hmissing (List.mem_map.mpr ⟨b.method, List.mem_filter.mpr ⟨hmethod, ?_⟩, hsame.2⟩)
    exact List.isEmpty_iff.mpr hbare

/-- A file with a controller that has an action `Index` with a parameter, and a base with one
without. -/
def overloadedFile (further : List SourceUnit) : SourceFile :=
  .sample
    ([.sampleClass "BaseController",
      .sampleMethod "BaseController" "Index" (.action [] ["virtual"]),
      .sampleClass "HomeController" (some "BaseController"),
      .sampleMethod "HomeController" "Index" (.action [{ name := "id", type := some "int" }])] ++
        further)

def exemptOverride : SourceUnit :=
  .sampleMethod "HomeController" "Index"
    { MethodHead.action [] ["override"] with attributes := ["[NonAction]"] }

/-- Where the class itself has a method without parameters there is no accessor. -/
theorem hidesNothing_beside_override :
    ∃ c ∈ all (Model.ofFiles [overloadedFile [exemptOverride]]),
      (∃ a ∈ c.ownActions, a.name = "Index" ∧ a.parameters ≠ []) ∧
        (∃ b ∈ c.actions, b.name = "Index" ∧ b.parameters = [] ∧
          b.declaringClass = "BaseController") ∧
          ∀ s field, c.HidesNothing (c.generatedHalf s field) := by
  have hregular : ∀ f ∈ [overloadedFile [exemptOverride]], f.IsRegular := by decide
  have hfound : ∃ c ∈ all (Model.ofFiles [overloadedFile [exemptOverride]]),
      (∃ a ∈ c.ownActions, a.name = "Index" ∧ a.parameters ≠ []) ∧
        (∃ b ∈ c.actions, b.name = "Index" ∧ b.parameters = [] ∧
          b.declaringClass = "BaseController") ∧
          ∀ a ∈ c.ownActions, a.name ∈ c.bareMethods := by decide
  obtain ⟨c, hc, howns, hinherits, hbare⟩ := hfound
  exact ⟨c, hc, howns, hinherits, fun s field =>
    (hidesNothing_iff hregular hc s field).mpr fun a ha _ _ _ _ _ _ => hbare a ha⟩

/-- Otherwise the accessor hides the action of the base. -/
theorem not_hidesNothing_inherited :
    ∃ c ∈ all (Model.ofFiles [overloadedFile []]),
      ∀ s field, ¬ c.HidesNothing (c.generatedHalf s field) := by
  have hfound : ∃ c ∈ all (Model.ofFiles [overloadedFile []]),
      "Index" ∈ c.accessorActions.map Action.name ∧
        ∃ b ∈ c.actions, b.parameters = [] ∧ b.name = "Index" := by decide
  obtain ⟨c, hc, haccessor, b, hb, hbare, hname⟩ := hfound
  refine ⟨c, hc, fun s field hnothing => ?_⟩
  exact hnothing "Index" ((hasAccessor_generatedHalf_iff s field).mpr haccessor) b hb hbare
    (congrArg bareName hname)

end Controller

end RouteLinks
