import RouteLinks.Links.Companion
import RouteLinks.Proofs.Routes.Actions
import RouteLinks.Proofs.Symbols.Sample
/-!
# Member names

Each action has a name for its generated members, which no other action of the controller has: its
own name, or its own name with the least number that makes a free name. So the hooks, the classes
for the names of parameters and the accessors to them are different as well.

The first action of a name has it without a number, unless it has been given away: a number behind
the name of an earlier action may make the name of a later one.
-/

namespace RouteLinks

namespace Action

def parameterClass (a : Action) : String := "ActionParamsClass_" ++ a.memberName

def parameterAccessor (a : Action) : String := a.memberName ++ "Params"

end Action

namespace Controller

theorem parameterMembers_eq (a : Action) :
    parameterMembers a =
      if a.parameters.isEmpty then []
      else
        [sharedInstance a.parameterClass a.parameterAccessor,
          constantsClass a.parameterClass "readonly"
            (a.parameters.map fun p => (p.name, p.routeKey))] := rfl

variable {protocol : Option String} {methods : List Method}

theorem map_names_actionOf? {x : Method} (h : (ResultShape.ofType? x.returnType).isSome)
    (member : String × Nat) :
    (actionOf? protocol x member).map (fun a => (a.name, a.memberName, a.overloadIndex)) =
      some (x.name, member) := by
  obtain ⟨shape, hshape⟩ := Option.isSome_iff_exists.mp h
  simp only [actionOf?, hshape, Option.map_some]
  rfl

theorem map_names_assign (protocol : Option String)
    (h : ∀ x ∈ methods, (ResultShape.ofType? x.returnType).isSome) :
    (assign protocol methods).map (fun a => (a.name, a.memberName, a.overloadIndex)) =
      (methods.map (·.name)).zip (Numbering.assignEach [] (methods.map (·.name))) := by
  rw [assign, Numbering.assignAll_nil, List.map_filterMap]
  generalize Numbering.assignEach [] (methods.map (·.name)) = members
  induction methods generalizing members with
  | nil => rfl
  | cons x rest ih =>
      obtain ⟨hx, hrest⟩ := List.forall_mem_cons.mp h
      cases members with
      | nil => rfl
      | cons member members =>
          rw [List.zip_cons_cons, List.filterMap_cons, map_names_actionOf? hx, List.map_cons,
            List.zip_cons_cons, ih hrest members]

theorem given_assign (h : ∀ x ∈ methods, (ResultShape.ofType? x.returnType).isSome)
    {before after : List Action} {a : Action}
    (hsplit : assign protocol methods = before ++ a :: after) :
    Numbering.Given (before.map Action.memberName) a.name a.memberName a.overloadIndex := by
  have hnames := map_names_assign protocol h
  rw [hsplit, List.map_append, List.map_cons] at hnames
  have hgiven := Numbering.given_assignEach hnames.symm
  rw [List.append_nil, List.map_map] at hgiven
  exact hgiven

/-- How the members for some methods are named: each method has one name, the names are different,
and each is the method's own name or, where that is taken, its own name with the least number that
makes a free name. So numbers could be looked for from one on each time; they go up for methods of
one name. What is written for an action under a name made of its member name has that name alone. -/
structure NamesMembers (methods : List Method) (actions : List Action) : Prop where
  inOrder : actions.map Action.method = methods
  distinct : (actions.map Action.memberName).Nodup
  given : ∀ before a after, actions = before ++ a :: after →
    Numbering.Given (before.map Action.memberName) a.name a.memberName a.overloadIndex
  searched : actions.map (fun a => (a.memberName, a.overloadIndex)) =
    Numbering.assignEach [] (methods.map (·.name))
  increasing : actions.Pairwise fun a b => a.name = b.name → a.overloadIndex < b.overloadIndex
  hooks : (actions.map Action.hookName).Nodup
  parameterClasses : (actions.map Action.parameterClass).Nodup
  parameterAccessors : (actions.map Action.parameterAccessor).Nodup
  written : ∀ a ∈ actions, a.parameters ≠ [] →
    parameterMembers a =
      [sharedInstance a.parameterClass a.parameterAccessor,
        constantsClass a.parameterClass "readonly" (a.parameters.map fun p => (p.name, p.routeKey))]

theorem nodup_made {actions : List Action} {make : String → String}
    (hdistinct : (actions.map Action.memberName).Nodup) (hmake : Function.Injective make) :
    (actions.map fun a => make a.memberName).Nodup := by
  have hmade := hdistinct.map hmake
  rwa [List.map_map] at hmade

/-- Methods that have a shape become actions with names of their own, whatever their names are. -/
theorem namesMembers_assign (protocol : Option String) (methods : List Method)
    (h : ∀ x ∈ methods, (ResultShape.ofType? x.returnType).isSome) :
    NamesMembers methods (assign protocol methods) := by
  have hnames := map_names_assign protocol h
  have hdistinct := nodup_memberNames_assign protocol methods
  constructor
  case inOrder =>
    rw [map_method_assign, List.filter_eq_self]
    exact h
  case distinct => exact hdistinct
  case given => exact fun before a after hsplit => given_assign h hsplit
  case searched =>
    have hlength : (Numbering.assignEach [] (methods.map (·.name))).length ≤
        (methods.map (·.name)).length := by
      rw [Numbering.length_assignEach]
    rw [← List.map_snd_zip hlength, ← hnames, List.map_map]
    rfl
  case increasing =>
    have hpairs := Numbering.pairwise_index_assignEach [] (methods.map (·.name))
    rwa [← hnames, List.pairwise_map] at hpairs
  case hooks => exact nodup_made hdistinct fun _ _ => (String.append_left_inj _).mp
  case parameterClasses => exact nodup_made hdistinct fun _ _ => (String.append_right_inj _).mp
  case parameterAccessors => exact nodup_made hdistinct fun _ _ => (String.append_left_inj _).mp
  case written =>
    intro a _ hparameters
    rw [parameterMembers_eq, if_neg (by simpa using hparameters)]

def methodsNamed (names : List String) : List Method :=
  names.map fun name =>
    { name, containingClass := "HomeController", filePath := "A.cs"
      returnType := some "IActionResult" }

/-- Numbered names meet names that other methods have, before them and behind them. -/
theorem namesMembers_colliding_names :
    (∀ x ∈ methodsNamed ["Index2", "Index", "Index", "Index1", "Index", "Index1"],
        (ResultShape.ofType? x.returnType).isSome) ∧
      (assign none (methodsNamed ["Index2", "Index", "Index", "Index1", "Index", "Index1"])).map
          Action.memberName =
        ["Index2", "Index", "Index1", "Index11", "Index3", "Index12"] ∧
      NamesMembers (methodsNamed ["Index2", "Index", "Index", "Index1", "Index", "Index1"])
        (assign none (methodsNamed ["Index2", "Index", "Index", "Index1", "Index", "Index1"])) := by
  have hshapes : ∀ x ∈ methodsNamed ["Index2", "Index", "Index", "Index1", "Index", "Index1"],
      (ResultShape.ofType? x.returnType).isSome := by decide
  exact ⟨hshapes, by decide, namesMembers_assign none _ hshapes⟩

/-! ### The bare name -/

theorem given_ofClass {m : Model} {run : List String} {symbol : Class} {before after : List Action}
    {a : Action} (hsplit : (ofClass m run symbol).actions = before ++ a :: after) :
    Numbering.Given (before.map Action.memberName) a.name a.memberName a.overloadIndex := by
  refine given_assign ?_ hsplit
  intro x hx
  obtain ⟨_, _, _, _, _, _, hqualifies⟩ := mem_actionMethods hx
  exact hqualifies.hasShape

/-- What an action had to go around is taken for those behind it, and so is its own name. -/
theorem exists_given_of_mem {m : Model} {run : List String} {symbol : Class}
    {before after : List Action} {b : Action}
    (hsplit : (ofClass m run symbol).actions = before ++ after) (hb : b ∈ before) :
    ∃ taken, b.memberName :: taken ⊆ before.map Action.memberName ∧
      Numbering.Given taken b.name b.memberName b.overloadIndex := by
  obtain ⟨front, back, rfl⟩ := List.append_of_mem hb
  rw [List.append_assoc, List.cons_append] at hsplit
  refine ⟨front.map Action.memberName, ?_, given_ofClass hsplit⟩
  intro x hx
  rw [List.map_append, List.map_cons]
  rcases List.mem_cons.mp hx with rfl | hx
  · simp
  · exact List.mem_append_left _ hx

/-- Of the actions of one name, the first has the bare name and only later ones have a number. -/
def FirstKeepsName (c : Controller) (name : String) : Prop :=
  ∀ before a after, c.actions = before ++ a :: after → a.name = name →
    (a.memberName = name ↔ ∀ b ∈ before, b.name ≠ name)

/-- The first action of a name keeps it if and only if no action of that name comes behind one whose
number has made it. -/
theorem firstKeepsName_iff (m : Model) (run : List String) (symbol : Class) (name : String) :
    (ofClass m run symbol).FirstKeepsName name ↔
      ∀ before a after, (ofClass m run symbol).actions = before ++ a :: after → a.name = name →
        ∀ b ∈ before, b.overloadIndex ≠ 0 → b.memberName ≠ name := by
  constructor
  · rintro hkeeps before a after hsplit rfl b hb hnumber hmade
    obtain ⟨first, hfirst⟩ : ∃ first,
        (ofClass m run symbol).actions.find? (·.name == a.name) = some first := by
      rw [← Option.isSome_iff_exists, List.find?_isSome]
      exact ⟨a, by simp [hsplit], beq_self_eq_true _⟩
    obtain ⟨hname, front, back, hfront, hothers⟩ := List.find?_eq_some_iff_append.mp hfirst
    have hkept : first.memberName = a.name :=
      (hkeeps front first back hfront (beq_iff_eq.mp hname)).mpr fun c hc => by
        simpa using hothers c hc
    -- The two have one member name, so they are one action, which has its own name and a number.
    have hmem : b ∈ (ofClass m run symbol).actions := by simp [hsplit, hb]
    have hsame : first = b :=
      List.inj_on_of_nodup_map (nodup_memberNames_ofClass m run symbol)
        (List.mem_of_find?_eq_some hfirst) hmem (hkept.trans hmade.symm)
    subst hsame
    have hgiven := given_ofClass hfront
    exact hnumber (hgiven.index_eq_zero_iff.mpr (hkept.trans (beq_iff_eq.mp hname).symm))
  · rintro hfree before a after hsplit rfl
    rw [(given_ofClass hsplit).eq_name_iff]
    constructor
    · intro hnew b hb hname
      obtain ⟨taken, hsubset, hgiven⟩ := exists_given_of_mem hsplit hb
      exact hnew (hname ▸ hsubset hgiven.mem_cons)
    · intro hothers htaken
      obtain ⟨b, hb, hmade⟩ := List.mem_map.mp htaken
      obtain ⟨taken, _, hgiven⟩ := exists_given_of_mem hsplit hb
      by_cases hnumber : b.overloadIndex = 0
      · exact hothers b hb ((hgiven.index_eq_zero_iff.mp hnumber).symm.trans hmade)
      · exact hfree before a after hsplit rfl b hb hnumber hmade

/-- A file with a controller that has two actions of a name and one whose name is that with a
number. -/
def numberedNameFile : SourceFile :=
  .home [("Index", .action), ("Index", .action [{ name := "id", type := some "int" }]),
    ("Index1", .action)]

/-- The second action has the name of the third one, which is the first of its name. -/
theorem not_firstKeepsName_numbered_name :
    ∃ c ∈ all (Model.ofFiles [numberedNameFile]),
      c.actions.map (fun a => (a.name, a.memberName)) =
          [("Index", "Index"), ("Index", "Index1"), ("Index1", "Index11")] ∧
        ¬ c.FirstKeepsName "Index1" := by
  have hfound : ∃ c ∈ all (Model.ofFiles [numberedNameFile]),
      c.actions.map (fun a => (a.name, a.memberName)) =
        [("Index", "Index"), ("Index", "Index1"), ("Index1", "Index11")] := by decide
  obtain ⟨c, hc, hnames⟩ := hfound
  refine ⟨c, hc, hnames, fun hkeeps => ?_⟩
  obtain ⟨first, rest, hactions, hfirst, hrest⟩ := List.map_eq_cons_iff.mp hnames
  obtain ⟨second, rest, rfl, hsecond, hrest⟩ := List.map_eq_cons_iff.mp hrest
  obtain ⟨third, rfl, hthird⟩ := List.map_eq_singleton_iff.mp hrest
  simp only [Prod.mk.injEq] at hfirst hsecond hthird
  have hkept : third.memberName = "Index1" := by
    refine (hkeeps [first, second] third [] hactions hthird.1).mpr ?_
    simp [hfirst.1, hsecond.1]
  rw [hthird.2] at hkept
  exact absurd hkept (by decide)

end Controller

end RouteLinks
