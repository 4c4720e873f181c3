import RouteLinks.Proofs.Routes.Overridable
import RouteLinks.Proofs.Symbols.Sample
/-!
# One action for each signature

A companion overrides each action of its controller, so no two of them may have one signature. Own
actions come first, in the order in which they are declared; then come those of the bases that are
controllers of the run, base by base, the nearest first. A signature counts as seen once a base has
declared it, so it comes down from one base at most, and not at all if an own action has it.
-/

namespace RouteLinks

namespace Controller

theorem newActions_sublist (inherited seen : List Signature) (methods : List Method) :
    (newActions inherited seen methods).1.Sublist methods := by
  induction methods generalizing seen with
  | nil => exact List.Sublist.refl _
  | cons first rest ih =>
      rw [newActions]
      split
      · exact (ih seen).cons first
      · dsimp only
        split
        · exact (ih _).cons_cons first
        · exact (ih _).cons first

theorem nodup_signature_newActions (inherited seen : List Signature) (methods : List Method) :
    ((newActions inherited seen methods).1.map Method.signature).Nodup := by
  induction methods generalizing seen with
  | nil => exact List.nodup_nil
  | cons first rest ih =>
      rw [newActions]
      split
      · exact ih seen
      · dsimp only
        split
        · rw [List.map_cons, List.nodup_cons]
          refine ⟨?_, ih _⟩
          intro hagain
          obtain ⟨x, hx, hsame⟩ := List.mem_map.mp hagain
          exact (mem_newActions hx).2.2 (hsame ▸ List.mem_cons_self)
        · exact ih _

theorem nodup_signature_inheritedActions (run : List String) (seen : List Signature)
    (bases : List Class) : ((inheritedActions run seen bases).map Method.signature).Nodup := by
  induction bases generalizing seen with
  | nil => exact List.nodup_nil
  | cons base further ih =>
      rw [inheritedActions]
      split
      · dsimp only
        rw [List.map_append, List.nodup_append]
        refine ⟨nodup_signature_newActions _ seen base.methods, ih _, ?_⟩
        -- What comes from further up has a signature that the base does not declare.
        rintro signature hnear _ hfar rfl
        obtain ⟨x, hx, rfl⟩ := List.mem_map.mp hnear
        obtain ⟨y, hy, hsame⟩ := List.mem_map.mp hfar
        have hnew := (mem_inheritedActions hy).1
        rw [mem_seen_newActions, not_or] at hnew
        exact hnew.2 (hsame ▸ List.mem_map_of_mem (mem_newActions hx).1)
      · exact ih seen

/-- Where no two methods of a class have one signature, no two of its action methods have. -/
theorem nodup_signature_actionMethods (run : List String) {symbol : Class} (bases : List Class)
    (h : (symbol.methods.map Method.signature).Nodup) :
    ((actionMethods run symbol bases).map Method.signature).Nodup := by
  rw [actionMethods, List.map_append, List.nodup_append]
  refine ⟨h.sublist (List.filter_sublist.map _), nodup_signature_inheritedActions _ _ _, ?_⟩
  rintro signature hown _ hinherited rfl
  obtain ⟨y, hy, rfl⟩ := List.mem_map.mp hinherited
  exact (mem_inheritedActions hy).1 hown

/-- What comes from bases stands in groups, one for each controller of the run among them. -/
theorem exists_groups (run : List String) (seen : List Signature) (bases : List Class) :
    ∃ groups : List (Class × List Method),
      groups.map Prod.fst = bases.filter (fun b => run.contains b.qualifiedName) ∧
        (∀ g ∈ groups, g.2.Sublist g.1.methods) ∧
        inheritedActions run seen bases = groups.flatMap Prod.snd := by
  induction bases generalizing seen with
  | nil => exact ⟨[], rfl, List.forall_mem_nil _, rfl⟩
  | cons base further ih =>
      rw [inheritedActions, List.filter_cons]
      split
      · obtain ⟨groups, hbases, hdeclared, hflat⟩ :=
          ih (newActions (signatures run further) seen base.methods).2
        refine ⟨(base, (newActions (signatures run further) seen base.methods).1) :: groups,
          congrArg _ hbases, List.forall_mem_cons.mpr ⟨newActions_sublist _ _ _, hdeclared⟩, ?_⟩
        dsimp only
        rw [hflat, List.flatMap_cons]
      · exact ih seen

/-- How the actions of a controller stand: no two have one signature, the own ones come first as
they are declared, and the others come in groups, one for each base that is a controller of the run,
the nearest first, each as its base declares it. -/
structure OverridesOnce (m : Model) (run : List String) (c : Controller) : Prop where
  distinct : (c.actions.map fun a => a.method.signature).Nodup
  grouped : ∃ groups : List (Class × List Method),
    c.actions.map Action.method =
        c.symbol.methods.filter
          (·.isAction (signatures run ((m.ancestry c.symbol).chain.drop 1))) ++
        groups.flatMap Prod.snd ∧
      groups.map Prod.fst =
        ((m.ancestry c.symbol).chain.drop 1).filter (fun b => run.contains b.qualifiedName) ∧
      ∀ g ∈ groups, g.2.Sublist g.1.methods

/-- A controller whose methods have different signatures has actions with different signatures,
however often a signature recurs in the classes above it. -/
theorem overridesOnce_ofClass (m : Model) (run : List String) (symbol : Class)
    (h : (symbol.methods.map Method.signature).Nodup) :
    (ofClass m run symbol).OverridesOnce m run := by
  obtain ⟨bases, hchain, -⟩ := m.chain_ancestry symbol
  have hmethods : (ofClass m run symbol).actions.map Action.method =
      actionMethods run symbol bases := by
    rw [actions_ofClass hchain, map_method_assign_actionMethods]
  have hbases : (m.ancestry (ofClass m run symbol).symbol).chain.drop 1 = bases :=
    congrArg (List.drop 1) hchain
  constructor
  case distinct =>
    have hsignatures := nodup_signature_actionMethods run bases h
    rw [← hmethods, List.map_map] at hsignatures
    exact hsignatures
  case grouped =>
    obtain ⟨groups, hgroups, hdeclared, hflat⟩ := exists_groups run
      ((symbol.methods.filter (·.isAction (signatures run bases))).map Method.signature) bases
    rw [hmethods, hbases]
    refine ⟨groups, ?_, hgroups, hdeclared⟩
    rw [← hflat]
    rfl

def recurringFile : SourceFile :=
  .sample
    [.sampleClass "BaseController",
     .sampleMethod "BaseController" "Index" (.action [] ["virtual"]),
     .sampleMethod "BaseController" "About" (.action [] ["virtual"]),
     .sampleClass "MiddleController" (some "BaseController"),
     .sampleMethod "MiddleController" "Contact" (.action [] ["virtual"]),
     .sampleMethod "MiddleController" "Index" (.action [] ["override"]),
     .sampleClass "HomeController" (some "MiddleController"),
     .sampleMethod "HomeController" "Welcome" (.action [] ["virtual"]),
     .sampleMethod "HomeController" "Index" (.action [] ["override"])]

/-- The signature that recurs comes from the controller itself, the others from where they are. -/
theorem overridesOnce_recurring_signature :
    ∃ symbol ∈ (Model.ofFiles [recurringFile]).controllers,
      (symbol.methods.map Method.signature).Nodup ∧
        (ofClass (Model.ofFiles [recurringFile]) (runOf (Model.ofFiles [recurringFile]))
            symbol).actions.map (fun a => (a.name, a.declaringClass)) =
          [("Welcome", "HomeController"), ("Index", "HomeController"),
            ("Contact", "MiddleController"), ("About", "BaseController")] ∧
        (ofClass (Model.ofFiles [recurringFile]) (runOf (Model.ofFiles [recurringFile]))
            symbol).OverridesOnce (Model.ofFiles [recurringFile])
          (runOf (Model.ofFiles [recurringFile])) := by
  have hfound : ∃ symbol ∈ (Model.ofFiles [recurringFile]).controllers,
      (symbol.methods.map Method.signature).Nodup ∧
        (ofClass (Model.ofFiles [recurringFile]) (runOf (Model.ofFiles [recurringFile]))
            symbol).actions.map (fun a => (a.name, a.declaringClass)) =
          [("Welcome", "HomeController"), ("Index", "HomeController"),
            ("Contact", "MiddleController"), ("About", "BaseController")] := by decide
  obtain ⟨symbol, hsymbol, hnodup, hactions⟩ := hfound
  exact ⟨symbol, hsymbol, hnodup, hactions, overridesOnce_ofClass _ _ symbol hnodup⟩

end Controller

end RouteLinks
