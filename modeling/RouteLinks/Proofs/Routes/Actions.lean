import RouteLinks.Proofs.Routes.Numbering
import RouteLinks.Routes.Controller
/-!
# The actions of a controller

What an action of a controller is known to be: a method that passed every test, from the class
itself or from a base that is a controller of the run, under a member name that no other action
has. The rest speaks of actions through these facts and does not look into how they are chosen.
-/

namespace RouteLinks

/-- What is required of a method that gets a link, where `inherited` has the signatures of the
controllers above its class. -/
structure Method.Qualifies (inherited : List Signature) (m : Method) : Prop where
  isPublic : m.isPublic = true
  notStatic : m.isStatic = false
  notGeneric : m.isGeneric = false
  notExempt : m.hasAttribute "NonAction" = false
  overridden : "override" ∈ m.modifiers → m.signature ∈ inherited
  noProblems : m.problems = []
  notSealed : "sealed" ∉ m.modifiers
  hasShape : (ResultShape.ofType? m.returnType).isSome = true

theorem Method.isAction_iff (inherited : List Signature) (m : Method) :
    m.isAction inherited = true ↔ m.Qualifies inherited := by
  constructor
  · intro haction
    unfold Method.isAction Method.routing at haction
    split at haction
    · next shape hrouting =>
      split_ifs at hrouting with haccess hexempt hoverride hproblems hsealed
      simp only [Bool.or_eq_true, Bool.not_eq_true', not_or, Bool.not_eq_true,
        Bool.not_eq_false] at haccess
      refine ⟨haccess.1.1, haccess.1.2, haccess.2, by simpa using hexempt, ?_, ?_,
        by simpa using hsealed, ?_⟩
      · intro hmodifier
        by_contra hnone
        exact hoverride (by simpa using ⟨hmodifier, hnone⟩)
      · simpa using hproblems
      · cases hshape : ResultShape.ofType? m.returnType with
        | none => rw [hshape] at hrouting; cases hrouting
        | some shape => rfl
    · cases haction
  · rintro ⟨hpublic, hstatic, hgeneric, hexempt, hoverride, hproblems, hsealed, hshape⟩
    obtain ⟨shape, hshape⟩ := Option.isSome_iff_exists.mp hshape
    have hknown :
        ¬ (m.modifiers.contains "override" && !inherited.contains m.signature) = true := by
      simpa using hoverride
    have hopen : ¬ m.modifiers.contains "sealed" = true := by simpa using hsealed
    simp only [Method.isAction, Method.routing, hpublic, hstatic, hgeneric, hexempt, if_neg hknown,
      hproblems, if_neg hopen, hshape, Bool.not_true, Bool.or_false, Bool.false_eq_true, if_false,
      List.isEmpty_nil]

theorem Method.Qualifies.isIdentityKey_eq_false {inherited : List Signature} {m : Method}
    (h : m.Qualifies inherited) {p : Parameter} (hp : p ∈ m.parameters) :
    isIdentityKey p.routeKey = false := by
  have hnone : p.obstacle? = none := by
    have hall := List.filterMap_eq_nil_iff.mp h.noProblems p hp
    exact Option.map_eq_none_iff.mp hall
  unfold Parameter.obstacle? at hnone
  split at hnone
  · cases hnone
  · split_ifs at hnone with _ _ hkey
    · split at hnone <;> cases hnone
    · exact Bool.eq_false_iff.mpr hkey

namespace Controller

theorem map_method_actionOf? (protocol : Option String) (m : Method) (member : String × Nat) :
    (actionOf? protocol m member).map Action.method =
      Option.guard (fun m : Method => (ResultShape.ofType? m.returnType).isSome) m := by
  cases hshape : ResultShape.ofType? m.returnType <;> simp [actionOf?, hshape, Option.guard]

theorem map_method_assign (protocol : Option String) (methods : List Method) :
    (assign protocol methods).map Action.method =
      methods.filter fun m => (ResultShape.ofType? m.returnType).isSome := by
  have hlength : methods.length ≤
      (Numbering.assignAll [] [] (methods.map (·.name))).length := by
    simp [Numbering.length_assignAll]
  simp only [assign, List.map_filterMap, map_method_actionOf?]
  rw [← List.filterMap_eq_filter, ← List.map_fst_zip hlength, List.filterMap_map,
    List.map_fst_zip hlength]
  rfl

theorem nodup_memberNames_assign (protocol : Option String) (methods : List Method) :
    ((assign protocol methods).map Action.memberName).Nodup := by
  have hfresh := (Numbering.assignAll_fresh [] [] (methods.map (·.name))).1
  have hlength : (Numbering.assignAll [] [] (methods.map (·.name))).length ≤ methods.length := by
    simp [Numbering.length_assignAll]
  rw [← List.map_snd_zip hlength, List.map_map, List.Nodup, List.pairwise_map] at hfresh
  rw [List.Nodup, List.pairwise_map]
  apply hfresh.filterMap _
  intro x y hne a ha b hb
  obtain ⟨_, _, rfl⟩ := Option.map_eq_some_iff.mp ha
  obtain ⟨_, _, rfl⟩ := Option.map_eq_some_iff.mp hb
  exact hne

theorem mem_assign {protocol : Option String} {methods : List Method} {a : Action}
    (ha : a ∈ assign protocol methods) :
    a.method ∈ methods ∧ ResultShape.ofType? a.method.returnType = some a.shape ∧
      a.routeName = routeNameOf a.method ∧
      a.protocol =
        if a.method.hasAttribute "RequireHttps" then some secureProtocol else protocol := by
  obtain ⟨⟨m, member⟩, hpair, hsome⟩ := List.mem_filterMap.mp ha
  obtain ⟨shape, hshape, rfl⟩ := Option.map_eq_some_iff.mp hsome
  exact ⟨(List.of_mem_zip hpair).1, hshape, rfl, rfl⟩

/-! ### Where actions come from -/

theorem mem_newActions {inherited seen : List Signature} {methods : List Method} {m : Method}
    (hm : m ∈ (newActions inherited seen methods).1) :
    m ∈ methods ∧ m.Qualifies inherited ∧ m.signature ∉ seen := by
  induction methods generalizing seen with
  | nil => simp [newActions] at hm
  | cons first rest ih =>
      rw [newActions] at hm
      split at hm
      · obtain ⟨hmethod, hqualifies, hnew⟩ := ih hm
        exact ⟨List.mem_cons_of_mem _ hmethod, hqualifies, hnew⟩
      · next hfirst =>
        have hlater : m ∈ (newActions inherited (first.signature :: seen) rest).1 →
            m ∈ first :: rest ∧ m.Qualifies inherited ∧ m.signature ∉ seen := by
          intro hrest
          obtain ⟨hmethod, hqualifies, hnew⟩ := ih hrest
          exact ⟨List.mem_cons_of_mem _ hmethod, hqualifies,
            fun hseen => hnew (List.mem_cons_of_mem _ hseen)⟩
        dsimp only at hm
        split at hm
        · next haction =>
          rcases List.mem_cons.mp hm with rfl | hrest
          · exact ⟨List.mem_cons_self, (Method.isAction_iff _ _).mp haction, by simpa using hfirst⟩
          · exact hlater hrest
        · exact hlater hm

/-- Every signature of a base counts as seen, whatever its method is. -/
theorem mem_seen_newActions (inherited seen : List Signature) (methods : List Method)
    (signature : Signature) :
    signature ∈ (newActions inherited seen methods).2 ↔
      signature ∈ seen ∨ signature ∈ methods.map Method.signature := by
  induction methods generalizing seen with
  | nil => simp [newActions]
  | cons first rest ih =>
      rw [newActions, List.map_cons, List.mem_cons]
      split
      · next hfirst =>
        have hseen : first.signature ∈ seen := by simpa using hfirst
        rw [ih]
        constructor
        · tauto
        · rintro (h | rfl | h) <;> tauto
      · simp only [ih, List.mem_cons]
        tauto

theorem mem_signatures {run : List String} {bases : List Class} {signature : Signature} :
    signature ∈ signatures run bases ↔
      ∃ b ∈ bases, b.qualifiedName ∈ run ∧ ∃ x ∈ b.methods, x.signature = signature := by
  simp [signatures, and_assoc]

/-- An inherited action belongs to a base of the run, and is judged by what lies above that base.
It is the first one of its signature. -/
theorem mem_inheritedActions {run : List String} {seen : List Signature} {bases : List Class}
    {m : Method} (hm : m ∈ inheritedActions run seen bases) :
    m.signature ∉ seen ∧
      ∃ before base further, bases = before ++ base :: further ∧ base.qualifiedName ∈ run ∧
        m ∈ base.methods ∧ m.Qualifies (signatures run further) ∧
        m.signature ∉ signatures run before := by
  induction bases generalizing seen with
  | nil => simp [inheritedActions] at hm
  | cons base further ih =>
      rw [inheritedActions] at hm
      split at hm
      · next hrun =>
        rcases List.mem_append.mp hm with hnew | hlater
        · obtain ⟨hmethod, hqualifies, hfresh⟩ := mem_newActions hnew
          exact ⟨hfresh, [], base, further, rfl, by simpa using hrun, hmethod, hqualifies,
            by simp [signatures]⟩
        · obtain ⟨hfresh, before, ancestor, above, rfl, hbase, hmethod, hqualifies, hnearest⟩ :=
            ih hlater
          rw [mem_seen_newActions, not_or] at hfresh
          refine ⟨hfresh.1, base :: before, ancestor, above, rfl, hbase, hmethod, hqualifies, ?_⟩
          intro hdeclared
          obtain ⟨b, hb, hbrun, x, hx, hsame⟩ := mem_signatures.mp hdeclared
          rcases List.mem_cons.mp hb with rfl | hb
          · exact hfresh.2 (List.mem_map.mpr ⟨x, hx, hsame⟩)
          · exact hnearest (mem_signatures.mpr ⟨b, hb, hbrun, x, hx, hsame⟩)
      · next hother =>
        obtain ⟨hfresh, before, ancestor, above, rfl, hbase, hmethod, hqualifies, hnearest⟩ := ih hm
        refine ⟨hfresh, base :: before, ancestor, above, rfl, hbase, hmethod, hqualifies, ?_⟩
        intro hdeclared
        obtain ⟨b, hb, hbrun, hx⟩ := mem_signatures.mp hdeclared
        rcases List.mem_cons.mp hb with rfl | hb
        · exact hother (by simpa using hbrun)
        · exact hnearest (mem_signatures.mpr ⟨b, hb, hbrun, hx⟩)

/-- An action method of a class is its own or belongs to a base of the run; either way it meets the
requirements where it is declared. -/
theorem mem_actionMethods {run : List String} {symbol : Class} {bases : List Class} {m : Method}
    (hm : m ∈ actionMethods run symbol bases) :
    ∃ before declaring further, symbol :: bases = before ++ declaring :: further ∧
      (declaring = symbol ∧ before = [] ∨ declaring.qualifiedName ∈ run) ∧
      m ∈ declaring.methods ∧ m.Qualifies (signatures run further) := by
  rcases List.mem_append.mp hm with hown | hinherited
  · obtain ⟨hmethod, haction⟩ := List.mem_filter.mp hown
    exact ⟨[], symbol, bases, rfl, Or.inl ⟨rfl, rfl⟩, hmethod, (Method.isAction_iff _ _).mp haction⟩
  · obtain ⟨_, before, base, further, rfl, hrun, hmethod, hqualifies, _⟩ :=
      mem_inheritedActions hinherited
    exact ⟨symbol :: before, base, further, rfl, Or.inr hrun, hmethod, hqualifies⟩

/-- Every action method becomes an action. -/
theorem map_method_assign_actionMethods (protocol : Option String) (run : List String)
    (symbol : Class) (bases : List Class) :
    (assign protocol (actionMethods run symbol bases)).map Action.method =
      actionMethods run symbol bases := by
  rw [map_method_assign, List.filter_eq_self]
  intro m hm
  obtain ⟨_, _, _, _, _, _, hqualifies⟩ := mem_actionMethods hm
  exact hqualifies.hasShape

theorem of_mem_actions_ofClass {m : Model} {run : List String} {symbol : Class} {a : Action}
    (ha : a ∈ (ofClass m run symbol).actions) :
    (∃ inherited, a.method.Qualifies inherited) ∧
      (a.protocol = none ∨ a.protocol = some secureProtocol) := by
  obtain ⟨hmethod, _, _, hprotocol⟩ := mem_assign ha
  obtain ⟨_, _, _, _, _, _, hqualifies⟩ := mem_actionMethods hmethod
  refine ⟨⟨_, hqualifies⟩, ?_⟩
  rw [hprotocol]
  split
  · exact .inr rfl
  · split
    · exact .inr rfl
    · exact .inl rfl

theorem nodup_memberNames_ofClass (m : Model) (run : List String) (symbol : Class) :
    ((ofClass m run symbol).actions.map Action.memberName).Nodup :=
  nodup_memberNames_assign _ _

end Controller

end RouteLinks
