import RouteLinks.Proofs.Routes.Nearest
import RouteLinks.Proofs.Source.TypeSpacing
/-!
# Overrides as they are spaced

A controller knows an override by its signature, in which the types stand with single spaces. Where
two files space a type alike, be it with more white space or less, the signatures are equal. Where
only one of them has white space between two tokens they differ, although the language takes both
for one type: then the override is passed over and the method of the base comes down beside it.
-/

namespace RouteLinks

open Source

/-- The types of the parameters are these. -/
def Method.IsWritten (x : Method) (types : List TypeText) : Prop :=
  x.parameters.map (fun p => p.type.getD "") = types.map TypeText.text

instance (x : Method) (types : List TypeText) : Decidable (x.IsWritten types) :=
  inferInstanceAs (Decidable (_ = _))

theorem Method.signature_eq_of_isWritten {x : Method} {types : List TypeText}
    (h : x.IsWritten types) :
    x.signature = ⟨x.name, types.map fun t => singleSpaced t.text⟩ := by
  have htypes := congrArg (List.map singleSpaced) h
  rw [List.map_map, List.map_map] at htypes
  exact congrArg (Signature.mk x.name) htypes

/-- Methods whose types have the same tokens have one signature if the types are spaced alike. -/
theorem Method.signature_inj {x n : Method} (hname : x.name = n.name) {types others : List TypeText}
    (hx : x.IsWritten types) (hn : n.IsWritten others)
    (htokens : types.map TypeText.tokens = others.map TypeText.tokens) :
    x.signature = n.signature ↔ types.map TypeText.joints = others.map TypeText.joints := by
  rw [signature_eq_of_isWritten hx, signature_eq_of_isWritten hn, hname, Signature.mk.injEq]
  refine (and_iff_right rfl).trans ?_
  clear hx hn
  induction types generalizing others with
  | nil =>
      cases others with
      | nil => simp
      | cons u more => cases htokens
  | cons t rest ih =>
      cases others with
      | nil => cases htokens
      | cons u more =>
          obtain ⟨hfirst, hmore⟩ := List.cons.inj htokens
          rw [List.map_cons, List.map_cons, List.map_cons, List.map_cons, List.cons.injEq,
            List.cons.injEq, TypeText.singleSpaced_text_inj hfirst, ih hmore]

namespace Controller

variable {m : Model} {run : List String} {symbol : Class} {bases : List Class}

/-! ### Which methods come down -/

/-- A base brings the first of its methods of a signature that is new, if that is an action. -/
theorem mem_newActions_iff {inherited seen : List Signature} {methods : List Method} {x : Method} :
    x ∈ (newActions inherited seen methods).1 ↔
      x.signature ∉ seen ∧ x.Qualifies inherited ∧
        methods.find? (·.signature == x.signature) = some x := by
  induction methods generalizing seen with
  | nil => simp [newActions]
  | cons first rest ih =>
      by_cases hsame : first.signature = x.signature
      · have hfirst : (first :: rest).find? (·.signature == x.signature) = some first :=
          List.find?_cons_of_pos (by simpa using hsame)
        rw [newActions, hfirst, Option.some.injEq]
        have hlater : ∀ seen, x.signature ∈ seen →
            x ∉ (newActions inherited seen rest).1 := fun seen hseen h => (ih.mp h).1 hseen
        split
        · next hseen =>
          rw [List.contains_iff_mem, hsame] at hseen
          exact iff_of_false (hlater _ hseen) fun h => h.1 hseen
        · next hseen =>
          rw [List.contains_iff_mem, hsame] at hseen
          have hrest := hlater (first.signature :: seen) (hsame ▸ List.mem_cons_self)
          dsimp only
          split
          · next haction =>
            rw [List.mem_cons, or_iff_left hrest]
            constructor
            · rintro rfl
              exact ⟨hseen, (Method.isAction_iff _ _).mp haction, rfl⟩
            · exact fun h => h.2.2.symm
          · next hother =>
            refine iff_of_false hrest ?_
            rintro ⟨-, hqualifies, rfl⟩
            exact hother ((Method.isAction_iff _ _).mpr hqualifies)
      · have hne : x ≠ first := fun h => hsame (h ▸ rfl)
        have hfirst : (first :: rest).find? (·.signature == x.signature) =
            rest.find? (·.signature == x.signature) :=
          List.find?_cons_of_neg (by simpa using hsame)
        rw [newActions, hfirst]
        split
        · exact ih
        · have hrest : x ∈ (newActions inherited (first.signature :: seen) rest).1 ↔
              x.signature ∉ seen ∧ x.Qualifies inherited ∧
                rest.find? (·.signature == x.signature) = some x := by
            rw [ih, List.mem_cons, not_or, and_iff_right (Ne.symm hsame)]
          dsimp only
          split
          · rw [List.mem_cons, or_iff_right hne, hrest]
          · exact hrest

theorem mem_of_mem_inheritedActions {seen : List Signature} {x : Method}
    (hx : x ∈ inheritedActions run seen bases) : ∃ d ∈ bases, x ∈ d.methods := by
  obtain ⟨-, before, base, further, rfl, -, hmethod, -⟩ := mem_inheritedActions hx
  exact ⟨base, List.mem_append_right _ List.mem_cons_self, hmethod⟩

/-- An action of a base comes down if its signature is new, no controller before the base has it,
and the base itself has it there first. -/
theorem mem_inheritedActions_iff {seen : List Signature} {between further : List Class}
    {base : Class} (hrun : base.qualifiedName ∈ run) {x : Method}
    (honly : ∀ d ∈ between ++ further, x ∉ d.methods) :
    x ∈ inheritedActions run seen (between ++ base :: further) ↔
      x.signature ∉ seen ∧ x.signature ∉ signatures run between ∧
        x.Qualifies (signatures run further) ∧
          base.methods.find? (·.signature == x.signature) = some x := by
  induction between generalizing seen with
  | nil =>
      have hfurther : ∀ seen, x ∉ inheritedActions run seen further := by
        intro seen hx
        obtain ⟨d, hd, hmethod⟩ := mem_of_mem_inheritedActions hx
        exact honly d hd hmethod
      rw [List.nil_append, inheritedActions, if_pos (by simpa using hrun)]
      dsimp only
      rw [List.mem_append, or_iff_left (hfurther _), mem_newActions_iff]
      simp [signatures]
  | cons d more ih =>
      obtain ⟨hd, hmore⟩ := List.forall_mem_cons.mp honly
      rw [List.cons_append, inheritedActions]
      by_cases hdrun : run.contains d.qualifiedName = true
      · have hsplit : x.signature ∉ signatures run (d :: more) ↔
            x.signature ∉ d.methods.map Method.signature ∧ x.signature ∉ signatures run more := by
          rw [signatures, signatures, List.filter_cons, if_pos hdrun, List.flatMap_cons,
            List.mem_append, not_or]
        rw [if_pos hdrun]
        dsimp only
        rw [List.mem_append, or_iff_right (fun h => hd (mem_newActions h).1), ih hmore,
          mem_seen_newActions, not_or, hsplit]
        tauto
      · have hskip : signatures run (d :: more) = signatures run more := by
          rw [signatures, signatures, List.filter_cons, if_neg hdrun]
        rw [if_neg hdrun, hskip]
        exact ih hmore

/-! ### The actions of one controller -/

theorem map_method_actions (hchain : (m.ancestry symbol).chain = symbol :: bases) :
    (ofClass m run symbol).actions.map Action.method = actionMethods run symbol bases := by
  rw [actions_ofClass hchain, map_method_assign_actionMethods]

theorem mem_actionMethods_of_mem_methods {x : Method} (hx : x ∈ symbol.methods) :
    x ∈ actionMethods run symbol bases ↔ x.Qualifies (signatures run bases) := by
  rw [← Method.isAction_iff]
  constructor
  · exact fun h => (List.mem_filter.mp (mem_own_of_mem_actionMethods h hx)).2
  · exact fun h => List.mem_append_left _ (List.mem_filter.mpr ⟨hx, h⟩)

/-- The controller has one method as an action and not the other. -/
structure Replaces (c : Controller) (x n : Method) : Prop where
  kept : x ∈ c.actions.map Action.method
  replaced : n ∉ c.actions.map Action.method

end Controller

open Controller (ofClass runOf signatures)

/-- A method of a controller that is marked as an override and meets whatever else is required of
an action, and an action of a base which is a controller as well. -/
structure Model.DeclaresOverride (m : Model) (symbol : Class) (between : List Class) (base : Class)
    (further : List Class) (x n : Method) : Prop where
  isController : symbol ∈ m.controllers
  above : (m.ancestry symbol).chain = symbol :: (between ++ base :: further)
  baseIsController : base.qualifiedName ∈ runOf m
  declared : x ∈ symbol.methods
  marked : "override" ∈ x.modifiers
  qualifies : ∃ inherited, x.Qualifies inherited
  baseDeclared : n ∈ base.methods
  baseAction : n ∈ (ofClass m (runOf m) base).actions.map Action.method

instance (m : Model) (symbol : Class) (between : List Class) (base : Class) (further : List Class)
    (x n : Method) : Decidable (m.DeclaresOverride symbol between base further x n) :=
  decidable_of_iff
    (symbol ∈ m.controllers ∧ (m.ancestry symbol).chain = symbol :: (between ++ base :: further) ∧
      base.qualifiedName ∈ runOf m ∧ x ∈ symbol.methods ∧ "override" ∈ x.modifiers ∧
      x.isAction [x.signature] = true ∧ n ∈ base.methods ∧
      n ∈ (ofClass m (runOf m) base).actions.map Action.method)
    ⟨fun ⟨hcontroller, habove, hbase, hdeclared, hmarked, haction, hmethods, hactions⟩ =>
      ⟨hcontroller, habove, hbase, hdeclared, hmarked, ⟨_, (Method.isAction_iff _ _).mp haction⟩,
        hmethods, hactions⟩,
    fun h =>
      ⟨h.isController, h.above, h.baseIsController, h.declared, h.marked,
        h.qualifies.elim fun _ hx => (Method.isAction_iff _ _).mpr
          { hx with overridden := fun _ => List.mem_singleton_self _ },
        h.baseDeclared, h.baseAction⟩⟩

/-- Another method of the signature comes before that of the base: one of a controller in between,
one of the base itself, or one of the class that meets the requirements. -/
def Model.IsPreceded (m : Model) (symbol : Class) (between : List Class) (base : Class)
    (further : List Class) (n : Method) : Prop :=
  n.signature ∈ signatures (runOf m) between ∨
    base.methods.find? (·.signature == n.signature) ≠ some n ∨
      ∃ y ∈ symbol.methods, y.Qualifies (signatures (runOf m) (between ++ base :: further)) ∧
        y.signature = n.signature

namespace Model.DeclaresOverride

variable {symbol base : Class} {between further : List Class} {x n : Method}

theorem qualifies_iff {m : Model} (h : m.DeclaresOverride symbol between base further x n) :
    x.Qualifies (signatures (runOf m) (between ++ base :: further)) ↔
      x.signature ∈ signatures (runOf m) (between ++ base :: further) := by
  obtain ⟨inherited, hqualifies⟩ := h.qualifies
  exact ⟨fun hx => hx.overridden h.marked, fun hx => { hqualifies with overridden := fun _ => hx }⟩

theorem mem_actions_iff {m : Model} (h : m.DeclaresOverride symbol between base further x n) :
    x ∈ (ofClass m (runOf m) symbol).actions.map Action.method ↔
      x.signature ∈ signatures (runOf m) (between ++ base :: further) := by
  rw [Controller.map_method_actions h.above,
    Controller.mem_actionMethods_of_mem_methods h.declared, h.qualifies_iff]

variable {files : List SourceFile}

/-- No other class of the chain has the method of the base. -/
theorem not_mem_methods (hregular : ∀ f ∈ files, f.IsRegular)
    (h : (ofFiles files).DeclaresOverride symbol between base further x n) {d : Class}
    (hd : d ∈ symbol :: between ++ further) : n ∉ d.methods := by
  obtain ⟨bases, hchain, hbases⟩ := (ofFiles files).chain_ancestry symbol
  obtain rfl : bases = between ++ base :: further := (List.cons.inj (hchain.symm.trans h.above)).2
  have hclasses : ∀ c ∈ symbol :: between ++ base :: further, c ∈ (ofFiles files).classes :=
    List.forall_mem_cons.mpr ⟨(mem_controllers.mp h.isController).1, hbases⟩
  have hperm : (symbol :: between ++ base :: further).Perm
      (base :: (symbol :: between ++ further)) := List.perm_middle
  have hnodup : ((base :: (symbol :: between ++ further)).map Class.qualifiedName).Nodup := by
    rw [← (hperm.map Class.qualifiedName).nodup_iff]
    have hwhole := (ofFiles files).nodup_ancestry symbol
    rwa [h.above] at hwhole
  have hbase : n.containingClass = base.qualifiedName :=
    (of_mem_methods_ofFiles hregular
      (hclasses base (hperm.mem_iff.mpr List.mem_cons_self)) h.baseDeclared).1
  intro hn
  have hother : n.containingClass = d.qualifiedName :=
    (of_mem_methods_ofFiles hregular
      (hclasses d (hperm.mem_iff.mpr (List.mem_cons_of_mem _ hd))) hn).1
  rw [List.map_cons, List.nodup_cons] at hnodup
  exact hnodup.1 (hbase ▸ hother ▸ List.mem_map_of_mem hd)

/-- The action of the base comes down unless another method precedes it. -/
theorem base_mem_actions_iff (hregular : ∀ f ∈ files, f.IsRegular)
    (h : (ofFiles files).DeclaresOverride symbol between base further x n) :
    n ∈ (ofClass (ofFiles files) (runOf (ofFiles files)) symbol).actions.map Action.method ↔
      ¬(ofFiles files).IsPreceded symbol between base further n := by
  have hsplit : ((ofFiles files).ancestry symbol).chain = (symbol :: between) ++ base :: further :=
    h.above
  have hown := (Controller.controller_of_mem_chain (nodup_ofFiles files) h.isController hsplit
    h.baseIsController).2
  have hqualifies : n.Qualifies (signatures (runOf (ofFiles files)) further) := by
    rw [← Controller.mem_actionMethods_of_mem_methods h.baseDeclared,
      ← Controller.map_method_actions hown]
    exact h.baseAction
  have hsymbol : n ∉ symbol.methods := h.not_mem_methods hregular List.mem_cons_self
  have honly : ∀ d ∈ between ++ further, n ∉ d.methods := fun d hd =>
    h.not_mem_methods hregular (List.mem_cons_of_mem _ hd)
  have hdeclares : n.signature ∈ (symbol.methods.filter
        (·.isAction (signatures (runOf (ofFiles files)) (between ++ base :: further)))).map
          Method.signature ↔
      ∃ y ∈ symbol.methods,
        y.Qualifies (signatures (runOf (ofFiles files)) (between ++ base :: further)) ∧
          y.signature = n.signature := by
    simp only [List.mem_map, List.mem_filter, Method.isAction_iff, and_assoc]
  have hinherited : n ∈ Controller.actionMethods (runOf (ofFiles files)) symbol
        (between ++ base :: further) ↔ _ :=
    List.mem_append.trans (or_iff_right fun hn => hsymbol (List.mem_filter.mp hn).1)
  rw [Controller.map_method_actions h.above, hinherited,
    Controller.mem_inheritedActions_iff h.baseIsController honly, hdeclares, IsPreceded,
    and_iff_right hqualifies, not_or, not_or, not_ne_iff]
  exact ⟨fun ⟨hown, hbetween, hfirst⟩ => ⟨hbetween, hfirst, hown⟩,
    fun ⟨hbetween, hfirst, hown⟩ => ⟨hown, hbetween, hfirst⟩⟩

end Model.DeclaresOverride

/-- Methods of one name whose types have the same tokens have one signature if the types are spaced
alike, and then the one replaces the other as an override of it. Spaced otherwise it does so if and
only if another controller above declares the signature of the override, and another method precedes
the one of the base. -/
theorem Method.signature_eq_iff_and_replaces_iff {x n : Method} (hname : x.name = n.name)
    {types others : List TypeText} (hx : x.IsWritten types) (hn : n.IsWritten others)
    (htokens : types.map TypeText.tokens = others.map TypeText.tokens) :
    (x.signature = n.signature ↔ types.map TypeText.joints = others.map TypeText.joints) ∧
      ∀ {files : List SourceFile}, (∀ f ∈ files, f.IsRegular) →
        ∀ {symbol base : Class} {between further : List Class},
          (Model.ofFiles files).DeclaresOverride symbol between base further x n →
            ((ofClass (Model.ofFiles files) (runOf (Model.ofFiles files)) symbol).Replaces x n ↔
              types.map TypeText.joints = others.map TypeText.joints ∨
                (x.signature ∈
                    signatures (runOf (Model.ofFiles files)) (between ++ base :: further) ∧
                  (Model.ofFiles files).IsPreceded symbol between base further n)) := by
  have hsignature := signature_inj hname hx hn htokens
  refine ⟨hsignature, fun {files} hregular {symbol base between further} h => ?_⟩
  have hkept := h.mem_actions_iff
  have hreplaced := h.base_mem_actions_iff hregular
  rw [← hsignature]
  constructor
  · intro hreplaces
    exact .inr ⟨hkept.mp hreplaces.kept, not_not.mp (mt hreplaced.mpr hreplaces.replaced)⟩
  · rintro (hsame | ⟨habove, hpreceded⟩)
    · have hbase : x.signature ∈
          signatures (runOf (Model.ofFiles files)) (between ++ base :: further) :=
        Controller.mem_signatures.mpr ⟨base, List.mem_append_right _ List.mem_cons_self,
          h.baseIsController, n, h.baseDeclared, hsame.symm⟩
      -- The override itself precedes the method that it overrides.
      have hpreceded : (Model.ofFiles files).IsPreceded symbol between base further n :=
        .inr (.inr ⟨x, h.declared, h.qualifies_iff.mpr hbase, hsame⟩)
      exact ⟨hkept.mpr hbase, fun hn => hreplaced.mp hn hpreceded⟩
    · exact ⟨hkept.mpr habove, fun hn => hreplaced.mp hn hpreceded⟩

def tableType (spaces : Nat) : TypeText :=
  .ofSpaced
    [tight (plainName "Dictionary" (by decide) (by decide)), tight (.sign .less),
      tight (.word numberWord), tight (.sign .comma),
      { gap := List.replicate spaces ' '
        token := .word stringWord
        isGap := fun c hc => by rw [List.eq_of_mem_replicate hc]; decide },
      tight (.sign .greater)]
    (by simp [tight, plainName, TypeToken.joinsTo])

/-- A file in which a controller overrides the action of another one, each with its own spaces in
the type of the parameter. -/
def tablesFile (declared written : Nat) : SourceFile :=
  let type (name : String) (base : Option String) : SourceUnit :=
    { head := .ofClass { modifiers := ["public"], base }, name, qualifiedName := name
      filePath := "A.cs" }
  let method (owner modifier : String) (spaces : Nat) : SourceUnit :=
    { head := .ofMethod
        { modifiers := ["public", modifier], returnType := some "IActionResult"
          returnTypeAt := some 0
          parameters := [{ name := "names", type := some (tableType spaces).text }] }
      name := "Find", qualifiedName := owner ++ ".Find", owner := some owner, filePath := "A.cs" }
  { filePath := "A.cs"
    units :=
      [type "BaseController" none, method "BaseController" "virtual" declared,
       type "HomeController" (some "BaseController"),
       method "HomeController" "override" written] }

/-- Two spaces are no other spelling than one. -/
theorem replaces_two_spaces :
    ∃ symbol ∈ (Model.ofFiles [tablesFile 1 2]).controllers,
      ∃ base ∈ (Model.ofFiles [tablesFile 1 2]).controllers,
        ∃ x ∈ symbol.methods, ∃ n ∈ base.methods,
          (Model.ofFiles [tablesFile 1 2]).DeclaresOverride symbol [] base [] x n ∧
            x.parameters ≠ n.parameters ∧ x.signature = n.signature ∧
              (ofClass (Model.ofFiles [tablesFile 1 2]) (runOf (Model.ofFiles [tablesFile 1 2]))
                symbol).Replaces x n := by
  have hregular : ∀ f ∈ [tablesFile 1 2], f.IsRegular := by decide
  have hfound : ∃ symbol ∈ (Model.ofFiles [tablesFile 1 2]).controllers,
      ∃ base ∈ (Model.ofFiles [tablesFile 1 2]).controllers,
        ∃ x ∈ symbol.methods, ∃ n ∈ base.methods,
          (Model.ofFiles [tablesFile 1 2]).DeclaresOverride symbol [] base [] x n ∧
            x.parameters ≠ n.parameters ∧ x.name = n.name ∧
              x.IsWritten [tableType 2] ∧ n.IsWritten [tableType 1] := by decide
  obtain ⟨symbol, hsymbol, base, hbase, x, hx, n, hn, h, hspelled, hname, htypes, hothers⟩ := hfound
  have hjoints : [tableType 2].map TypeText.joints = [tableType 1].map TypeText.joints := by decide
  obtain ⟨hsignature, hreplaces⟩ :=
    Method.signature_eq_iff_and_replaces_iff hname htypes hothers (by decide)
  exact ⟨symbol, hsymbol, base, hbase, x, hx, n, hn, h, hspelled, hsignature.mpr hjoints,
    (hreplaces hregular h).mpr (.inl hjoints)⟩

/-- Without the space the override is no action, and the method that it overrides comes down. -/
theorem not_replaces_no_space :
    ∃ symbol ∈ (Model.ofFiles [tablesFile 1 0]).controllers,
      ∃ base ∈ (Model.ofFiles [tablesFile 1 0]).controllers,
        ∃ x ∈ symbol.methods, ∃ n ∈ base.methods,
          (Model.ofFiles [tablesFile 1 0]).DeclaresOverride symbol [] base [] x n ∧
            x.name = n.name ∧ x.IsWritten [tableType 0] ∧ n.IsWritten [tableType 1] ∧
              (tableType 0).tokens = (tableType 1).tokens ∧ x.signature ≠ n.signature ∧
                (ofClass (Model.ofFiles [tablesFile 1 0])
                  (runOf (Model.ofFiles [tablesFile 1 0])) symbol).actions.map Action.method =
                    [n] := by
  decide

end RouteLinks
