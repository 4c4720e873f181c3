import Mathlib.Data.List.Nodup
import RouteLinks.Proofs.Links.Execution
import RouteLinks.Proofs.Routes.Actions
import RouteLinks.Proofs.Routes.Binding
import RouteLinks.Proofs.Routes.EditedController
import RouteLinks.Proofs.Symbols.Sample
import RouteLinks.Symbols.Model
/-!
# Descriptions and overrides

A description and an override build a descriptor from the same arguments in two ways: the
description from the action that has the member name, the override from the constants of the
generated half, where the names of actions go by method names. They agree for an action exactly if
the first action of its method name has its route name, no parameter hides what the override
refers to, and no two parameters share a key of the dictionary.
-/

namespace RouteLinks

/-! ### Dictionaries -/

namespace Descriptor

def putAll? (fold : Char → Char) (d : Descriptor) (entries : List (String × RouteValue)) :
    Option Descriptor :=
  entries.foldlM (fun d entry => d.put? fold entry.1 entry.2) d

theorem dictionaryKeys_withParameters (d : Descriptor) (entries : List (String × RouteValue)) :
    (d.withParameters entries).dictionaryKeys = d.dictionaryKeys ++ entries.map Prod.fst := by
  simp [dictionaryKeys, withParameters, identity]

theorem putAll?_eq (fold : Char → Char) (d : Descriptor) (entries : List (String × RouteValue)) :
    d.putAll? fold entries = (addKeys? fold d.dictionaryKeys (entries.map Prod.fst)).map fun _ =>
      d.withParameters entries := by
  induction entries generalizing d with
  | nil => simp [putAll?, addKeys?, withParameters]
  | cons entry rest ih =>
      have hsplit : d.putAll? fold (entry :: rest) =
          (d.put? fold entry.1 entry.2).bind (·.putAll? fold rest) := List.foldlM_cons
      rw [hsplit, put?, List.map_cons, addKeys?, List.foldlM_cons]
      by_cases hpresent : ∃ k ∈ d.dictionaryKeys, SameKey fold k entry.1
      · simp [addKey?, hpresent]
      · have hkey : addKey? fold d.dictionaryKeys entry.1 =
            some (d.withParameters [entry]).dictionaryKeys := by
          rw [addKey?, if_neg hpresent, dictionaryKeys_withParameters]
          rfl
        rw [hkey]
        refine (ih (d.withParameters [entry])).trans (congrArg (fun e => Option.map e _) ?_)
        funext _
        simp [withParameters]

theorem putAll?_eq_some_iff {fold : Char → Char} {d e : Descriptor}
    {entries : List (String × RouteValue)} :
    d.putAll? fold entries = some e ↔
      ((∀ k ∈ d.dictionaryKeys, ∀ l ∈ entries.map Prod.fst, ¬SameKey fold k l) ∧
        (entries.map Prod.fst).Pairwise fun k l => ¬SameKey fold k l) ∧
        e = d.withParameters entries := by
  rw [putAll?_eq, Option.map_eq_some_iff]
  constructor
  · rintro ⟨keys, hkeys, rfl⟩
    exact ⟨(addKeys?_eq_some_iff.mp hkeys).2, rfl⟩
  · rintro ⟨hapart, rfl⟩
    exact ⟨_, addKeys?_eq_some_iff.mpr ⟨rfl, hapart⟩, rfl⟩

theorem construct?_eq_some_iff {kind : ResultKind} {values : List RouteValue} {d : Descriptor} :
    construct? kind values = some d ↔ ∃ area controller action protocol,
      values = [.text area, .text controller, .text action] ++
        (protocol.map RouteValue.text).toList ∧
      d = .ofIdentity kind (some area) controller action protocol := by
  constructor
  · intro h
    unfold construct? at h
    split at h
    · next area controller action =>
      exact ⟨area, controller, action, none, rfl, (Option.some.inj h).symm⟩
    · next area controller action protocol =>
      exact ⟨area, controller, action, some protocol, rfl, (Option.some.inj h).symm⟩
    · cases h
  · rintro ⟨area, controller, action, protocol, rfl, rfl⟩
    cases protocol <;> rfl

end Descriptor

/-! ### Overrides -/

namespace Frame

variable {fold : Char → Char} {f : Frame}

/-- Statements that add the parameters add them one after the other. -/
theorem answer?_addRouteValues {target : String} {rest : List Statement}
    {entries : List (Parameter × RouteValue)}
    (hvalues : ∀ entry ∈ entries, f.parameters.lookup entry.1.routeKey = some entry.2)
    (hrest : ∀ d locals, answer? fold { f with locals := (target, d) :: locals } rest = some d)
    (d : Descriptor) (locals : List (String × Descriptor)) :
    answer? fold { f with locals := (target, d) :: locals }
        (entries.map (fun entry => Statement.addRouteValue target entry.1.routeKey
          (.identifier entry.1.name)) ++ rest) =
      d.putAll? fold (entries.map fun entry => (entry.1.routeKey, entry.2)) := by
  induction entries generalizing d locals with
  | nil => exact hrest d locals
  | cons entry others ih =>
      obtain ⟨hvalue, hvalues⟩ := List.forall_mem_cons.mp hvalues
      have heval : eval? { f with locals := (target, d) :: locals } (.identifier entry.1.name) =
          some entry.2 := by
        rw [routeKey_eq] at hvalue
        simp [eval?, meaning?, hvalue]
      have hexec : exec? fold { f with locals := (target, d) :: locals }
          (.addRouteValue target entry.1.routeKey (.identifier entry.1.name)) =
            (d.put? fold entry.1.routeKey entry.2).map fun next =>
              { f with locals := (target, next) :: (target, d) :: locals } := by
        simp only [exec?, heval, List.lookup_cons_self, Option.bind_eq_bind, Option.bind_some]
        exact Option.map_eq_bind.symm
      rw [List.map_cons, List.cons_append, answer?, hexec, List.map_cons, Descriptor.putAll?,
        List.foldlM_cons]
      · cases d.put? fold entry.1.routeKey entry.2 with
        | none => rfl
        | some next => exact ih hvalues next _
      · exact fun _ h => nomatch h
      · exact fun _ _ h => nomatch h

/-- The first statement of an override makes the result, unless a parameter has the name of its
variable. -/
theorem exec?_create {a : Action} (hlocals : f.locals = []) :
    f.exec? fold (.create Action.resultVariable a.shape.kind.className a.identityArguments) =
      if (f.parameters.lookup Action.resultVariable).isSome then none
      else ((a.identityArguments.mapM f.eval?).bind (Descriptor.construct? a.shape.kind)).map
        fun d => { f with locals := [(Action.resultVariable, d)] } := by
  simp only [exec?, hlocals, ResultKind.ofClassName?_className, List.lookup_nil,
    Option.isSome_none, Bool.or_false, Option.bind_eq_bind, Option.bind_some, Option.map_eq_bind,
    Option.bind_assoc]
  rfl

/-- The last statements call a hook, which does nothing, and answer with the result. -/
theorem answer?_hook {a : Action} (d : Descriptor) (locals : List (String × Descriptor)) :
    answer? fold { f with locals := (Action.resultVariable, d) :: locals }
      [.call a.hookName (.identifier Action.resultVariable ::
          a.parameters.map fun p => Expression.identifier p.name),
        if a.shape.isAsync then .answerTask a.shape.resultType Action.resultVariable
        else .answer Action.resultVariable] = some d := by
  cases a.shape.isAsync <;> simp [answer?, exec?]

theorem answer?_overrideBody {a : Action} {entries : List (Parameter × RouteValue)}
    (hparameters : a.parameters = entries.map Prod.fst)
    (hvalues : ∀ entry ∈ entries, f.parameters.lookup entry.1.routeKey = some entry.2)
    (hlocals : f.locals = []) :
    f.answer? fold a.overrideBody =
      if (f.parameters.lookup Action.resultVariable).isSome then none
      else ((a.identityArguments.mapM f.eval?).bind (Descriptor.construct? a.shape.kind)).bind
        (·.putAll? fold (entries.map fun entry => (entry.1.routeKey, entry.2))) := by
  have hadds : (a.parameters.map fun p =>
        Statement.addRouteValue Action.resultVariable p.routeKey (.identifier p.name)) =
      entries.map fun entry => .addRouteValue Action.resultVariable entry.1.routeKey
        (.identifier entry.1.name) := by
    rw [hparameters, List.map_map]
    rfl
  rw [Action.overrideBody, List.cons_append, answer?, exec?_create hlocals]
  · split
    · rfl
    · cases (a.identityArguments.mapM f.eval?).bind (Descriptor.construct? a.shape.kind) with
      | none => rfl
      | some d =>
          rw [Option.map_some, Option.bind_some, Option.bind_some, hadds]
          exact answer?_addRouteValues hvalues (fun d locals => answer?_hook d locals) d []
  · exact fun _ h => nomatch h
  · exact fun _ _ h => nomatch h

theorem meaning?_of_mem {f : Frame} {name : String} {value : RouteValue}
    (h : f.parameters.lookup (bareName name) = some value) :
    f.meaning? name = some (.value value) := by
  rw [meaning?, h]
  rfl

/-- What no parameter hides means the member. -/
theorem meaning?_of_not_mem {f : Frame} {name : String}
    (h : bareName name ∉ f.parameters.map Prod.fst) :
    f.meaning? name = f.members.lookup (bareName name) := by
  rw [meaning?, Option.not_isSome_iff_eq_none.mp (mt lookup_isSome_iff.mp h)]
  rfl

end Frame

theorem Controller.find?_firstOfEach (pairs : List (String × String)) (accepts : String → Bool) :
    (firstOfEach pairs).find? (accepts ·.1) = pairs.find? (accepts ·.1) := by
  have hupsert : ∀ (key value : String) (found : List (String × String)),
      (upsert key (fun present => present.getD value) found).find? (accepts ·.1) =
        (found ++ [(key, value)]).find? (accepts ·.1) := by
    intro key value found
    induction found with
    | nil => rfl
    | cons first rest ih =>
        obtain ⟨k, x⟩ := first
        rw [upsert]
        split
        · next hsame =>
          obtain rfl := beq_iff_eq.mp hsame
          rw [List.cons_append, List.find?_cons, List.find?_cons]
          cases haccepts : accepts k with
          | true => rfl
          | false => simp [List.find?_append, haccepts]
        · rw [List.cons_append, List.find?_cons, List.find?_cons, ih]
  have hfrom : ∀ found : List (String × String),
      (pairs.foldl (fun found pair => upsert pair.1 (fun present => present.getD pair.2) found)
        found).find? (accepts ·.1) = (found ++ pairs).find? (accepts ·.1) := by
    induction pairs with
    | nil => simp
    | cons pair rest ih =>
        intro found
        rw [List.foldl_cons, ih, List.find?_append, hupsert, ← List.find?_append, List.append_assoc]
        rfl
  exact hfrom []

namespace Controller

variable {fold : Char → Char} {c : Controller} {a : Action} {args : List RouteValue}

def namesake? (c : Controller) (a : Action) : Option Action :=
  c.actions.find? fun b => bareName b.name == bareName a.name

theorem map_fst_frameOf (hlength : args.length = a.parameters.length) :
    (c.frameOf a args).parameters.map Prod.fst = a.routeKeys :=
  List.map_fst_zip (by simp [hlength])

theorem meaning?_frameOf {name : String} (hfree : bareName name ∉ a.routeKeys) :
    (c.frameOf a args).meaning? name = c.membersForOverrides.lookup (bareName name) := by
  refine Frame.meaning?_of_not_mem fun hmem => hfree ?_
  obtain ⟨entry, hentry, hname⟩ := List.mem_map.mp hmem
  exact hname ▸ (List.of_mem_zip hentry).1

/-- The constants are read back as what they stand for. -/
theorem membersForOverrides_eq (c : Controller) :
    c.membersForOverrides =
      [("Area", .value (.text c.area)), ("Name", .value (.text c.name)),
        (actionNamesMember, .constants c.actionNameConstants)] := by
  simp [membersForOverrides, identityConstants, Literal.value_regular, Except.toOption]

theorem eval?_area (hfree : "Area" ∉ a.routeKeys) :
    (c.frameOf a args).eval? (.identifier "Area") = some (.text c.area) := by
  rw [Frame.eval?, meaning?_frameOf hfree, membersForOverrides_eq]
  rfl

theorem eval?_name (hfree : "Name" ∉ a.routeKeys) :
    (c.frameOf a args).eval? (.identifier "Name") = some (.text c.name) := by
  rw [Frame.eval?, meaning?_frameOf hfree, membersForOverrides_eq]
  rfl

/-- The constant that is found for a name is the one of the first action that has it. -/
theorem find?_actionNameConstants (c : Controller) (accepts : String → Bool) :
    c.actionNameConstants.find? (accepts ·.1) =
      (c.actions.find? (accepts ·.name)).map fun b => (b.name, Quoted.regular b.routeName) := by
  have hfirst := find?_firstOfEach (c.actions.map fun b => (b.name, b.routeName)) accepts
  rw [List.find?_map] at hfirst
  rw [actionNameConstants, List.find?_map, actionNames]
  refine (congrArg (Option.map _) hfirst).trans ?_
  rw [Option.map_map]
  rfl

/-- The name of an action that an override reads belongs to the first action of its method name. -/
theorem eval?_actionName (hfree : actionNamesMember ∉ a.routeKeys) :
    (c.frameOf a args).eval? (.member actionNamesMember a.name) =
      ((c.namesake? a).map (·.routeName)).map RouteValue.text := by
  have hmember : c.membersForOverrides.lookup (bareName actionNamesMember) =
      some (.constants c.actionNameConstants) := by
    rw [membersForOverrides_eq]
    rfl
  have hfield : c.actionNameConstants.find? (bareName ·.1 == bareName a.name) =
      (c.namesake? a).map fun b => (b.name, Quoted.regular b.routeName) :=
    c.find?_actionNameConstants fun name => bareName name == bareName a.name
  rw [Frame.eval?, meaning?_frameOf hfree, hmember]
  dsimp only
  rw [hfield, Option.bind_map, Option.map_map]
  simp only [Function.comp_def, Literal.value_regular, Except.toOption]
  exact Option.map_eq_bind.symm

/-- What an override does: it makes the result, unless a parameter has the name of its variable, and
adds the values of the parameters. -/
theorem answerOf?_eq (hlength : args.length = a.parameters.length) (hnodup : a.routeKeys.Nodup) :
    c.answerOf? fold a args =
      if Action.resultVariable ∈ a.routeKeys then none
      else ((a.identityArguments.mapM (c.frameOf a args).eval?).bind
        (Descriptor.construct? a.shape.kind)).bind (·.putAll? fold (a.routeKeys.zip args)) := by
  have hkeys := map_fst_frameOf (c := c) hlength
  have hfst := Action.map_fst_zip_parameters hlength
  have hentries : (a.parameters.zip args).map (fun entry => (entry.1.routeKey, entry.2)) =
      a.routeKeys.zip args := by
    rw [Action.routeKeys, List.zip_map_left]
    rfl
  have hvalues : ∀ entry ∈ a.parameters.zip args,
      (c.frameOf a args).parameters.lookup entry.1.routeKey = some entry.2 := by
    intro entry hentry
    have hparameters : (c.frameOf a args).parameters =
        (a.parameters.zip args).map fun entry => (entry.1.routeKey, entry.2) := hentries.symm
    rw [hparameters]
    refine lookup_map_of_mem Parameter.routeKey ?_ hentry
    rw [Action.routeKeys, ← congrArg (List.map Parameter.routeKey) hfst, List.map_map] at hnodup
    exact hnodup
  rw [answerOf?, Frame.answer?_overrideBody hfst.symm hvalues rfl, hentries]
  simp only [lookup_isSome_iff, hkeys]

theorem construct?_identityArguments (hprotocol : ∀ protocol, a.protocol = some protocol →
      protocol.isEmpty = false) {f : Frame} {d : Descriptor} :
    (a.identityArguments.mapM f.eval?).bind (Descriptor.construct? a.shape.kind) = some d ↔
      ∃ area controller action, f.eval? (.identifier "Area") = some (.text area) ∧
        f.eval? (.identifier "Name") = some (.text controller) ∧
        f.eval? (.member actionNamesMember a.name) = some (.text action) ∧
        d = .ofIdentity a.shape.kind (some area) controller action a.protocol := by
  have harguments : a.identityArguments.map f.eval? =
      [f.eval? (.identifier "Area"), f.eval? (.identifier "Name"),
          f.eval? (.member actionNamesMember a.name)] ++
        ((a.protocol.map RouteValue.text).toList.map some) := by
    rw [Action.identityArguments]
    cases hcase : a.protocol with
    | none => rfl
    | some protocol => simp [hprotocol protocol hcase, Frame.eval?_text]
  rw [Option.bind_eq_some_iff]
  constructor
  · rintro ⟨values, hvalues, hconstruct⟩
    obtain ⟨area, controller, action, protocol, rfl, rfl⟩ :=
      Descriptor.construct?_eq_some_iff.mp hconstruct
    rw [mapM_eq_some_iff, harguments, List.map_append] at hvalues
    simp only [List.map_cons, List.map_nil, List.cons_append, List.nil_append, List.cons.injEq]
      at hvalues
    obtain ⟨harea, hname, haction, hrest⟩ := hvalues
    refine ⟨area, controller, action, harea, hname, haction, ?_⟩
    have hsame : a.protocol = protocol := by
      cases hcase : a.protocol <;> cases protocol <;> simp_all
    rw [hsame]
  · rintro ⟨area, controller, action, harea, hname, haction, rfl⟩
    refine ⟨[.text area, .text controller, .text action] ++
      (a.protocol.map RouteValue.text).toList, ?_, ?_⟩
    · rw [mapM_eq_some_iff, harguments, harea, hname, haction, List.map_append]
      rfl
    · exact Descriptor.construct?_eq_some_iff.mpr ⟨area, controller, action, a.protocol, rfl, rfl⟩

/-- What makes the override of an action answer with what the description says. -/
structure Agrees (fold : Char → Char) (c : Controller) (a : Action) : Prop where
  unhidden : ∀ name ∈ ["Area", "Name", actionNamesMember, Action.resultVariable], name ∉ a.routeKeys
  named : (c.namesake? a).map (·.routeName) = some a.routeName
  distinct : a.routeKeys.Pairwise fun k l => ¬SameKey fold k l

instance (fold : Char → Char) (c : Controller) (a : Action) : Decidable (c.Agrees fold a) :=
  decidable_of_iff
    ((∀ name ∈ ["Area", "Name", actionNamesMember, Action.resultVariable], name ∉ a.routeKeys) ∧
      (c.namesake? a).map (·.routeName) = some a.routeName ∧
      a.routeKeys.Pairwise fun k l => ¬SameKey fold k l)
    ⟨fun h => ⟨h.1, h.2.1, h.2.2⟩, fun h => ⟨h.unhidden, h.named, h.distinct⟩⟩

/-- A description by member name is one of the action with that name. -/
theorem describe_memberName {m : Model} (hc : c ∈ all m) (ha : a ∈ c.actions) :
    c.describe a.memberName args [] = a.describe c.area c.name args [] := by
  obtain ⟨d, _, rfl⟩ := mem_all.mp hc
  have hfound := find?_eq_of_nodup (nodup_memberNames_ofClass m _ d) ha
  simp only [describe, List.find?_nil, hfound]

theorem map_fst_zip_routeKeys (hlength : args.length = a.parameters.length) :
    (a.routeKeys.zip args).map Prod.fst = a.routeKeys :=
  List.map_fst_zip (by simp [Action.routeKeys, hlength])

/-- Without a value the route identity cannot be made from a parameter. -/
theorem meaning?_null {name : String} (hbare : bareName name = name) (hmem : name ∈ a.routeKeys) :
    (c.frameOf a (List.replicate a.parameters.length .null)).meaning? name =
      some (.value .null) := by
  refine Frame.meaning?_of_mem ?_
  rw [← map_fst_frameOf (c := c) (List.length_replicate (n := a.parameters.length)),
    ← lookup_isSome_iff] at hmem
  obtain ⟨value, hvalue⟩ := Option.isSome_iff_exists.mp hmem
  obtain ⟨before, after, hsplit, _⟩ := List.lookup_eq_some_iff.mp hvalue
  have hentry : (name, value) ∈
      (c.frameOf a (List.replicate a.parameters.length .null)).parameters := by
    rw [hsplit]
    exact List.mem_append_right _ List.mem_cons_self
  rw [hbare, hvalue, List.eq_of_mem_replicate (List.of_mem_zip hentry).2]

/-- Where the two agree, an override answers with the identity of the action and its parameters. -/
theorem answerOf?_eq_of_agrees (hfold : IgnoresCase fold)
    (hprotocol : ∀ protocol, a.protocol = some protocol → protocol.isEmpty = false)
    (hfree : ∀ p ∈ a.parameters, isIdentityKey p.routeKey = false)
    (hlength : args.length = a.parameters.length) (hnodup : a.routeKeys.Nodup)
    (hagrees : c.Agrees fold a) :
    c.answerOf? fold a args =
      some ((a.identity c.area c.name).withParameters (a.routeKeys.zip args)) := by
  obtain ⟨hunhidden, hnamed, hdistinct⟩ := hagrees
  have hmade : (a.identityArguments.mapM (c.frameOf a args).eval?).bind
      (Descriptor.construct? a.shape.kind) = some (a.identity c.area c.name) := by
    refine (construct?_identityArguments hprotocol).mpr
      ⟨c.area, c.name, a.routeName, eval?_area (hunhidden _ (by simp)),
        eval?_name (hunhidden _ (by simp)), ?_, rfl⟩
    rw [eval?_actionName (hunhidden _ (by simp)), hnamed, Option.map_some]
  rw [answerOf?_eq hlength hnodup, if_neg (hunhidden _ (by simp)), hmade, Option.bind_some,
    Descriptor.putAll?_eq_some_iff, map_fst_zip_routeKeys hlength]
  refine ⟨⟨fun key hkey _ hroute hsame => ?_, hdistinct⟩, rfl⟩
  obtain ⟨p, hp, rfl⟩ := List.mem_map.mp hroute
  have hidentity := isIdentityKey_of_sameKey hfold hkey hsame.symm
  exact Bool.false_ne_true ((hfree p hp).symm.trans hidentity)

/-- An override that answers with the identity of the action where no argument has a value agrees
with the description: a parameter that hid a name would have no text to give. -/
theorem agrees_of_answerOf?_null (hprotocol : ∀ protocol, a.protocol = some protocol →
      protocol.isEmpty = false) (hnodup : a.routeKeys.Nodup)
    (h : c.answerOf? fold a (List.replicate a.parameters.length .null) =
      some ((a.identity c.area c.name).withParameters
        (a.routeKeys.zip (List.replicate a.parameters.length .null)))) :
    c.Agrees fold a := by
  have hlength := List.length_replicate (n := a.parameters.length) (a := RouteValue.null)
  rw [answerOf?_eq hlength hnodup] at h
  split_ifs at h with hvariable
  obtain ⟨made, hmade, hput⟩ := Option.bind_eq_some_iff.mp h
  obtain ⟨area, controller, action, harea, hname, haction, rfl⟩ :=
    (construct?_identityArguments hprotocol).mp hmade
  rw [Descriptor.putAll?_eq_some_iff, map_fst_zip_routeKeys hlength] at hput
  obtain ⟨⟨-, hdistinct⟩, hequal⟩ := hput
  have hmember : actionNamesMember ∉ a.routeKeys := by
    intro hmem
    rw [Frame.eval?, meaning?_null rfl hmem] at haction
    cases haction
  refine ⟨?_, ?_, hdistinct⟩
  · simp only [List.forall_mem_cons, List.not_mem_nil, false_imp_iff, implies_true, and_true]
    refine ⟨?_, ?_, hmember, hvariable⟩
    · intro hmem
      rw [Frame.eval?, meaning?_null rfl hmem] at harea
      cases harea
    · intro hmem
      rw [Frame.eval?, meaning?_null rfl hmem] at hname
      cases hname
  · rw [eval?_actionName hmember] at haction
    obtain ⟨name, hname, htext⟩ := Option.map_eq_some_iff.mp haction
    obtain rfl := RouteValue.text.inj htext
    have haction : a.routeName = name := congrArg Descriptor.action hequal
    rw [hname, haction]

/-- An override answers with what the description says, whatever the arguments are, exactly if the
two agree on the action. If two parameters have the same key there is no description. -/
theorem answerOf?_eq_describe_iff (hfold : IgnoresCase fold) {m : Model} (hc : c ∈ all m)
    (ha : a ∈ c.actions) :
    (∀ args d, args.length = a.parameters.length → c.describe a.memberName args [] = .ok d →
        c.answerOf? fold a args = some d) ↔
      (a.routeKeys.Nodup → c.Agrees fold a) := by
  have hknown : (∃ inherited, a.method.Qualifies inherited) ∧
      (a.protocol = none ∨ a.protocol = some secureProtocol) := by
    obtain ⟨symbol, _, rfl⟩ := mem_all.mp hc
    exact of_mem_actions_ofClass ha
  obtain ⟨⟨inherited, hqualifies⟩, hsecure⟩ := hknown
  have hfree : ∀ p ∈ a.parameters, isIdentityKey p.routeKey = false :=
    fun _ hp => hqualifies.isIdentityKey_eq_false hp
  have hprotocol : ∀ protocol, a.protocol = some protocol → protocol.isEmpty = false := by
    rintro protocol hsome
    rcases hsecure with hnone | hsecure
    · simp [hnone] at hsome
    · obtain rfl := Option.some.inj (hsecure.symm.trans hsome)
      decide
  constructor
  · intro hsame hnodup
    apply agrees_of_answerOf?_null hprotocol hnodup
    apply hsame _ _ List.length_replicate
    rw [describe_memberName hc ha]
    exact Action.describe_eq_ok List.length_replicate hfree hnodup
  · intro hagrees args d hlength hdescribe
    rw [describe_memberName hc ha, Action.describe_eq_ok_iff hlength hfree] at hdescribe
    obtain ⟨hnodup, rfl⟩ := hdescribe
    exact answerOf?_eq_of_agrees hfold hprotocol hfree hlength hnodup (hagrees hnodup)

def overloadingFile : SourceFile :=
  .home [("Item", .action), ("Item",
    { MethodHead.action [{ name := "id", type := some "int" }] with
      attributes := ["[ActionName(\"by-id\")]"] })]

/-- For the first of the two there is no difference. -/
theorem answerOf?_eq_describe_first_overload :
    IgnoresCase Char.toLower ∧
      ∃ c ∈ all (Model.ofFiles [overloadingFile]), ∃ a ∈ c.actions, a.memberName = "Item" ∧
        ∀ args d, args.length = a.parameters.length → c.describe a.memberName args [] = .ok d →
          c.answerOf? Char.toLower a args = some d := by
  have hfound : ∃ c ∈ all (Model.ofFiles [overloadingFile]), ∃ a ∈ c.actions,
      a.memberName = "Item" ∧ c.Agrees Char.toLower a := by decide
  obtain ⟨c, hc, a, ha, hname, hagrees⟩ := hfound
  exact ⟨ignoresCase_toLower, c, hc, a, ha, hname,
    (answerOf?_eq_describe_iff ignoresCase_toLower hc ha).mpr fun _ => hagrees⟩

/-- The override of the second has the route name of the first. -/
theorem answerOf?_ne_describe_second_overload :
    ∃ c ∈ all (Model.ofFiles [overloadingFile]), ∃ a ∈ c.actions, a.memberName = "Item1" ∧
      (c.describe a.memberName [.int 1] []).toOption.map (·.action) = some "by-id" ∧
      (c.answerOf? Char.toLower a [.int 1]).map (·.action) = some "Item" := by
  decide

end Controller

end RouteLinks
