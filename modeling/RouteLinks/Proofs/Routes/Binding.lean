import RouteLinks.Proofs.Routes.Descriptor
import RouteLinks.Proofs.Routes.IntegerDefault
import RouteLinks.Routes.Action
/-!
# How a call binds its arguments

A call gives values to the first parameters by position and to others by name; what is left takes
its default. So what a call says is a list of names with values, in which it does not matter what
was given in which way. The call describes a link if this list has no name twice, names nothing but
parameters, and leaves out no parameter without a default that can be read; and then the link has
the values in the order of the parameters. Every other call is refused, and for its arguments unless
it is for a default.
-/

namespace RouteLinks

def CallError.isMisuse : CallError → Bool
  | .refusedValue _ | .badDefault _ | .unknownMember _ _ => false
  | _ => true

namespace Action

variable {a : Action} {bound : Binding} {d e : Descriptor} {parameters : List Parameter}
  {area controller : String} {args : List RouteValue} {named : List (String × RouteValue)}

/-! ### Parameters -/

def names (a : Action) : List String := a.parameters.map (·.name)

def routeKeys (a : Action) : List String := a.parameters.map Parameter.routeKey

def identity (a : Action) (area controller : String) : Descriptor :=
  .ofIdentity a.shape.kind (some area) controller a.routeName a.protocol

theorem nodup_keys_identity : (a.identity area controller).keys.Nodup :=
  List.nodup_nil

theorem nodup_names (h : a.routeKeys.Nodup) : a.names.Nodup := by
  rw [routeKeys, List.Nodup, List.pairwise_map] at h
  rw [names, List.Nodup, List.pairwise_map]
  refine h.imp fun {p q} hne hname => hne ?_
  rw [Parameter.routeKey, Parameter.routeKey, hname]

/-- What a call says: names with values, the first of them by position. -/
def bindings (a : Action) (args : List RouteValue) (named : List (String × RouteValue)) : Binding :=
  a.names.zip args ++ named

theorem map_fst_zip_names (hlength : args.length ≤ a.parameters.length) :
    (a.names.zip args).map Prod.fst = a.names.take args.length := by
  rw [List.zip_eq_zip_take_min, List.map_fst_zip] <;> simp [names, hlength]

theorem mem_zip_names {p : Parameter} {value : RouteValue}
    (h : (p, value) ∈ a.parameters.zip args) : (p.name, value) ∈ a.names.zip args := by
  rw [names, List.zip_map_left]
  exact List.mem_map_of_mem (f := Prod.map Parameter.name id) h

/-! ### Names -/

theorem find?_eq_none_iff {name : String} :
    Binding.find? bound name = none ↔ name ∉ bound.map Prod.fst := by
  rw [Binding.find?, ← Option.not_isSome_iff_eq_none, lookup_isSome_iff, List.map_reverse,
    List.mem_reverse]

theorem find?_eq_some_iff (hbound : (bound.map Prod.fst).Nodup) {name : String}
    {value : RouteValue} : Binding.find? bound name = some value ↔ (name, value) ∈ bound := by
  rw [Binding.find?, lookup_eq_some_iff_of_nodup, List.mem_reverse]
  rwa [List.map_reverse, List.nodup_reverse]

theorem bindNamed_cons (a : Action) (bound : Binding) (entry : String × RouteValue)
    (rest : List (String × RouteValue)) :
    a.bindNamed bound (entry :: rest) =
      if entry.1 ∉ a.names then .error (.unexpectedArgument a.name entry.1)
      else if entry.1 ∈ bound.map Prod.fst then .error (.repeatedArgument a.name entry.1)
      else a.bindNamed (bound ++ [entry]) rest := by
  have hname : (!a.parameters.any (·.name == entry.1)) = true ↔ entry.1 ∉ a.names := by
    simp [names]
  have hpresent : (Binding.find? bound entry.1).isSome = true ↔ entry.1 ∈ bound.map Prod.fst := by
    rw [Binding.find?, lookup_isSome_iff, List.map_reverse, List.mem_reverse]
  rw [bindNamed]
  simp only [hname, hpresent]

/-- Named arguments are bound if each names a parameter, and none is bound already. -/
theorem bindNamed_eq_ok_iff {result : Binding} :
    a.bindNamed bound named = .ok result ↔
      (∀ entry ∈ named, entry.1 ∈ a.names) ∧ (named.map Prod.fst).Nodup ∧
        (bound.map Prod.fst).Disjoint (named.map Prod.fst) ∧ result = bound ++ named := by
  induction named generalizing bound with
  | nil => simp [bindNamed, eq_comm]
  | cons entry rest ih =>
      rw [bindNamed_cons, List.forall_mem_cons, List.map_cons, List.nodup_cons,
        List.disjoint_cons_right]
      split_ifs with hknown hpresent
      · exact iff_of_false (fun h => nomatch h) fun h => h.2.2.1.1 hpresent
      · rw [ih, List.map_append, List.disjoint_append_left, List.map_singleton,
          List.singleton_disjoint, List.append_assoc, List.singleton_append]
        tauto
      · exact iff_of_false (fun h => nomatch h) fun h => hknown h.1.1

/-! ### Values -/

/-- Where a parameter has its value from: from what a call says, or else from its default. -/
def Supplies (b : Binding) (p : Parameter) (value : RouteValue) : Prop :=
  (p.name, value) ∈ b ∨
    p.name ∉ b.map Prod.fst ∧ ∃ text, p.default = some text ∧ Literal.value text = .ok value

theorem argument_eq_ok_iff (hbound : (bound.map Prod.fst).Nodup) {p : Parameter}
    {value : RouteValue} : a.argument bound p = .ok value ↔ Supplies bound p value := by
  unfold argument Supplies
  cases hfound : Binding.find? bound p.name with
  | some given =>
      have hmem := (find?_eq_some_iff hbound).mp hfound
      have hpresent : p.name ∈ bound.map Prod.fst := List.mem_map_of_mem hmem
      simp [hpresent, eq_comm, ← find?_eq_some_iff hbound, hfound]
  | none =>
      have hpresent := find?_eq_none_iff.mp hfound
      have hmem : (p.name, value) ∉ bound := fun hmem => hpresent (List.mem_map_of_mem hmem)
      cases p.default with
      | none => simp [hpresent, hmem]
      | some text =>
          cases hvalue : Literal.value text <;> simp [hpresent, hmem, hvalue, Except.mapError]

/-- A parameter has a value unless a call leaves it out and its default cannot be read. -/
theorem exists_supplies_iff {p : Parameter} : (∃ value, Supplies bound p value) ↔
    p.name ∈ bound.map Prod.fst ∨
      ∃ text value, p.default = some text ∧ Literal.value text = .ok value := by
  by_cases hpresent : p.name ∈ bound.map Prod.fst
  · obtain ⟨entry, hentry, hname⟩ := List.mem_map.mp hpresent
    exact iff_of_true ⟨entry.2, .inl (hname ▸ hentry)⟩ (.inl hpresent)
  · have habsent (value : RouteValue) : (p.name, value) ∉ bound :=
      fun hmem => hpresent (List.mem_map_of_mem hmem)
    simp only [Supplies, habsent, hpresent, not_false_eq_true, true_and, false_or]
    exact exists_comm

theorem argument_eq_error_iff {p : Parameter} {problem : CallError} :
    a.argument bound p = .error problem ↔ p.name ∉ bound.map Prod.fst ∧
      (p.default = none ∧ problem = .missingArgument a.name p.name ∨
        ∃ text error, p.default = some text ∧ Literal.value text = .error error ∧
          problem = .badDefault error) := by
  rw [argument, ← find?_eq_none_iff]
  cases Binding.find? bound p.name with
  | some given => simp
  | none =>
      cases p.default with
      | none => simp [eq_comm]
      | some text => cases hvalue : Literal.value text <;> simp [hvalue, Except.mapError, eq_comm]

theorem addArguments_cons (a : Action) (bound : Binding) (d : Descriptor) (p : Parameter)
    (rest : List Parameter) :
    a.addArguments bound d (p :: rest) =
      (a.argument bound p).bind fun value =>
        match d.refusal? p.routeKey with
        | some reason => .error (.refusedValue reason)
        | none => a.addArguments bound (d.withParameters [(p.routeKey, value)]) rest := by
  rw [addArguments]
  cases a.argument bound p with
  | error problem => rfl
  | ok value =>
      dsimp only [Except.bind]
      rw [Descriptor.add_eq]
      cases d.refusal? p.routeKey <;> rfl

theorem addArguments_cons_eq_ok_iff {p : Parameter} {rest : List Parameter} :
    a.addArguments bound d (p :: rest) = .ok e ↔
      d.refusal? p.routeKey = none ∧ ∃ value, a.argument bound p = .ok value ∧
        a.addArguments bound (d.withParameters [(p.routeKey, value)]) rest = .ok e := by
  rw [addArguments_cons]
  cases a.argument bound p with
  | error problem => simp [Except.bind]
  | ok value => cases d.refusal? p.routeKey <;> simp [Except.bind]

/-- The values of parameters are added if all of them have one, and no key is taken. -/
theorem addArguments_eq_ok_iff (hkeys : d.keys.Nodup) :
    a.addArguments bound d parameters = .ok e ↔
      (∀ p ∈ parameters, isIdentityKey p.routeKey = false) ∧
        (d.keys ++ parameters.map Parameter.routeKey).Nodup ∧
          ∃ values, List.Forall₂ (fun p value => a.argument bound p = .ok value) parameters values ∧
            e = d.withParameters ((parameters.map Parameter.routeKey).zip values) := by
  induction parameters generalizing d with
  | nil =>
      rw [addArguments, Except.ok.injEq]
      constructor
      · rintro rfl
        refine ⟨(fun _ h => nomatch h), ?_, [], List.Forall₂.nil, ?_⟩
        · rwa [List.map_nil, List.append_nil]
        · simp [Descriptor.withParameters]
      · rintro ⟨-, -, _, hvalues, rfl⟩
        cases hvalues
        simp [Descriptor.withParameters]
  | cons p rest ih =>
      rw [addArguments_cons_eq_ok_iff, List.forall_mem_cons, List.map_cons, List.append_cons]
      constructor
      · rintro ⟨hkey, value, hvalue, hrest⟩
        obtain ⟨hidentity, hnew⟩ := Descriptor.refusal?_eq_none_iff.mp hkey
        obtain ⟨hfree, hnodup, values, hvalues, rfl⟩ :=
          (ih (Descriptor.nodup_keys_withParameters hkeys hnew)).mp hrest
        rw [Descriptor.keys_withParameters_singleton] at hnodup
        refine ⟨⟨hidentity, hfree⟩, hnodup, value :: values, .cons hvalue hvalues, ?_⟩
        rw [← Descriptor.withParameters_append]
        rfl
      · rintro ⟨⟨hidentity, hfree⟩, hnodup, values, hvalues, rfl⟩
        cases hvalues with
        | cons hvalue hvalues =>
          have hnew : p.routeKey ∉ d.keys := fun hmem =>
            List.disjoint_of_nodup_append (List.Nodup.of_append_left hnodup) hmem
              (List.mem_singleton_self _)
          refine ⟨Descriptor.refusal?_eq_none_iff.mpr ⟨hidentity, hnew⟩, _, hvalue,
            (ih (Descriptor.nodup_keys_withParameters hkeys hnew)).mpr ⟨hfree, ?_, _, hvalues, ?_⟩⟩
          · rwa [Descriptor.keys_withParameters_singleton]
          · rw [← Descriptor.withParameters_append]
            rfl

/-- Where no key is taken, values are only refused for want of one. -/
theorem exists_argument_eq_error (hfree : ∀ p ∈ parameters, isIdentityKey p.routeKey = false)
    (hkeys : (d.keys ++ parameters.map Parameter.routeKey).Nodup) {problem : CallError}
    (h : a.addArguments bound d parameters = .error problem) :
    ∃ p ∈ parameters, a.argument bound p = .error problem := by
  induction parameters generalizing d with
  | nil => cases h
  | cons p rest ih =>
      obtain ⟨hidentity, hfree⟩ := List.forall_mem_cons.mp hfree
      rw [List.map_cons, List.append_cons] at hkeys
      have hnew : p.routeKey ∉ d.keys := fun hmem =>
        List.disjoint_of_nodup_append (List.Nodup.of_append_left hkeys) hmem
          (List.mem_singleton_self _)
      rw [addArguments_cons, Descriptor.refusal?_eq_none_iff.mpr ⟨hidentity, hnew⟩] at h
      cases hargument : a.argument bound p with
      | error missing =>
          rw [hargument] at h
          cases h
          exact ⟨p, List.mem_cons_self, hargument⟩
      | ok value =>
          rw [hargument] at h
          obtain ⟨q, hq, herror⟩ := ih hfree (by rwa [Descriptor.keys_withParameters_singleton]) h
          exact ⟨q, List.mem_cons_of_mem _ hq, herror⟩

/-! ### Descriptions -/

theorem describe_eq (a : Action) (area controller : String) (args : List RouteValue)
    (named : List (String × RouteValue)) :
    a.describe area controller args named =
      match named.find? fun (key, _) => reservedNames.contains key with
      | some (key, _) => .error (.reservedArgument "RoutedMethod" key)
      | none =>
        if a.parameters.length < args.length then
          .error (.tooManyArguments a.name a.parameters.length args.length)
        else (a.bindNamed (a.names.zip args) named).bind fun bound =>
          a.addArguments bound (a.identity area controller) a.parameters := by
  unfold describe
  cases named.find? fun (key, _) => reservedNames.contains key with
  | some entry => rfl
  | none =>
      dsimp only
      split
      · rfl
      · change _ = (a.bindNamed ((a.parameters.map (·.name)).zip args) named).bind _
        cases a.bindNamed ((a.parameters.map (·.name)).zip args) named <;> rfl

theorem map_fst_bindings (hlength : args.length ≤ a.parameters.length) :
    (a.bindings args named).map Prod.fst = a.names.take args.length ++ named.map Prod.fst := by
  rw [bindings, List.map_append, map_fst_zip_names hlength]

theorem mem_names_bindings :
    (∀ entry ∈ a.bindings args named, entry.1 ∈ a.names) ↔ ∀ entry ∈ named, entry.1 ∈ a.names := by
  rw [bindings, List.forall_mem_append]
  exact and_iff_right fun entry hentry => (List.of_mem_zip hentry).1

theorem nodup_bindings_iff (hlength : args.length ≤ a.parameters.length) (hnames : a.names.Nodup) :
    ((a.bindings args named).map Prod.fst).Nodup ↔
      (named.map Prod.fst).Nodup ∧
        ((a.names.zip args).map Prod.fst).Disjoint (named.map Prod.fst) := by
  rw [map_fst_bindings hlength, map_fst_zip_names hlength, List.nodup_append', and_iff_right]
  exact hnames.sublist (List.take_sublist _ _)

/-- What the parameters of an action have to be like so that a call can say everything: their keys
are different from one another and from those of the identity, and no name is for something else.
Their names are different then as well. -/
structure IsCallable (a : Action) : Prop where
  nodup_keys : a.routeKeys.Nodup
  free : ∀ p ∈ a.parameters, isIdentityKey p.routeKey = false
  unreserved : ∀ p ∈ a.parameters, p.name ∉ reservedNames

theorem find?_reserved_eq_none (h : a.IsCallable) (hknown : ∀ entry ∈ named, entry.1 ∈ a.names) :
    (named.find? fun (key, _) => reservedNames.contains key) = none := by
  rw [List.find?_eq_none]
  intro entry hentry hreserved
  obtain ⟨p, hp, hname⟩ := List.mem_map.mp (hknown entry hentry)
  exact h.unreserved p hp (hname ▸ List.contains_iff_mem.mp hreserved)

/-- A call describes a link if what it says names parameters, none of them twice, and each parameter
has a value. -/
theorem describe_eq_ok_iff_bindings (h : a.IsCallable) :
    a.describe area controller args named = .ok d ↔
      args.length ≤ a.parameters.length ∧
        (∀ entry ∈ a.bindings args named, entry.1 ∈ a.names) ∧
          ((a.bindings args named).map Prod.fst).Nodup ∧
            ∃ values, List.Forall₂ (Supplies (a.bindings args named)) a.parameters values ∧
              d = (a.identity area controller).withParameters (a.routeKeys.zip values) := by
  have hempty : (a.identity area controller).keys = [] := rfl
  have hadded (hbound : ((a.bindings args named).map Prod.fst).Nodup) :
      a.addArguments (a.bindings args named) (a.identity area controller) a.parameters = .ok d ↔
        ∃ values, List.Forall₂ (Supplies (a.bindings args named)) a.parameters values ∧
          d = (a.identity area controller).withParameters (a.routeKeys.zip values) := by
    rw [addArguments_eq_ok_iff nodup_keys_identity, hempty, List.nil_append,
      and_iff_right h.free, ← routeKeys, and_iff_right h.nodup_keys]
    simp only [argument_eq_ok_iff hbound]
  have hnames := nodup_names h.nodup_keys
  constructor
  · intro hdescribe
    rw [describe_eq] at hdescribe
    split at hdescribe
    · cases hdescribe
    · split at hdescribe
      · cases hdescribe
      · next hfits =>
        have hlength : args.length ≤ a.parameters.length := Nat.le_of_not_lt hfits
        cases hbind : a.bindNamed (a.names.zip args) named with
        | error problem =>
            rw [hbind] at hdescribe
            cases hdescribe
        | ok bound =>
            rw [hbind] at hdescribe
            obtain ⟨hknown, hnamed, hdisjoint, rfl⟩ := bindNamed_eq_ok_iff.mp hbind
            have hbound := (nodup_bindings_iff hlength hnames).mpr ⟨hnamed, hdisjoint⟩
            exact ⟨hlength, mem_names_bindings.mpr hknown, hbound, (hadded hbound).mp hdescribe⟩
  · rintro ⟨hlength, hknown, hbound, hvalues⟩
    rw [mem_names_bindings] at hknown
    obtain ⟨hnamed, hdisjoint⟩ := (nodup_bindings_iff hlength hnames).mp hbound
    have hbind : a.bindNamed (a.names.zip args) named = .ok (a.bindings args named) :=
      bindNamed_eq_ok_iff.mpr ⟨hknown, hnamed, hdisjoint, rfl⟩
    rw [describe_eq, find?_reserved_eq_none h hknown]
    dsimp only
    rw [if_neg (Nat.not_lt.mpr hlength), hbind]
    exact (hadded hbound).mpr hvalues

theorem isMisuse_of_bindNamed {problem : CallError} (h : a.bindNamed bound named = .error problem) :
    problem.isMisuse = true := by
  induction named generalizing bound with
  | nil => cases h
  | cons entry rest ih =>
      rw [bindNamed_cons] at h
      split_ifs at h
      · cases h
        rfl
      · exact ih h
      · cases h
        rfl

def ReadsDefaults (a : Action) (args : List RouteValue) (named : List (String × RouteValue)) :
    Prop :=
  ∀ p ∈ a.parameters, p.name ∉ (a.bindings args named).map Prod.fst →
    ∀ text, p.default = some text → ∃ value, Literal.value text = .ok value

/-- A call whose defaults can be read is refused for its arguments alone. -/
theorem isMisuse_of_describe (h : a.IsCallable) (hread : a.ReadsDefaults args named)
    {problem : CallError} (hdescribe : a.describe area controller args named = .error problem) :
    problem.isMisuse = true := by
  rw [describe_eq] at hdescribe
  split at hdescribe
  · cases hdescribe
    rfl
  · split at hdescribe
    · cases hdescribe
      rfl
    · cases hbind : a.bindNamed (a.names.zip args) named with
      | error misuse =>
          rw [hbind] at hdescribe
          cases hdescribe
          exact isMisuse_of_bindNamed hbind
      | ok bound =>
          rw [hbind] at hdescribe
          obtain ⟨-, -, -, rfl⟩ := bindNamed_eq_ok_iff.mp hbind
          obtain ⟨p, hp, hargument⟩ := exists_argument_eq_error
            (d := a.identity area controller) h.free h.nodup_keys hdescribe
          obtain ⟨habsent, ⟨-, rfl⟩ | ⟨text, error, htext, herror, -⟩⟩ :=
            argument_eq_error_iff.mp hargument
          · rfl
          · obtain ⟨value, hvalue⟩ := hread p hp habsent text htext
            exact nomatch herror.symm.trans hvalue

/-! ### Calls -/

/-- Whether a call fits the parameters: there are not too many arguments by position, every argument
by name is for one of the parameters behind these, and what is left has a default. -/
structure Fits (a : Action) (args : List RouteValue) (named : List (String × RouteValue)) :
    Prop where
  length_le : args.length ≤ a.parameters.length
  unplaced : ∀ entry ∈ named, ∃ p ∈ a.parameters.drop args.length, p.name = entry.1
  supplied : ∀ p ∈ a.parameters.drop args.length,
    p.name ∈ named.map Prod.fst ∨ p.default.isSome = true

theorem mem_names_take_or_drop {n : Nat} {name : String} (h : name ∈ a.names) :
    name ∈ a.names.take n ∨ ∃ p ∈ a.parameters.drop n, p.name = name := by
  rw [← List.take_append_drop n a.names, List.mem_append] at h
  refine h.imp_right fun hdrop => ?_
  rwa [names, ← List.map_drop, List.mem_map] at hdrop

theorem not_mem_names_take (hnames : a.names.Nodup) {n : Nat} {p : Parameter}
    (hp : p ∈ a.parameters.drop n) : p.name ∉ a.names.take n := by
  intro htake
  refine List.disjoint_take_drop hnames (Nat.le_refl n) htake ?_
  rw [names, ← List.map_drop]
  exact List.mem_map_of_mem hp

/-- A call fits if what it says names parameters, none of them twice, and each parameter is named or
has a default. -/
theorem fits_iff (h : a.IsCallable) (hnamed : (named.map Prod.fst).Nodup) :
    a.Fits args named ↔
      args.length ≤ a.parameters.length ∧
        (∀ entry ∈ a.bindings args named, entry.1 ∈ a.names) ∧
          ((a.bindings args named).map Prod.fst).Nodup ∧
            ∀ p ∈ a.parameters,
              p.name ∈ (a.bindings args named).map Prod.fst ∨ p.default.isSome = true := by
  have hnames := nodup_names h.nodup_keys
  constructor
  · intro hfits
    have hlength := hfits.length_le
    refine ⟨hlength, mem_names_bindings.mpr fun entry hentry => ?_,
      (nodup_bindings_iff hlength hnames).mpr ⟨hnamed, ?_⟩, fun p hp => ?_⟩
    · obtain ⟨p, hp, hname⟩ := hfits.unplaced entry hentry
      exact hname ▸ List.mem_map_of_mem (List.mem_of_mem_drop hp)
    · rw [map_fst_zip_names hlength]
      intro name htake hname
      obtain ⟨entry, hentry, rfl⟩ := List.mem_map.mp hname
      obtain ⟨p, hp, hname⟩ := hfits.unplaced entry hentry
      exact not_mem_names_take hnames hp (hname ▸ htake)
    · rw [map_fst_bindings hlength, List.mem_append, or_assoc]
      rw [← List.take_append_drop args.length a.parameters, List.mem_append] at hp
      refine hp.imp (fun htake => ?_) (hfits.supplied p)
      rw [names, ← List.map_take]
      exact List.mem_map_of_mem htake
  · rintro ⟨hlength, hknown, hbound, hgiven⟩
    have hdisjoint := ((nodup_bindings_iff hlength hnames).mp hbound).2
    rw [map_fst_zip_names hlength] at hdisjoint
    refine ⟨hlength, fun entry hentry => ?_, fun p hp => ?_⟩
    · refine (mem_names_take_or_drop (mem_names_bindings.mp hknown entry hentry)).resolve_left ?_
      exact fun htake => hdisjoint htake (List.mem_map_of_mem hentry)
    · refine (hgiven p (List.mem_of_mem_drop hp)).imp_left fun hmem => ?_
      rw [map_fst_bindings hlength, List.mem_append] at hmem
      exact hmem.resolve_left (not_mem_names_take hnames hp)

/-- Every parameter of a call that fits has a value, if the defaults can be read. -/
theorem Fits.exists_supplies (h : a.Fits args named) (hcallable : a.IsCallable)
    (hnamed : (named.map Prod.fst).Nodup) (hread : a.ReadsDefaults args named) {p : Parameter}
    (hp : p ∈ a.parameters) : ∃ value, Supplies (a.bindings args named) p value := by
  have hgiven := ((fits_iff hcallable hnamed).mp h).2.2.2 p hp
  rw [exists_supplies_iff]
  by_cases hpresent : p.name ∈ (a.bindings args named).map Prod.fst
  · exact .inl hpresent
  · obtain ⟨text, htext⟩ := Option.isSome_iff_exists.mp (hgiven.resolve_left hpresent)
    obtain ⟨value, hvalue⟩ := hread p hp hpresent text htext
    exact .inr ⟨text, value, htext, hvalue⟩

/-- A call that fits is refused for a default alone. -/
theorem Fits.exists_badDefault (h : a.Fits args named) (hcallable : a.IsCallable)
    (hnamed : (named.map Prod.fst).Nodup) {problem : CallError}
    (hdescribe : a.describe area controller args named = .error problem) :
    ∃ error, problem = .badDefault error := by
  obtain ⟨hlength, hknown, hbound, hgiven⟩ := (fits_iff hcallable hnamed).mp h
  rw [mem_names_bindings] at hknown
  obtain ⟨-, hdisjoint⟩ := (nodup_bindings_iff hlength (nodup_names hcallable.nodup_keys)).mp hbound
  have hbind : a.bindNamed (a.names.zip args) named = .ok (a.bindings args named) :=
    bindNamed_eq_ok_iff.mpr ⟨hknown, hnamed, hdisjoint, rfl⟩
  rw [describe_eq, find?_reserved_eq_none hcallable hknown] at hdescribe
  dsimp only at hdescribe
  rw [if_neg (Nat.not_lt.mpr hlength), hbind] at hdescribe
  obtain ⟨p, hp, hargument⟩ := exists_argument_eq_error
    (d := a.identity area controller) hcallable.free hcallable.nodup_keys hdescribe
  obtain ⟨habsent, ⟨hnone, -⟩ | ⟨_, error, -, -, hproblem⟩⟩ := argument_eq_error_iff.mp hargument
  · exact absurd ((hgiven p hp).resolve_left habsent) (by rw [hnone]; decide)
  · exact ⟨error, hproblem⟩

theorem exists_forall₂_supplies (h : ∀ p ∈ parameters, ∃ value, Supplies bound p value) :
    ∃ values, List.Forall₂ (Supplies bound) parameters values := by
  induction parameters with
  | nil => exact ⟨[], .nil⟩
  | cons p rest ih =>
      obtain ⟨⟨value, hvalue⟩, hrest⟩ := List.forall_mem_cons.mp h
      obtain ⟨values, hvalues⟩ := ih hrest
      exact ⟨value :: values, .cons hvalue hvalues⟩

theorem supplies_congr {other : Binding} (h : other.Perm bound) :
    Supplies other = Supplies bound := by
  funext p value
  simp only [Supplies, h.mem_iff, (h.map Prod.fst).mem_iff]

/-- Calls that say the same describe the same link, if there is one. -/
theorem toOption_describe_congr (h : a.IsCallable) {args' : List RouteValue}
    {named' : List (String × RouteValue)} (hlength : args.length ≤ a.parameters.length)
    (hlength' : args'.length ≤ a.parameters.length)
    (hsame : (a.bindings args' named').Perm (a.bindings args named)) :
    (a.describe area controller args' named').toOption =
      (a.describe area controller args named).toOption := by
  have hiff (d : Descriptor) : a.describe area controller args' named' = .ok d ↔
      a.describe area controller args named = .ok d := by
    rw [describe_eq_ok_iff_bindings h, describe_eq_ok_iff_bindings h, supplies_congr hsame,
      (hsame.map Prod.fst).nodup_iff, and_iff_right hlength, and_iff_right hlength']
    simp only [hsame.mem_iff]
  cases hdescribe : a.describe area controller args named with
  | ok d => rw [(hiff d).mpr hdescribe]
  | error problem =>
      cases hother : a.describe area controller args' named' with
      | ok d => exact nomatch hdescribe.symm.trans ((hiff d).mp hother)
      | error => rfl

theorem readsDefaults_of_describe (h : a.IsCallable)
    (hdescribe : a.describe area controller args named = .ok d) : a.ReadsDefaults args named := by
  obtain ⟨-, -, -, values, hvalues, -⟩ := (describe_eq_ok_iff_bindings h).mp hdescribe
  intro p hp habsent text htext
  obtain ⟨i, hi, rfl⟩ := List.getElem_of_mem hp
  have hvalue := hvalues.get hi (hvalues.length_eq ▸ hi)
  obtain hpresent | ⟨taken, value, htaken, hvalue⟩ := exists_supplies_iff.mp ⟨_, hvalue⟩
  · exact absurd hpresent habsent
  · rw [List.get_eq_getElem, htext, Option.some.injEq] at htaken
    exact ⟨value, htaken ▸ hvalue⟩

/-- A call that fits describes the link that has the identity of the action, and in the order of the
parameters their values: what the call says, and defaults for the rest; only a default that cannot
be read is in the way. Any other call is refused, and for its arguments unless it is for a default.
How a call says what it says does not matter: the arguments by name are in any order, and those of
the first parameters may be given by position. -/
theorem describe_binding (h : a.IsCallable) (hnamed : (named.map Prod.fst).Nodup) :
    (a.Fits args named → a.ReadsDefaults args named → ∃ values,
        List.Forall₂ (Supplies (a.bindings args named)) a.parameters values ∧
          a.describe area controller args named =
            .ok ((a.identity area controller).withParameters (a.routeKeys.zip values))) ∧
      (a.Fits args named → ¬a.ReadsDefaults args named → ∃ error,
        a.describe area controller args named = .error (.badDefault error)) ∧
      (¬a.Fits args named → ∃ problem, a.describe area controller args named = .error problem ∧
        (a.ReadsDefaults args named → problem.isMisuse = true)) ∧
      ∀ args' named', args.length ≤ a.parameters.length → args'.length ≤ a.parameters.length →
        (a.bindings args' named').Perm (a.bindings args named) →
          (a.describe area controller args' named').toOption =
            (a.describe area controller args named).toOption := by
  refine ⟨fun hfits hread => ?_, fun hfits hstuck => ?_, fun hmisfit => ?_,
    fun args' named' hlength hlength' hsame => toOption_describe_congr h hlength hlength' hsame⟩
  · obtain ⟨hlength, hknown, hbound, -⟩ := (fits_iff h hnamed).mp hfits
    obtain ⟨values, hvalues⟩ :=
      exists_forall₂_supplies fun p hp => hfits.exists_supplies h hnamed hread hp
    exact ⟨values, hvalues, (describe_eq_ok_iff_bindings h).mpr
      ⟨hlength, hknown, hbound, values, hvalues, rfl⟩⟩
  · cases hdescribe : a.describe area controller args named with
    | ok d => exact absurd (readsDefaults_of_describe h hdescribe) hstuck
    | error problem =>
        obtain ⟨error, rfl⟩ := hfits.exists_badDefault h hnamed hdescribe
        exact ⟨error, rfl⟩
  · cases hdescribe : a.describe area controller args named with
    | error problem => exact ⟨problem, rfl, fun hread => isMisuse_of_describe h hread hdescribe⟩
    | ok d =>
        obtain ⟨hlength, hknown, hbound, values, hvalues, -⟩ :=
          (describe_eq_ok_iff_bindings h).mp hdescribe
        refine absurd ((fits_iff h hnamed).mpr ⟨hlength, hknown, hbound, fun p hp => ?_⟩) hmisfit
        obtain ⟨i, hi, rfl⟩ := List.getElem_of_mem hp
        have hvalue := hvalues.get hi (hvalues.length_eq ▸ hi)
        refine (exists_supplies_iff.mp ⟨_, hvalue⟩).imp_right fun ⟨text, _, htext, _⟩ => ?_
        rw [List.get_eq_getElem] at htext
        rw [htext]
        rfl

def listing : Action where
  method :=
    { name := "List", containingClass := "ShopController", filePath := "Shop.cs"
      parameters :=
        [{ name := "id", type := some "int" },
         { name := "page", type := some "int", default := some "1" },
         { name := "@class", type := some "string", default := some "\"all\"" }] }
  memberName := "List"
  routeName := "list"
  shape := { kind := .generic, resultType := "ActionResult", isAsync := false }

/-- Only the last parameter is given by name, and the one before it has its default. -/
theorem describe_listing : listing.IsCallable ∧
    ∃ values, List.Forall₂ (Supplies (listing.bindings [.int 7] [("@class", .text "new")]))
        listing.parameters values ∧
      listing.describe "Shop" "Home" [.int 7] [("@class", .text "new")] =
        .ok ((listing.identity "Shop" "Home").withParameters (listing.routeKeys.zip values)) := by
  have hcallable : listing.IsCallable := ⟨by decide, by decide, by decide⟩
  have hnamed : ([("@class", RouteValue.text "new")].map Prod.fst).Nodup := by decide
  have hfits : listing.Fits [.int 7] [("@class", .text "new")] :=
    ⟨by decide, by decide, by decide⟩
  have hpage : ∃ value, Literal.value "1" = .ok value := ⟨_, rfl⟩
  have hclass : ∃ value, Literal.value "\"all\"" = .ok value := ⟨_, rfl⟩
  have hread : listing.ReadsDefaults [.int 7] [("@class", .text "new")] := by
    intro p hp _ text htext
    simp only [listing, parameters, List.mem_cons, List.not_mem_nil, or_false] at hp
    obtain rfl | rfl | rfl := hp
    · cases htext
    · exact Option.some.inj htext ▸ hpage
    · exact Option.some.inj htext ▸ hclass
  exact ⟨hcallable, (describe_binding hcallable hnamed).1 hfits hread⟩

example : (listing.describe "Shop" "Home" [.int 7] [("@class", .text "new")]).toOption =
    some ((listing.identity "Shop" "Home").withParameters
      [("id", .int 7), ("page", .int 1), ("class", .text "new")]) := rfl

def counting : Action where
  method :=
    { name := "Count", containingClass := "ShopController", filePath := "Shop.cs"
      parameters := [{ name := "from", type := some "BigInteger"
                       default := some (Literal.integerText .none Literal.overlongDigits "") }] }
  memberName := "Count"
  routeName := "Count"
  shape := { kind := .generic, resultType := "ActionResult", isAsync := false }

/-- A call without arguments fits, and is refused for the default. -/
theorem describe_counting : counting.IsCallable ∧ counting.Fits [] [] ∧
    ∃ error, counting.describe "" "Shop" [] [] = .error (.badDefault error) := by
  have hcallable : counting.IsCallable := ⟨by decide, by decide, by decide⟩
  have hfits : counting.Fits [] [] := ⟨by decide, by decide, by decide⟩
  refine ⟨hcallable, hfits, ?_⟩
  obtain ⟨hdigits, hover⟩ := Literal.isMagnitude_overlongDigits
  have hsuffix : "" ∈ Literal.integerSuffixes := by decide
  have hvalue := Literal.value_integerText .none hdigits hsuffix
  rw [Literal.readAs, if_pos hover] at hvalue
  cases hdescribe : counting.describe "" "Shop" [] [] with
  | error problem =>
      obtain ⟨error, rfl⟩ := hfits.exists_badDefault hcallable (by decide) hdescribe
      exact ⟨error, rfl⟩
  | ok d =>
      obtain ⟨value, hok⟩ := readsDefaults_of_describe hcallable hdescribe _ List.mem_cons_self
        List.not_mem_nil _ rfl
      cases hvalue.symm.trans hok

/-! ### Calls with an argument for each parameter -/

theorem map_fst_zip_parameters (hlength : args.length = a.parameters.length) :
    (a.parameters.zip args).map Prod.fst = a.parameters :=
  List.map_fst_zip (by omega)

theorem describe_eq_addArguments (hlength : args.length = a.parameters.length) :
    a.describe area controller args [] =
      a.addArguments (a.names.zip args) (a.identity area controller) a.parameters := by
  rw [describe_eq, List.find?_nil]
  dsimp only
  rw [if_neg (by omega)]
  rfl

theorem forall₂_argument (hlength : args.length = a.parameters.length) (hnames : a.names.Nodup) :
    List.Forall₂ (fun p value => a.argument (a.names.zip args) p = .ok value) a.parameters
      args := by
  rw [List.forall₂_iff_zip]
  refine ⟨hlength.symm, fun hmem => (argument_eq_ok_iff ?_).mpr (.inl (mem_zip_names hmem))⟩
  rw [map_fst_zip_names hlength.le]
  exact hnames.sublist (List.take_sublist _ _)

theorem describe_eq_ok (hlength : args.length = a.parameters.length)
    (hfree : ∀ p ∈ a.parameters, isIdentityKey p.routeKey = false) (hnodup : a.routeKeys.Nodup) :
    a.describe area controller args [] =
      .ok ((a.identity area controller).withParameters (a.routeKeys.zip args)) := by
  rw [describe_eq_addArguments hlength, addArguments_eq_ok_iff nodup_keys_identity]
  exact ⟨hfree, hnodup, args, forall₂_argument hlength (nodup_names hnodup), rfl⟩

/-- With an argument for each parameter, a description has all of them, if no two parameters have
the same key. -/
theorem describe_eq_ok_iff (hlength : args.length = a.parameters.length)
    (hfree : ∀ p ∈ a.parameters, isIdentityKey p.routeKey = false) :
    a.describe area controller args [] = .ok d ↔ a.routeKeys.Nodup ∧
      d = (a.identity area controller).withParameters (a.routeKeys.zip args) := by
  constructor
  · intro h
    have hadded := h
    rw [describe_eq_addArguments hlength, addArguments_eq_ok_iff nodup_keys_identity] at hadded
    have hnodup : a.routeKeys.Nodup := hadded.2.1
    rw [describe_eq_ok hlength hfree hnodup, Except.ok.injEq] at h
    exact ⟨hnodup, h.symm⟩
  · rintro ⟨hnodup, rfl⟩
    exact describe_eq_ok hlength hfree hnodup

end Action

end RouteLinks
