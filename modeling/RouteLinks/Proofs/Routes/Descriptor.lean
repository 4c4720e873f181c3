import Mathlib.Data.List.DropRight
import Mathlib.Data.List.Induction
import Mathlib.Data.List.Nodup
import RouteLinks.Proofs.Order
import RouteLinks.Routes.Descriptor
/-!
# Descriptors under calls

A descriptor is an object with two methods: one gives it a route identity and drops what it had, the
other adds a route value or refuses to. The methods write to the object field by field, and a method
that raises leaves behind what it has written. What the object is after any calls, the refused ones
included, is known from the calls and their answers: it has the identity that was given last, and
since then it has taken every value that was not refused. Because of what is refused, the identity
and the parameters never share a key, so that the route values are all of both.
-/

namespace RouteLinks.Descriptor

/-! ### Keys -/

def withParameters (d : Descriptor) (entries : List (String × RouteValue)) : Descriptor :=
  { d with parameters := d.parameters ++ entries }

def keys (d : Descriptor) : List String := d.parameters.map Prod.fst

theorem keys_withParameters_singleton (d : Descriptor) (key : String) (value : RouteValue) :
    (d.withParameters [(key, value)]).keys = d.keys ++ [key] := by
  simp [withParameters, keys]

theorem withParameters_append (d : Descriptor) (xs ys : List (String × RouteValue)) :
    d.withParameters (xs ++ ys) = (d.withParameters xs).withParameters ys := by
  simp [withParameters]

theorem nodup_keys_withParameters {d : Descriptor} {key : String} {value : RouteValue}
    (hnodup : d.keys.Nodup) (hnew : key ∉ d.keys) :
    (d.withParameters [(key, value)]).keys.Nodup := by
  rw [keys_withParameters_singleton, ← List.concat_eq_append]
  exact hnodup.concat hnew

theorem hasKey_iff {d : Descriptor} {key : String} : d.hasKey key = true ↔ key ∈ d.keys := by
  simp [hasKey, keys]

/-- Why a descriptor does not take a key, if it does not. -/
def refusal? (d : Descriptor) (key : String) : Option RouteValueError :=
  if Unicode.toLower key ∈ identityKeys then some (.replacesIdentity key)
  else if key ∈ d.keys then some (.duplicate key)
  else none

theorem isIdentityKey_iff {key : String} :
    isIdentityKey key = true ↔ Unicode.toLower key ∈ identityKeys :=
  List.contains_iff_mem

theorem refusal?_eq_none_iff {d : Descriptor} {key : String} :
    d.refusal? key = none ↔ isIdentityKey key = false ∧ key ∉ d.keys := by
  rw [refusal?, Bool.eq_false_iff, Ne, isIdentityKey_iff]
  split_ifs with hidentity hpresent <;> simp_all

theorem add_eq (d : Descriptor) (key : String) (value : RouteValue) :
    d.add key value =
      match d.refusal? key with
      | some reason => .error reason
      | none => .ok (d.withParameters [(key, value)]) := by
  unfold add refusal?
  simp only [isIdentityKey_iff, hasKey_iff]
  split_ifs <;> rfl

/-- The keys of a descriptor are different from one another and from those of the identity, which
are taken in every letter case. -/
structure WellKeyed (d : Descriptor) : Prop where
  nodup : d.keys.Nodup
  free : ∀ key ∈ d.keys, Unicode.toLower key ∉ identityKeys

theorem WellKeyed.ofIdentity (kind : ResultKind) (area : Option String) (controller action : String)
    (protocol : Option String) : (ofIdentity kind area controller action protocol).WellKeyed :=
  ⟨List.nodup_nil, fun _ h => nomatch h⟩

theorem WellKeyed.attach (d : Descriptor) (area : Option String) (controller action : String)
    (protocol : Option String) : (d.attach area controller action protocol).WellKeyed :=
  ⟨List.nodup_nil, fun _ h => nomatch h⟩

theorem WellKeyed.withParameters {d : Descriptor} (h : d.WellKeyed) {key : String}
    {value : RouteValue} (hkey : d.refusal? key = none) :
    (d.withParameters [(key, value)]).WellKeyed := by
  unfold refusal? at hkey
  split_ifs at hkey with hidentity hpresent
  refine ⟨nodup_keys_withParameters h.nodup hpresent, ?_⟩
  rw [keys_withParameters_singleton, List.forall_mem_append, List.forall_mem_singleton]
  exact ⟨h.free, hidentity⟩

/-! ### Route values -/

theorem foldl_upsert {entries more : List (String × RouteValue)}
    (h : (entries.map Prod.fst ++ more.map Prod.fst).Nodup) :
    more.foldl (fun values (key, value) => upsert key (fun _ => value) values) entries =
      entries ++ more := by
  induction more generalizing entries with
  | nil => rw [List.foldl_nil, List.append_nil]
  | cons entry rest ih =>
      rw [List.map_cons, List.append_cons] at h
      have hnew : entries.lookup entry.1 = none := by
        rw [List.lookup_eq_none_iff]
        rintro other hother
        rw [bne_iff_ne]
        rintro hsame
        exact List.disjoint_of_nodup_append (List.Nodup.of_append_left h)
          (List.mem_map_of_mem hother) (List.mem_singleton.mpr hsame.symm)
      rw [List.foldl_cons]
      dsimp only
      rw [upsert_of_lookup_eq_none hnew, ih, ← List.append_cons]
      rwa [List.map_append, List.map_singleton]

/-- No parameter takes the place of another value. -/
theorem WellKeyed.routeValues_eq {d : Descriptor} (h : d.WellKeyed) :
    d.routeValues = d.identity ++ d.parameters := by
  have hidentity : d.identity.map Prod.fst = identityKeys := rfl
  have hlower : ∀ key ∈ identityKeys, Unicode.toLower key = key := by decide
  refine foldl_upsert ?_
  rw [hidentity, List.nodup_append]
  refine ⟨by decide, h.nodup, ?_⟩
  rintro key hkey _ hmem rfl
  exact h.free key hmem ((hlower key hkey).symm ▸ hkey)

/-! ### Methods -/

/-- A method of a descriptor. It may raise, and what it has written by then stays written. -/
abbrev Update := ExceptT RouteValueError (StateM Descriptor) Unit

def attachRouteIdentity (area : Option String) (controller action : String)
    (protocol : Option String) : Update := do
  modify fun d => { d with area := area.getD "" }
  modify fun d => { d with controller }
  modify fun d => { d with action }
  modify fun d => { d with protocol }
  modify fun d => { d with parameters := [] }

def addRouteValue (key : String) (value : RouteValue) : Update := do
  if isIdentityKey key then
    throw (.replacesIdentity key)
  if (← get).hasKey key then
    throw (.duplicate key)
  modify fun d => { d with parameters := upsert key (fun _ => value) d.parameters }

theorem run_attachRouteIdentity (d : Descriptor) (area : Option String) (controller action : String)
    (protocol : Option String) :
    (attachRouteIdentity area controller action protocol).run.run d =
      (.ok (), d.attach area controller action protocol) :=
  rfl

theorem run_addRouteValue_eq_ite (d : Descriptor) (key : String) (value : RouteValue) :
    (addRouteValue key value).run.run d =
      if isIdentityKey key then (.error (.replacesIdentity key), d)
      else if d.hasKey key then (.error (.duplicate key), d)
      else (.ok (), { d with parameters := upsert key (fun _ => value) d.parameters }) := by
  unfold addRouteValue
  split
  · rfl
  · change (if d.hasKey key then throw (.duplicate key)
      else modify fun d => { d with parameters := upsert key (fun _ => value) d.parameters } :
        Update).run.run d = _
    split <;> rfl

/-- A value that is refused leaves the descriptor as it was. -/
theorem run_addRouteValue (d : Descriptor) (key : String) (value : RouteValue) :
    (addRouteValue key value).run.run d =
      match d.refusal? key with
      | some reason => (.error reason, d)
      | none => (.ok (), d.withParameters [(key, value)]) := by
  rw [run_addRouteValue_eq_ite]
  simp only [refusal?, isIdentityKey_iff, hasKey_iff]
  split_ifs with hidentity hpresent
  · rfl
  · rfl
  · have hnew : d.parameters.lookup key = none := by
      rw [List.lookup_eq_none_iff]
      intro entry hentry
      rw [bne_iff_ne]
      rintro rfl
      exact hpresent (List.mem_map_of_mem hentry)
    rw [upsert_of_lookup_eq_none hnew]
    rfl

theorem run_addRouteValue_eq_add (d : Descriptor) (key : String) (value : RouteValue) :
    (addRouteValue key value).run.run d =
      match d.add key value with
      | .ok e => (.ok (), e)
      | .error reason => (.error reason, d) := by
  rw [run_addRouteValue, add_eq]
  cases d.refusal? key <;> rfl

/-! ### Calls -/

inductive Call where
  | attach (area : Option String) (controller action : String) (protocol : Option String)
  | add (key : String) (value : RouteValue)

/-- What a call answers: nothing, or why it was refused. -/
abbrev Answer := Except RouteValueError Unit

namespace Call

def update : Call → Update
  | .attach area controller action protocol => attachRouteIdentity area controller action protocol
  | .add key value => addRouteValue key value

def isAttach : Call → Bool
  | .attach .. => true
  | .add .. => false

def addition? : Call × Answer → Option (String × RouteValue)
  | (.add key value, .ok ()) => some (key, value)
  | _ => none

end Call

def perform (calls : List Call) : StateM Descriptor (List Answer) :=
  calls.mapM fun call => call.update.run

/-- The values that were added, in order, since an identity was given last. -/
def added (trace : List (Call × Answer)) : List (String × RouteValue) :=
  (trace.rtakeWhile fun step => !step.1.isAttach).filterMap Call.addition?

def lastIdentity (d : Descriptor) (calls : List Call) : Descriptor :=
  calls.foldl (fun d call =>
    match call with
    | .attach area controller action protocol => d.attach area controller action protocol
    | .add _ _ => d) d

theorem lastIdentity_append_singleton (d : Descriptor) (calls : List Call) (call : Call) :
    lastIdentity d (calls ++ [call]) =
      match call with
      | .attach area controller action protocol =>
        (lastIdentity d calls).attach area controller action protocol
      | .add _ _ => lastIdentity d calls := by
  rw [lastIdentity, List.foldl_append]
  rfl

theorem parameters_lastIdentity {d : Descriptor} (h : d.parameters = []) (calls : List Call) :
    (lastIdentity d calls).parameters = [] := by
  induction calls using List.reverseRecOn with
  | nil => exact h
  | append_singleton calls call ih =>
      rw [lastIdentity_append_singleton]
      cases call with
      | attach area controller action protocol => rfl
      | add key value => exact ih

theorem added_append_singleton (trace : List (Call × Answer)) (call : Call) (answer : Answer) :
    added (trace ++ [(call, answer)]) =
      if call.isAttach then [] else added trace ++ (Call.addition? (call, answer)).toList := by
  rw [added, List.rtakeWhile_concat]
  cases hattach : call.isAttach with
  | true => simp
  | false =>
      have hsingle : [(call, answer)].filterMap Call.addition? =
          (Call.addition? (call, answer)).toList := by
        cases hentry : Call.addition? (call, answer) <;> simp [hentry]
      change ((trace.rtakeWhile _) ++ [(call, answer)]).filterMap Call.addition? = added trace ++ _
      rw [List.filterMap_append, hsingle]
      rfl

theorem perform_append_singleton (d : Descriptor) (calls : List Call) (call : Call) :
    (perform (calls ++ [call])).run d =
      (((perform calls).run d).1 ++ [(call.update.run.run ((perform calls).run d).2).1],
        (call.update.run.run ((perform calls).run d).2).2) := by
  simp [perform, List.mapM_append]
  rfl

theorem length_perform (d : Descriptor) (calls : List Call) :
    ((perform calls).run d).1.length = calls.length := by
  induction calls using List.reverseRecOn with
  | nil => rfl
  | append_singleton calls call ih =>
      rw [perform_append_singleton]
      simp [ih]

theorem Call.run_update (d : Descriptor) (call : Call) :
    (call.update.run.run d).2 =
      match call with
      | .attach area controller action protocol => d.attach area controller action protocol
      | .add _ _ => d.withParameters (addition? (call, (call.update.run.run d).1)).toList := by
  cases call with
  | attach area controller action protocol => rw [update, run_attachRouteIdentity]
  | add key value =>
      rw [update, run_addRouteValue]
      cases d.refusal? key with
      | none => rfl
      | some reason => simp [addition?, withParameters]

theorem WellKeyed.update {d : Descriptor} (h : d.WellKeyed) (call : Call) :
    (call.update.run.run d).2.WellKeyed := by
  cases call with
  | attach area controller action protocol =>
      rw [Call.update, run_attachRouteIdentity]
      exact WellKeyed.attach d area controller action protocol
  | add key value =>
      rw [Call.update, run_addRouteValue]
      cases hkey : d.refusal? key with
      | none => exact h.withParameters hkey
      | some reason => exact h

theorem WellKeyed.perform {d : Descriptor} (h : d.WellKeyed) (calls : List Call) :
    ((perform calls).run d).2.WellKeyed := by
  induction calls using List.reverseRecOn with
  | nil => exact h
  | append_singleton calls call ih =>
      rw [perform_append_singleton]
      exact ih.update call

/-- A descriptor has the identity that was given last, and what was added since. -/
theorem run_perform (d : Descriptor) (calls : List Call) :
    ((perform calls).run d).2 =
      (lastIdentity d calls).withParameters (added (calls.zip ((perform calls).run d).1)) := by
  induction calls using List.reverseRecOn with
  | nil =>
      have hadded : added ([].zip ((perform []).run d).1) = [] := rfl
      rw [hadded, withParameters, List.append_nil]
      rfl
  | append_singleton calls call ih =>
      have hlength := length_perform d calls
      rw [perform_append_singleton, lastIdentity_append_singleton, Call.run_update,
        List.zip_append hlength.symm, List.zip_cons_cons, List.zip_nil_right,
        added_append_singleton]
      cases call with
      | attach area controller action protocol =>
          rw [ih]
          simp [Call.isAttach, withParameters, Descriptor.attach]
      | add key value =>
          dsimp only
          rw [if_neg (by simp [Call.isAttach]), withParameters_append, ← ih]

/-- What is known of a descriptor after calls, from the calls and their answers alone. -/
structure IsAfter (new : Descriptor) (calls : List Call) (answers : List Answer) (d : Descriptor) :
    Prop where
  length_eq : answers.length = calls.length
  eq_lastIdentity :
    d = { lastIdentity new calls with parameters := added (calls.zip answers) }
  nodup_keys : (d.parameters.map Prod.fst).Nodup
  free : ∀ key ∈ d.parameters.map Prod.fst, Unicode.toLower key ∉ ["area", "controller", "action"]
  routeValues_eq :
    d.routeValues =
      [("area", .text d.area), ("controller", .text d.controller), ("action", .text d.action)] ++
        d.parameters
  /-- A further value is refused for its key alone. -/
  add_eq : ∀ key value, d.add key value =
    match d.refusal? key with
    | some reason => .error reason
    | none => .ok (d.withParameters [(key, value)])
  /-- If it is refused, the object stays as it is. -/
  run_add : ∀ key value, (addRouteValue key value).run.run d =
    match d.add key value with
    | .ok e => (.ok (), e)
    | .error reason => (.error reason, d)

/-- After any calls a new descriptor has the identity that was given last and, in their order, the
values that it has taken since; it has no key twice, and its route values are all of these. -/
theorem isAfter_perform (kind : ResultKind) (area : Option String) (controller action : String)
    (protocol : Option String) (calls : List Call) :
    let new := ofIdentity kind area controller action protocol
    IsAfter new calls ((perform calls).run new).1 ((perform calls).run new).2 := by
  intro new
  have hkeyed : ((perform calls).run new).2.WellKeyed :=
    (WellKeyed.ofIdentity kind area controller action protocol).perform calls
  have hnone : (lastIdentity new calls).parameters = [] := parameters_lastIdentity rfl calls
  refine ⟨length_perform new calls, ?_, hkeyed.nodup, hkeyed.free, hkeyed.routeValues_eq, add_eq _,
    run_addRouteValue_eq_add _⟩
  refine (run_perform new calls).trans ?_
  rw [withParameters, hnone, List.nil_append]

/-- A value is refused in whatever letter case its key is one of the identity, and a second value
for a key is refused until an identity is given. -/
example :
    let calls : List Call :=
      [.add "id" (.int 1), .attach none "Home" "Item" none, .add "id" (.int 2), .add "id" .null,
        .add "ACTION" .null, .add "Id" .null]
    ((perform calls).run (ofIdentity .generic none "Home" "Index" none)).2.keys = ["id", "Id"] := by
  decide

end RouteLinks.Descriptor
