import Mathlib.Data.List.Induction
import RouteLinks.Source.Reader
/-!
# Where nodes stand, and which of them are read

The nodes of a tree in the order in which they begin, each with the way to it. What is read from a
source is said about these: the units are those of the nodes that stand in files, namespaces and
bodies of classes only, in this order, and what is around such a node makes up the context in which
it is read.
-/

namespace RouteLinks

namespace SyntaxNode

/-- The range of a node begins in front of its end, both of them in the range of another node. -/
structure IsNested (outer n : SyntaxNode) : Prop where
  front : outer.start ≤ n.start
  order : n.start ≤ n.stop
  back : n.stop ≤ outer.stop

instance (outer n : SyntaxNode) : Decidable (outer.IsNested n) :=
  decidable_of_iff (outer.start ≤ n.start ∧ n.start ≤ n.stop ∧ n.stop ≤ outer.stop)
    ⟨fun h => ⟨h.1, h.2.1, h.2.2⟩, fun h => ⟨h.front, h.order, h.back⟩⟩

/-- A step on the way to a node: a node around it, with the children in front of the one that leads
to it. -/
structure Enclosure where
  parent : SyntaxNode
  before : List SyntaxNode

/-- A node with the way to it from the root, the outermost step first. -/
structure Occurrence where
  around : List Enclosure
  node : SyntaxNode

mutual

def occurrencesFrom (around : List Enclosure) : SyntaxNode → List Occurrence
  | .mk info children =>
    ⟨around, .mk info children⟩ :: occurrencesAmong around (.mk info children) [] children

/-- The nodes below the children of a node that stand behind some others. -/
def occurrencesAmong (around : List Enclosure) (parent : SyntaxNode) (before : List SyntaxNode) :
    List SyntaxNode → List Occurrence
  | [] => []
  | n :: rest =>
    occurrencesFrom (around ++ [⟨parent, before⟩]) n ++
      occurrencesAmong around parent (before ++ [n]) rest

end

def occurrences (root : SyntaxNode) : List Occurrence := occurrencesFrom [] root

variable {around : List Enclosure} {root parent n m : SyntaxNode} {before : List SyntaxNode}

theorem occurrencesFrom_eq (around : List Enclosure) (n : SyntaxNode) :
    occurrencesFrom around n = ⟨around, n⟩ :: occurrencesAmong around n [] n.children := by
  cases n
  rw [occurrencesFrom]
  rfl

/-- A way leads from each node to the next. -/
inductive Leads : List Enclosure → SyntaxNode → SyntaxNode → Prop where
  | here (n : SyntaxNode) : Leads [] n n
  | inside {e : Enclosure} {rest : List SyntaxNode} {way : List Enclosure} {child n : SyntaxNode}
      (h : e.parent.children = e.before ++ child :: rest) (hway : Leads way child n) :
      Leads (e :: way) e.parent n

theorem Leads.concat {way : List Enclosure} {e : Enclosure} {rest : List SyntaxNode}
    (h : Leads way root e.parent) (hchildren : e.parent.children = e.before ++ n :: rest) :
    Leads (way ++ [e]) root n := by
  generalize hparent : e.parent = parent at h
  induction h with
  | here => exact hparent ▸ .inside hchildren (.here n)
  | inside hfirst _ ih => exact .inside hfirst (ih hparent)

theorem Leads.of_concat {way : List Enclosure} {e : Enclosure} (h : Leads (way ++ [e]) root n) :
    Leads way root e.parent ∧ ∃ rest, e.parent.children = e.before ++ n :: rest := by
  induction way generalizing root with
  | nil =>
      cases h with
      | inside hchildren hway =>
          cases hway
          exact ⟨.here _, _, hchildren⟩
  | cons first way ih =>
      cases h with
      | inside hchildren hway => exact ⟨.inside hchildren (ih hway).1, (ih hway).2⟩

mutual

theorem mem_occurrencesFrom_iff (around : List Enclosure) : ∀ (root : SyntaxNode) {o : Occurrence},
    o ∈ occurrencesFrom around root ↔ ∃ way, o.around = around ++ way ∧ Leads way root o.node
  | .mk info children, ⟨oaround, onode⟩ => by
      rw [occurrencesFrom, List.mem_cons, mem_occurrencesAmong_iff around _ [] children]
      constructor
      · rintro (ho | ⟨before, child, after, rfl, way, haround, hway⟩)
        · cases ho
          exact ⟨[], (List.append_nil _).symm, .here _⟩
        · exact ⟨_, haround, .inside (e := ⟨_, before⟩) rfl hway⟩
      · rintro ⟨way, haround, hway⟩
        generalize hroot : SyntaxNode.mk info children = root at hway
        cases hway with
        | here => exact .inl (by simp_all)
        | @inside e rest way child _ h hway =>
            obtain rfl : children = e.before ++ child :: rest := h ▸ hroot ▸ rfl
            exact .inr ⟨e.before, child, rest, rfl, way, haround, hway⟩

theorem mem_occurrencesAmong_iff (around : List Enclosure) (parent : SyntaxNode)
    (front : List SyntaxNode) : ∀ (nodes : List SyntaxNode) {o : Occurrence},
    o ∈ occurrencesAmong around parent front nodes ↔ ∃ before child after,
      nodes = before ++ child :: after ∧ ∃ way,
        o.around = around ++ ⟨parent, front ++ before⟩ :: way ∧ Leads way child o.node
  | [], o => by simp [occurrencesAmong]
  | n :: rest, o => by
      rw [occurrencesAmong, List.mem_append, mem_occurrencesFrom_iff _ n,
        mem_occurrencesAmong_iff around parent (front ++ [n]) rest]
      constructor
      · rintro (⟨way, haround, hway⟩ | ⟨before, child, after, rfl, way, haround, hway⟩)
        · exact ⟨[], n, rest, rfl, way, by simp [haround], hway⟩
        · exact ⟨n :: before, child, after, rfl, way, by simp [haround], hway⟩
      · rintro ⟨_ | ⟨first, before⟩, child, after, hnodes, way, haround, hway⟩
        · cases hnodes
          exact .inl ⟨way, by simp [haround], hway⟩
        · cases hnodes
          exact .inr ⟨before, child, after, rfl, way, by simp [haround], hway⟩

end

/-- The nodes of a tree are those to which a way leads. -/
theorem mem_occurrences_iff {o : Occurrence} :
    o ∈ root.occurrences ↔ Leads o.around root o.node := by
  rw [occurrences, mem_occurrencesFrom_iff]
  simp

end SyntaxNode

namespace Source

open SyntaxNode

/-! ### Where declarations stand -/

/-- What the children of a node are read as: what stands in a file or namespace, parts of a class
declaration, or members in its body. -/
inductive Level where
  | items
  | parts
  | members
  deriving DecidableEq

/-- Where a node stands: the namespaces and classes around it, the outermost first, and the
directives in front of it. -/
structure Spot where
  level : Level := .items
  scopes : List SyntaxNode := []
  directives : List SyntaxNode := []
  owners : List SyntaxNode := []

namespace Spot

variable {s : Spot}

/-- Behind a directive, or a namespace without braces. -/
def behind (s : Spot) (n : SyntaxNode) : Spot :=
  if n.kind == "using_directive" then { s with directives := s.directives ++ [n] }
  else if n.kind == "file_scoped_namespace_declaration" then { s with scopes := s.scopes ++ [n] }
  else s

def inside (s : Spot) (n : SyntaxNode) : Spot :=
  { s with level := .parts, owners := s.owners ++ [n] }

/-- In a class declaration, up to the end of its body. -/
def inside? (bytes : Bytes) (s : Spot) (e : Enclosure) : Option Spot :=
  if e.parent.kind == "class_declaration" && (nameOf? bytes e.parent).isSome &&
      e.before.all (·.kind != "declaration_list") then
    some (s.inside e.parent)
  else none

/-- One step further on the way to a node, none if nothing there is read. -/
def enter? (bytes : Bytes) (s : Spot) (e : Enclosure) : Option Spot :=
  match s.level with
  | .items =>
    if e.parent.kind == "namespace_declaration" ||
        e.parent.kind == "file_scoped_namespace_declaration" then
      some (e.before.foldl behind { s with scopes := s.scopes ++ [e.parent] })
    else if e.parent.kind == "declaration_list" then some (e.before.foldl behind s)
    else s.inside? bytes e
  | .parts =>
      if e.parent.kind == "declaration_list" then some { s with level := .members } else none
  | .members => s.inside? bytes e

/-- Where a node stands that is reached on a way, none if it is not read. -/
def of? (bytes : Bytes) : List Enclosure → Option Spot
  | [] => none
  | e :: way => way.foldlM (enter? bytes) (e.before.foldl behind {})

theorem of?_concat (bytes : Bytes) {around : List Enclosure} (h : around ≠ []) (e : Enclosure) :
    of? bytes (around ++ [e]) = (of? bytes around).bind (enter? bytes · e) := by
  obtain ⟨first, way, rfl⟩ := List.exists_cons_of_ne_nil h
  rw [List.cons_append, of?, of?, List.foldlM_append]
  cases List.foldlM (enter? bytes) _ way <;> simp

theorem of?_inside {bytes : Bytes} {around : List Enclosure} {n : SyntaxNode} (hne : around ≠ [])
    (h : of? bytes around = some s) (hlevel : s.level ≠ .parts)
    (hkind : n.kind = "class_declaration")
    (hname : (nameOf? bytes n).isSome = true) (before : List SyntaxNode) :
    of? bytes (around ++ [⟨n, before⟩]) =
      if before.all (·.kind != "declaration_list") then some (s.inside n) else none := by
  rw [of?_concat bytes hne, h, Option.bind_some, enter?]
  cases hcases : s.level with
  | items => simp [inside?, hkind, hname]
  | parts => exact absurd hcases hlevel
  | members => simp [inside?, hkind, hname]

theorem level_behind (s : Spot) (n : SyntaxNode) : (s.behind n).level = s.level := by
  unfold behind
  split
  · rfl
  split <;> rfl

theorem level_foldl_behind (s : Spot) (nodes : List SyntaxNode) :
    (nodes.foldl behind s).level = s.level := by
  induction nodes generalizing s with
  | nil => rfl
  | cons n rest ih => exact (ih (s.behind n)).trans (s.level_behind n)

theorem inside?_eq_some {bytes : Bytes} {e : Enclosure} {t : Spot}
    (h : s.inside? bytes e = some t) : e.parent.kind = "class_declaration" ∧
      (nameOf? bytes e.parent).isSome = true ∧
      e.before.all (·.kind != "declaration_list") = true ∧ s.inside e.parent = t := by
  simpa only [inside?, Option.ite_none_right_eq_some, Bool.and_eq_true, beq_iff_eq, and_assoc,
    Option.some.injEq] using h

theorem enter?_of_items {bytes : Bytes} {e : Enclosure} {t : Spot} (hlevel : s.level = .items)
    (h : s.enter? bytes e = some t) : t.level = .items ∨ s.inside? bytes e = some t := by
  simp only [enter?, hlevel] at h
  split at h
  · cases h
    exact .inl (level_foldl_behind _ _)
  split at h
  · cases h
    exact .inl ((level_foldl_behind _ _).trans hlevel)
  · exact .inr h

theorem enter?_eq_parts {bytes : Bytes} {e : Enclosure} {t : Spot} (h : s.enter? bytes e = some t)
    (hlevel : t.level = .parts) : s.level ≠ .parts ∧ s.inside? bytes e = some t := by
  cases hcases : s.level with
  | items =>
      rcases enter?_of_items hcases h with hitems | hinside
      · cases hlevel.symm.trans hitems
      · exact ⟨by simp, hinside⟩
  | parts =>
      simp only [enter?, hcases, Option.ite_none_right_eq_some] at h
      obtain ⟨-, h⟩ := h
      cases h
      cases hlevel
  | members =>
      rw [enter?, hcases] at h
      exact ⟨by simp, h⟩

theorem enter?_eq_members {bytes : Bytes} {e : Enclosure} {t : Spot} (h : s.enter? bytes e = some t)
    (hlevel : t.level = .members) :
    s.level = .parts ∧ e.parent.kind = "declaration_list" ∧ { s with level := .members } = t := by
  have hinside : s.inside? bytes e ≠ some t := by
    intro h
    obtain ⟨-, -, -, rfl⟩ := inside?_eq_some h
    cases hlevel
  cases hcases : s.level with
  | items =>
      rcases enter?_of_items hcases h with hitems | h
      · cases hlevel.symm.trans hitems
      · exact absurd h hinside
  | parts =>
      simp only [enter?, hcases, Option.ite_none_right_eq_some] at h
      exact ⟨rfl, by simpa using h.1, by simpa using h.2⟩
  | members =>
      rw [enter?, hcases] at h
      exact absurd h hinside

theorem exists_concat {bytes : Bytes} {around : List Enclosure} (h : of? bytes around = some s)
    (hlevel : s.level ≠ .items) : ∃ outer e t, around = outer ++ [e] ∧ outer ≠ [] ∧
      of? bytes outer = some t ∧ t.enter? bytes e = some s := by
  induction around using List.reverseRecOn with
  | nil => cases h
  | append_singleton outer e =>
      rcases eq_or_ne outer [] with rfl | hne
      · cases h
        rw [level_foldl_behind] at hlevel
        exact absurd rfl hlevel
      · rw [of?_concat bytes hne] at h
        obtain ⟨t, ht, henter⟩ := Option.bind_eq_some_iff.mp h
        exact ⟨outer, e, t, rfl, hne, ht, henter⟩

/-- Where members stand: in the first body of a class with a name. -/
structure IsInBody (bytes : Bytes) (around : List Enclosure) (s : Spot) (outer : List Enclosure)
    (t : Spot) (c body : Enclosure) : Prop where
  around_eq : around = outer ++ [c] ++ [body]
  spot : { t.inside c.parent with level := .members } = s
  stands : of? bytes outer = some t
  level : t.level ≠ .parts
  isClass : c.parent.kind = "class_declaration"
  isNamed : (nameOf? bytes c.parent).isSome = true
  isFirst : c.before.all (·.kind != "declaration_list") = true
  isBody : body.parent.kind = "declaration_list"

theorem exists_isInBody {bytes : Bytes} {around : List Enclosure} (h : of? bytes around = some s)
    (hlevel : s.level = .members) : ∃ outer t c body, IsInBody bytes around s outer t c body := by
  obtain ⟨inner, body, u, rfl, -, hu, hbody⟩ := exists_concat h (by simp [hlevel])
  obtain ⟨hparts, hlist, rfl⟩ := enter?_eq_members hbody hlevel
  obtain ⟨outer, c, t, rfl, -, ht, hc⟩ := exists_concat hu (by simp [hparts])
  obtain ⟨hstands, hinside⟩ := enter?_eq_parts hc hparts
  obtain ⟨hclass, hname, hfirst, rfl⟩ := inside?_eq_some hinside
  exact ⟨outer, t, c, body, rfl, rfl, ht, hstands, hclass, hname, hfirst, hlist⟩

theorem ne_nil_of_of? {bytes : Bytes} {around : List Enclosure} (h : of? bytes around = some s) :
    around ≠ [] := by
  rintro rfl
  cases h

theorem IsInBody.of?_eq {bytes : Bytes} {around outer : List Enclosure} {t : Spot}
    {c body : Enclosure} (h : IsInBody bytes around s outer t c body) :
    of? bytes around = some s := by
  have hparts : of? bytes (outer ++ [c]) = some (t.inside c.parent) := by
    rw [of?_inside (ne_nil_of_of? h.stands) h.stands h.level h.isClass h.isNamed, if_pos h.isFirst]
  rw [h.around_eq, of?_concat bytes (by simp), hparts, ← h.spot, Option.bind_some, enter?]
  exact if_pos (by simp [h.isBody])

/-- Where nothing is read nothing further inside is. -/
theorem of?_append_eq_none {bytes : Bytes} {around : List Enclosure} (hne : around ≠ [])
    (h : of? bytes around = none) (way : List Enclosure) : of? bytes (around ++ way) = none := by
  induction way using List.reverseRecOn with
  | nil => rwa [List.append_nil]
  | append_singleton way e ih =>
      rw [← List.append_assoc, of?_concat bytes (by simp [hne]), ih]
      rfl

theorem exists_of?_of_append (hne : around ≠ []) {way : List Enclosure} {t : Spot}
    (h : of? bytes (around ++ way) = some t) : ∃ s, of? bytes around = some s := by
  by_contra hnone
  have hread := of?_append_eq_none hne
    (Option.eq_none_iff_forall_ne_some.mpr fun s hs => hnone ⟨s, hs⟩) way
  rw [h] at hread
  cases hread

def scope (bytes : Bytes) (s : Spot) : String :=
  (s.scopes.map fun n => ((n.field? "name").map (·.rawText bytes)).getD "").foldl
    (fun scope name => if scope.isEmpty then name else scope ++ "." ++ name) ""

def owner (bytes : Bytes) (s : Spot) : Option String :=
  (s.owners.map fun n => (nameOf? bytes n).getD "").foldl
    (fun owner name => some (qualify (owner.getD "") name)) none

/-- What a node that stands somewhere is read in. -/
def context (r : Reading) (s : Spot) : Context where
  scope := s.scope r.bytes
  usings := s.directives.flatMap r.targets
  owner := s.owner r.bytes

theorem context_behind (r : Reading) (s : Spot) (n : SyntaxNode) :
    (s.behind n).context r = r.behind (s.context r) n := by
  unfold behind Reading.behind
  split
  · simp [context, scope, owner]
  split
  · simp [context, scope, owner, Reading.within]
  · rfl

theorem context_within (r : Reading) (s : Spot) (n : SyntaxNode) :
    ({ s with scopes := s.scopes ++ [n] } : Spot).context r = r.within (s.context r) n := by
  simp [context, scope, owner, Reading.within]

theorem context_inside (r : Reading) (s : Spot) (n : SyntaxNode) :
    (s.inside n).context r = { s.context r with
      owner := some (qualify ((s.context r).owner.getD "") ((nameOf? r.bytes n).getD "")) } := by
  simp [context, scope, owner, inside]

end Spot

/-- The declaration that a node is, if it stands where such a declaration is looked for. -/
def Reading.unitAt? (r : Reading) (s : Spot) (n : SyntaxNode) : Option SourceUnit :=
  if n.kind == "class_declaration" && s.level != .parts then
    (nameOf? r.bytes n).map (r.classUnit (s.context r) n)
  else if s.level != .members then none
  else if n.kind == "method_declaration" then r.methodUnit? (s.context r) n
  else if n.kind == "constructor_declaration" then some (r.constructorUnit (s.context r) n)
  else none

/-- The declaration at an occurrence. -/
def Reading.unitOf? (r : Reading) (o : Occurrence) : Option SourceUnit :=
  (Spot.of? r.bytes o.around).bind (r.unitAt? · o.node)

/-! ### The walk -/

section Walk

variable (r : Reading)

theorem filterMap_occurrencesAmong_eq_nil {around : List Enclosure} {n : SyntaxNode}
    {before : List SyntaxNode}
    (hnone : ∀ front, Spot.of? r.bytes (around ++ [⟨n, before ++ front⟩]) = none)
    (nodes : List SyntaxNode) :
    (occurrencesAmong around n before nodes).filterMap r.unitOf? = [] := by
  refine List.filterMap_eq_nil_iff.mpr fun o ho => ?_
  obtain ⟨front, child, -, -, way, haround, -⟩ := (mem_occurrencesAmong_iff around n before _).mp ho
  have hclosed := Spot.of?_append_eq_none (by simp) (hnone front) way
  rw [List.append_assoc, List.singleton_append, ← haround] at hclosed
  rw [Reading.unitOf?, hclosed]
  rfl

theorem filterMap_occurrencesFrom {around : List Enclosure} {s : Spot} (hne : around ≠ [])
    (h : Spot.of? r.bytes around = some s) {n : SyntaxNode}
    (hnone : ∀ front, s.enter? r.bytes ⟨n, front⟩ = none) :
    (occurrencesFrom around n).filterMap r.unitOf? = (r.unitAt? s n).toList := by
  have hclosed : ∀ front, Spot.of? r.bytes (around ++ [⟨n, [] ++ front⟩]) = none := by
    intro front
    rw [Spot.of?_concat _ hne, h]
    exact hnone front
  rw [occurrencesFrom_eq, List.filterMap_cons, filterMap_occurrencesAmong_eq_nil r hclosed,
    Reading.unitOf?, h, Option.bind_some]
  cases r.unitAt? s n <;> rfl

theorem classUnits_eq {around : List Enclosure} {s : Spot} (hne : around ≠ [])
    (h : Spot.of? r.bytes around = some s) (hlevel : s.level ≠ .parts) {n : SyntaxNode}
    (hkind : n.kind = "class_declaration") {members : Context → List SourceUnit}
    (hmembers : (nameOf? r.bytes n).isSome = true → members ((s.inside n).context r) =
      (occurrencesAmong around n [] n.children).filterMap r.unitOf?) :
    r.classUnits (s.context r) n members = (occurrencesFrom around n).filterMap r.unitOf? := by
  have hunit : r.unitOf? ⟨around, n⟩ =
      (nameOf? r.bytes n).map (r.classUnit (s.context r) n) := by
    rw [Reading.unitOf?, h, Option.bind_some, Reading.unitAt?, if_pos (by simp [hkind, hlevel])]
  rw [occurrencesFrom_eq, List.filterMap_cons, hunit, Reading.classUnits]
  cases hname : nameOf? r.bytes n with
  | none =>
      refine (filterMap_occurrencesAmong_eq_nil r (fun front => ?_) _).symm
      rw [Spot.of?_concat _ hne, h, Option.bind_some]
      cases hcases : s.level <;> simp_all [Spot.enter?, Spot.inside?]
  | some name =>
      rw [hname, Option.isSome_some] at hmembers
      dsimp only [Option.map_some]
      rw [← hmembers rfl, Spot.context_inside, hname]
      rfl

mutual

theorem readMember_eq : ∀ (n : SyntaxNode) {around : List Enclosure} {s : Spot},
    around ≠ [] → Spot.of? r.bytes around = some s → s.level = .members →
    readMember r (s.context r) n = (occurrencesFrom around n).filterMap r.unitOf?
  | .mk info children, around, s, hne, hspot, hlevel => by
      rw [readMember]
      by_cases hclass : info.kind = "class_declaration"
      · rw [if_neg (by simp [hclass]), if_neg (by simp [hclass]), if_pos (by simp [hclass])]
        exact classUnits_eq r hne hspot (by simp [hlevel]) (n := .mk info children) hclass
          fun hname => readBody_eq children hne hspot (by simp [hlevel]) hclass hname rfl
      rw [filterMap_occurrencesFrom r hne hspot, Reading.unitAt?]
      · simp only [SyntaxNode.kind, SyntaxNode.info, hlevel]
        split
        · next hmethod => simp_all
        split
        · next hmethod => simp_all
        · simp_all
      · intro front
        simp [Spot.enter?, hlevel, Spot.inside?, SyntaxNode.kind, SyntaxNode.info, hclass]

theorem readMembers_eq : ∀ (nodes : List SyntaxNode) {around : List Enclosure} {s : Spot}
    {parent : SyntaxNode} {front : List SyntaxNode},
    (∀ before, Spot.of? r.bytes (around ++ [⟨parent, before⟩]) = some s) → s.level = .members →
    readMembers r (s.context r) nodes =
      (occurrencesAmong around parent front nodes).filterMap r.unitOf?
  | [], _, _, _, _, _, _ => by rw [readMembers, occurrencesAmong]; rfl
  | n :: rest, around, s, parent, front, hspot, hlevel => by
      rw [readMembers, occurrencesAmong, List.filterMap_append,
        readMember_eq n (by simp) (hspot front) hlevel, readMembers_eq rest hspot hlevel]

theorem bodyMembers?_eq : ∀ (n : SyntaxNode) {around : List Enclosure} {s : Spot},
    around ≠ [] → Spot.of? r.bytes around = some s → s.level = .parts →
    (bodyMembers? r (s.context r) n).getD [] = (occurrencesFrom around n).filterMap r.unitOf?
  | .mk info children, around, s, hne, hspot, hlevel => by
      rw [bodyMembers?]
      by_cases hlist : info.kind = "declaration_list"
      · have hmembers : ∀ before, Spot.of? r.bytes (around ++ [⟨.mk info children, before⟩]) =
            some { s with level := .members } := by
          intro before
          rw [Spot.of?_concat _ hne, hspot, Option.bind_some, Spot.enter?, hlevel]
          exact if_pos (by simp [SyntaxNode.kind, SyntaxNode.info, hlist])
        have hunit : r.unitOf? ⟨around, .mk info children⟩ = none := by
          rw [Reading.unitOf?, hspot, Option.bind_some]
          simp [Reading.unitAt?, hlevel]
        rw [if_pos (by simp [hlist]), occurrencesFrom, List.filterMap_cons, hunit, Option.getD_some]
        exact readMembers_eq children (s := { s with level := .members }) hmembers rfl
      · rw [if_neg (by simp [hlist]), filterMap_occurrencesFrom r hne hspot]
        · simp [Reading.unitAt?, hlevel]
        · intro front
          simp [Spot.enter?, hlevel, SyntaxNode.kind, SyntaxNode.info, hlist]

theorem readBody_eq : ∀ (nodes : List SyntaxNode) {around : List Enclosure} {s : Spot}
    {n : SyntaxNode} {front : List SyntaxNode},
    around ≠ [] → Spot.of? r.bytes around = some s → s.level ≠ .parts →
    n.kind = "class_declaration" → (nameOf? r.bytes n).isSome = true →
    front.all (·.kind != "declaration_list") = true →
    readBody r ((s.inside n).context r) nodes =
      (occurrencesAmong around n front nodes).filterMap r.unitOf?
  | [], _, _, _, _, _, _, _, _, _, _ => by rw [readBody, occurrencesAmong]; rfl
  | m :: rest, around, s, n, front, hne, hspot, hlevel, hkind, hname, hfront => by
      have hstands := Spot.of?_inside hne hspot hlevel hkind hname
      rw [readBody, occurrencesAmong, List.filterMap_append,
        ← bodyMembers?_eq m (s := s.inside n) (by simp) (by rw [hstands, if_pos hfront]) rfl]
      cases hlist : m.kind == "declaration_list" with
      | true =>
          have hbody : (bodyMembers? r ((s.inside n).context r) m).isSome = true := by
            cases m
            rw [bodyMembers?]
            exact Option.isSome_iff_exists.mpr ⟨_, if_pos hlist⟩
          have hclosed : ∀ more, Spot.of? r.bytes (around ++ [⟨n, front ++ [m] ++ more⟩]) = none :=
            fun more => (hstands _).trans (if_neg (by simp_all))
          obtain ⟨units, hunits⟩ := Option.isSome_iff_exists.mp hbody
          rw [hunits, Option.getD_some, Option.getD_some,
            filterMap_occurrencesAmong_eq_nil r hclosed, List.append_nil]
      | false =>
          have hbody : bodyMembers? r ((s.inside n).context r) m = none := by
            cases m
            exact if_neg (Bool.eq_false_iff.mp hlist)
          rw [hbody, Option.getD_none, Option.getD_none, List.nil_append]
          exact readBody_eq rest hne hspot hlevel hkind hname (by simp_all)

end

mutual

theorem readItem_eq : ∀ (n : SyntaxNode) {around : List Enclosure} {s : Spot},
    around ≠ [] → Spot.of? r.bytes around = some s → s.level = .items →
    readItem r (s.context r) n = (occurrencesFrom around n).filterMap r.unitOf?
  | .mk info children, around, s, hne, hspot, hlevel => by
      have hunit : info.kind ≠ "class_declaration" →
          r.unitOf? ⟨around, .mk info children⟩ = none := by
        intro hkind
        rw [Reading.unitOf?, hspot, Option.bind_some]
        simp [Reading.unitAt?, hlevel, SyntaxNode.kind, SyntaxNode.info, hkind]
      rw [readItem]
      by_cases hspace : info.kind = "namespace_declaration" ∨
          info.kind = "file_scoped_namespace_declaration"
      · rw [if_pos (by simpa using hspace), occurrencesFrom, List.filterMap_cons,
          hunit (by rcases hspace with h | h <;> simp [h]), ← Spot.context_within]
        refine readItems_eq children [] hlevel fun before => ?_
        rw [Spot.of?_concat _ hne, hspot, Option.bind_some, Spot.enter?, hlevel]
        exact if_pos (by simpa [SyntaxNode.kind, SyntaxNode.info] using hspace)
      rw [if_neg (by simpa using hspace)]
      by_cases hlist : info.kind = "declaration_list"
      · rw [if_pos (by simp [hlist]), occurrencesFrom, List.filterMap_cons, hunit (by simp [hlist])]
        refine readItems_eq children [] hlevel fun before => ?_
        rw [Spot.of?_concat _ hne, hspot, Option.bind_some, Spot.enter?, hlevel]
        simp [SyntaxNode.kind, SyntaxNode.info, hlist]
      rw [if_neg (by simp [hlist])]
      by_cases hclass : info.kind = "class_declaration"
      · rw [if_pos (by simp [hclass])]
        exact classUnits_eq r hne hspot (by simp [hlevel]) (n := .mk info children) hclass
          fun hname => readBody_eq r children hne hspot (by simp [hlevel]) hclass hname rfl
      · rw [if_neg (by simp [hclass]), filterMap_occurrencesFrom r hne hspot]
        · simp [Reading.unitAt?, hlevel, SyntaxNode.kind, SyntaxNode.info, hclass]
        · intro front
          simp only [not_or] at hspace
          simp [Spot.enter?, hlevel, Spot.inside?, SyntaxNode.kind, SyntaxNode.info, hspace, hlist,
            hclass]

theorem readItems_eq : ∀ (nodes : List SyntaxNode) {around : List Enclosure} {s : Spot}
    {parent : SyntaxNode} (front : List SyntaxNode), s.level = .items →
    (∀ before, Spot.of? r.bytes (around ++ [⟨parent, before⟩]) =
      some (before.foldl Spot.behind s)) →
    readItems r ((front.foldl Spot.behind s).context r) nodes =
      (occurrencesAmong around parent front nodes).filterMap r.unitOf?
  | [], _, _, _, _, _, _ => by rw [readItems, occurrencesAmong]; rfl
  | n :: rest, around, s, parent, front, hlevel, hspot => by
      have hnext : r.behind ((front.foldl Spot.behind s).context r) n =
          ((front ++ [n]).foldl Spot.behind s).context r := by
        rw [List.foldl_append, ← Spot.context_behind]
        rfl
      rw [readItems, occurrencesAmong, List.filterMap_append, hnext,
        readItem_eq n (by simp) (hspot front) ((s.level_foldl_behind front).trans hlevel),
        readItems_eq rest _ hlevel hspot]

end

end Walk

/-- What is read from a source are the declarations at the places of its tree, in their order. -/
theorem units_read (g : Grammar) (bytes : Bytes) (filePath : String) :
    (read g bytes filePath).units =
      ((g bytes).occurrences.filterMap (Reading.unitOf? ⟨bytes, filePath⟩)).map fun u =>
        { u with imports := (read g bytes filePath).imports } := by
  have hunits : readItems ⟨bytes, filePath⟩ (({} : Spot).context ⟨bytes, filePath⟩)
      (g bytes).children = (occurrencesAmong [] (g bytes) [] (g bytes).children).filterMap
        (Reading.unitOf? ⟨bytes, filePath⟩) :=
    readItems_eq _ _ [] rfl fun before => rfl
  rw [occurrences, occurrencesFrom_eq, List.filterMap_cons_none (by rfl), ← hunits]
  rfl

end Source

end RouteLinks
