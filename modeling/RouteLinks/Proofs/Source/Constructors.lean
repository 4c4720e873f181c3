import RouteLinks.Proofs.Source.Phrase
import RouteLinks.Proofs.Source.Reading
import RouteLinks.Proofs.Symbols.Identity
/-!
# Constructors of a source

A class can have constructors in its body, with `static` or without, and a primary constructor,
which is a parameter list in its head. All of this is in the tree of the source: what constructors a
class declaration has is read off its node here. What is read from the source has a declaration for
each constructor in a body, whatever its modifiers are, and nothing for a primary constructor.
-/

namespace RouteLinks

/-- A declaration of a class, with the constructors it has: whether there is one in its head, and
the modifiers of those in its body. -/
structure DeclaredClass where
  identity : ClassIdentity
  hasPrimary : Bool
  inBody : List (List String)
  deriving DecidableEq

namespace DeclaredClass

def qualifiedName (d : DeclaredClass) : String := d.identity.qualifiedName

/-- Whether a declaration has a constructor that makes instances. -/
def makesInstances (d : DeclaredClass) : Bool :=
  d.hasPrimary || d.inBody.any fun modifiers => !modifiers.contains "static"

end DeclaredClass

def SourceUnit.constructorHead? (u : SourceUnit) : Option ConstructorHead :=
  match u.head with
  | .ofConstructor head => some head
  | _ => none

def HasConstructor (units : List SourceUnit) (qualifiedName : String) : Prop :=
  ∃ u ∈ units, u.constructorHead?.isSome = true ∧ u.ownerName? = some qualifiedName

namespace Source

open SyntaxNode

/-! ### What a tree says -/

/-- The constructors in the body of a class. -/
def constructorsIn (n : SyntaxNode) : List SyntaxNode :=
  match n.child? "declaration_list" with
  | some body => body.children.filter (·.kind == "constructor_declaration")
  | none => []

/-- The class that a node declares, if it is a class declaration that stands where these do. -/
def declaredClass? (bytes : Bytes) (o : Occurrence) : Option DeclaredClass :=
  (Spot.of? bytes o.around).bind fun s =>
    if o.node.kind == "class_declaration" && s.level != .parts then
      (nameOf? bytes o.node).map fun name =>
        let arity := (typeParameterNames bytes (o.node.child? "type_parameter_list")).length
        { identity := ⟨s.scope bytes, s.owner bytes, name, arity⟩
          hasPrimary := (o.node.child? "parameter_list").isSome
          inBody := (constructorsIn o.node).map (modifiersOf bytes) }
    else none

/-- The class declarations of a source, in order, each with its constructors. -/
def declaredClasses (g : Grammar) (bytes : Bytes) : List DeclaredClass :=
  (g bytes).occurrences.filterMap (declaredClass? bytes)

/-- A static constructor is one in the body, and a primary constructor is not. -/
example : (declaredClasses (Phrase.grammar [[Phrase.classOf [] "A" [Phrase.parameterList [] none]
      [Phrase.constructorOf ["static"] "A" []]]])
    (Phrase.source [Phrase.classOf [] "A" [Phrase.parameterList [] none]
      [Phrase.constructorOf ["static"] "A" []]])).map (fun d => (d.hasPrimary, d.inBody)) =
    [(true, [["static"]])] := by decide +kernel

/-! ### What is read of constructors -/

variable {g : Grammar} {bytes : Bytes} {filePath : String} {n m : SyntaxNode}

theorem child?_eq_some_iff {kind : String} : n.child? kind = some m ↔
    m.kind = kind ∧ ∃ before after, n.children = before ++ m :: after ∧
      before.all (·.kind != kind) = true := by
  rw [child?, List.find?_eq_some_iff_append]
  simp

theorem declaredClass?_eq_some_iff {o : Occurrence} {d : DeclaredClass} :
    declaredClass? bytes o = some d ↔ ∃ s name, Spot.of? bytes o.around = some s ∧
      o.node.kind = "class_declaration" ∧ s.level ≠ .parts ∧ nameOf? bytes o.node = some name ∧
      d = { identity := ⟨s.scope bytes, s.owner bytes, name,
              (typeParameterNames bytes (o.node.child? "type_parameter_list")).length⟩
            hasPrimary := (o.node.child? "parameter_list").isSome
            inBody := (constructorsIn o.node).map (modifiersOf bytes) } := by
  simp only [declaredClass?, Option.bind_eq_some_iff, Option.ite_none_right_eq_some,
    Bool.and_eq_true, beq_iff_eq, bne_iff_ne, Option.map_eq_some_iff, and_assoc]
  constructor
  · rintro ⟨s, hs, hkind, hlevel, name, hname, rfl⟩
    exact ⟨s, name, hs, hkind, hlevel, hname, rfl⟩
  · rintro ⟨s, name, hs, hkind, hlevel, hname, rfl⟩
    exact ⟨s, hs, hkind, hlevel, name, hname, rfl⟩

theorem exists_unit_of_mem_declaredClasses {d : DeclaredClass} (hd : d ∈ declaredClasses g bytes)
    (filePath : String) : ∃ u ∈ (read g bytes filePath).units,
      u.isClass = true ∧ u.qualifiedName = d.qualifiedName := by
  obtain ⟨o, ho, hdeclared⟩ := List.mem_filterMap.mp hd
  obtain ⟨s, name, hs, hkind, hlevel, hname, rfl⟩ := declaredClass?_eq_some_iff.mp hdeclared
  have hunit := Reading.unitAt?_of_class (r := ⟨bytes, filePath⟩) hkind hlevel hname
  exact ⟨_, mem_read_iff.mpr ⟨_, _, s, _, mem_occurrences_iff.mp ho, hs, hunit, rfl⟩, rfl, rfl⟩

/-- The constructors of a class stand in its body. -/
theorem mem_constructorsIn_iff : m ∈ constructorsIn n ↔ m.kind = "constructor_declaration" ∧
    ∃ before body after front rest, n.children = before ++ body :: after ∧
      before.all (·.kind != "declaration_list") = true ∧ body.kind = "declaration_list" ∧
        body.children = front ++ m :: rest := by
  constructor
  · intro hm
    unfold constructorsIn at hm
    split at hm
    · next body hbody =>
      obtain ⟨hm, hkind⟩ := List.mem_filter.mp hm
      obtain ⟨hlist, before, after, hchildren, hfirst⟩ := child?_eq_some_iff.mp hbody
      obtain ⟨front, rest, hmembers⟩ := List.append_of_mem hm
      exact ⟨by simpa using hkind, before, body, after, front, rest, hchildren, hfirst, hlist,
        hmembers⟩
    · cases hm
  · rintro ⟨hkind, before, body, after, front, rest, hchildren, hfirst, hlist, hmembers⟩
    rw [constructorsIn, child?_eq_some_iff.mpr ⟨hlist, before, after, hchildren, hfirst⟩]
    refine List.mem_filter.mpr ⟨?_, by simp [hkind]⟩
    rw [hmembers]
    exact List.mem_append_right _ List.mem_cons_self

theorem constructorUnit_of_unitAt? {r : Reading} {s : Spot} {u : SourceUnit}
    (h : r.unitAt? s n = some u) (hhead : u.constructorHead?.isSome = true) :
    s.level = .members ∧ n.kind = "constructor_declaration" ∧
      r.constructorUnit (s.context r) n = u := by
  rcases Reading.unitAt?_eq_some h with
    ⟨-, -, name, -, rfl⟩ | ⟨hlevel, ⟨-, hmethod⟩ | ⟨hkind, hunit⟩⟩
  · cases hhead
  · obtain ⟨name, -, rfl⟩ := Option.map_eq_some_iff.mp hmethod
    cases hhead
  · exact ⟨hlevel, hkind, hunit⟩

/-- A constructor in the body of a class stands in the class that is declared. -/
theorem hasConstructor_read_iff {name : String} :
    HasConstructor (read g bytes filePath).units name ↔
      ∃ d ∈ declaredClasses g bytes, d.qualifiedName = name ∧ d.inBody ≠ [] := by
  constructor
  · rintro ⟨u, hu, hhead, howner⟩
    obtain ⟨around, n, s, v, hway, hs, hv, rfl⟩ := mem_read_iff.mp hu
    obtain ⟨hlevel, hkind, rfl⟩ := constructorUnit_of_unitAt? hv hhead
    obtain ⟨outer, t, c, body, hbody⟩ := Spot.exists_isInBody hs hlevel
    obtain ⟨hclass, className, hname, -, hin⟩ :=
      exists_class_of_isInBody (r := ⟨bytes, filePath⟩) hway hbody
    rw [hbody.around_eq] at hway
    obtain ⟨hparts, rest, hmembers⟩ := hway.of_concat
    obtain ⟨-, after, hchildren⟩ := hparts.of_concat
    have hmem : n ∈ constructorsIn c.parent := mem_constructorsIn_iff.mpr
      ⟨hkind, _, _, after, _, rest, hchildren, hbody.isFirst, hbody.isBody, hmembers⟩
    refine ⟨_, List.mem_filterMap.mpr ⟨⟨outer, c.parent⟩, mem_occurrences_iff.mpr hclass,
      declaredClass?_eq_some_iff.mpr ⟨t, className, hbody.stands, hbody.isClass, hbody.level, hname,
        rfl⟩⟩, ?_, ?_⟩
    · exact Option.some.inj (hin.symm.trans howner)
    · exact List.ne_nil_of_mem (List.mem_map_of_mem hmem)
  · rintro ⟨d, hd, rfl, hne⟩
    obtain ⟨⟨outer, c⟩, ho, hdeclared⟩ := List.mem_filterMap.mp hd
    obtain ⟨t, className, ht, hkind, hlevel, hname, rfl⟩ := declaredClass?_eq_some_iff.mp hdeclared
    obtain ⟨n, hn⟩ := List.exists_mem_of_ne_nil _ (fun hnil => hne (congrArg (List.map _) hnil))
    obtain ⟨hconstructor, before, body, after, front, rest, hchildren, hfirst, hlist, hmembers⟩ :=
      mem_constructorsIn_iff.mp hn
    have hway : Leads (outer ++ [⟨c, before⟩] ++ [⟨body, front⟩]) (g bytes) n :=
      ((mem_occurrences_iff.mp ho).concat hchildren).concat hmembers
    have hbody : Spot.IsInBody bytes (outer ++ [⟨c, before⟩] ++ [⟨body, front⟩])
        { t.inside c with level := .members } outer t ⟨c, before⟩ ⟨body, front⟩ :=
      ⟨rfl, rfl, ht, hlevel, hkind, by rw [hname]; rfl, hfirst, hlist⟩
    obtain ⟨-, name, hsame, -, hin⟩ :=
      exists_class_of_isInBody (r := ⟨bytes, filePath⟩) hway hbody
    obtain rfl : className = name := Option.some.inj (hname.symm.trans hsame)
    have hunit := Reading.unitAt?_of_constructor (r := ⟨bytes, filePath⟩) hconstructor
      (s := { t.inside c with level := .members }) rfl
    exact ⟨_, mem_read_iff.mpr ⟨_, n, _, _, hway, hbody.of?_eq, hunit, rfl⟩, rfl, hin⟩

end Source

end RouteLinks
