import RouteLinks.Proofs.Links.HalfMembers
import RouteLinks.Proofs.Source.Constructors
/-!
# Constructors of a generated half

A class without a constructor for instances has one without parameters that nobody wrote, up to the
moment in which another one is added to it. The generated half adds the one that the companion
calls, so it also has to add the one without parameters, and only where nobody wrote any. What it
goes by are the constructors that were read: those in the bodies of all declarations of a qualified
name. So a static constructor counts though it makes no instances, a primary constructor does not
count, and the constructors of another class of that name do.
-/

namespace RouteLinks

namespace SourceUnit

/-- What a declaration of a class says about the constructors of its file. -/
theorem hasConstructors_of_class?_eq_some {units : List SourceUnit} {u : SourceUnit} {c : Class}
    (h : u.class? units = some c) :
    c.hasConstructors = true ↔ HasConstructor units u.qualifiedName := by
  have hkind : ∀ v : SourceUnit, v.isConstructor = v.constructorHead?.isSome := by
    intro v
    unfold isConstructor constructorHead?
    cases v.head <;> rfl
  unfold class? at h
  split at h
  · cases h
    simp [HasConstructor, hkind]
  · cases h

end SourceUnit

namespace Model

theorem hasConstructors_iff {files : List SourceFile} (hregular : ∀ f ∈ files, f.IsRegular)
    {c : Class} (hc : c ∈ (ofFiles files).classes) :
    c.hasConstructors = true ↔ ∃ f ∈ files,
      (∃ u ∈ f.units, u.isClass = true ∧ u.qualifiedName = c.qualifiedName) ∧
        HasConstructor f.units c.qualifiedName := by
  obtain ⟨g, rfl, hparts⟩ := exists_merger_of_mem hc
  rw [g.hasConstructors_result, List.any_eq_true]
  constructor
  · rintro ⟨d, hd, hhas⟩
    obtain ⟨hdeclared, hname⟩ := (hparts d).mp hd
    obtain ⟨f, hf, hmem⟩ := List.mem_flatMap.mp hdeclared
    obtain ⟨u, hu, hcontribution⟩ := List.mem_filterMap.mp hmem
    obtain ⟨symbol, hsymbol, rfl⟩ := Option.map_eq_some_iff.mp hcontribution
    obtain ⟨hclass, hplace, _⟩ := SourceUnit.class?_eq_some hsymbol
    have hunit : u.qualifiedName = g.result.qualifiedName :=
      ((hregular f hf).named u hu hclass).trans (hplace.symm.trans hname)
    exact ⟨f, hf, ⟨u, hu, hclass, hunit⟩,
      hunit ▸ (SourceUnit.hasConstructors_of_class?_eq_some hsymbol).mp hhas⟩
  · rintro ⟨f, hf, ⟨u, hu, hclass, hunit⟩, hhas⟩
    obtain ⟨symbol, hsymbol⟩ := SourceUnit.class?_isSome f.units hclass
    have hplace := (SourceUnit.class?_eq_some hsymbol).2.1
    refine ⟨⟨⟨u.scope, u.owner, u.name, symbol.typeParameters.length⟩, symbol⟩, ?_, ?_⟩
    · refine (hparts _).mpr ⟨List.mem_flatMap.mpr ⟨f, hf, List.mem_filterMap.mpr ⟨u, hu, ?_⟩⟩, ?_⟩
      · rw [SourceUnit.contribution?, hsymbol]
        rfl
      · exact hplace.trans (((hregular f hf).named u hu hclass).symm.trans hunit)
    · exact (SourceUnit.hasConstructors_of_class?_eq_some hsymbol).mpr (hunit ▸ hhas)

/-- The class declarations of some sources, each with its constructors. -/
def declaredClasses (g : Grammar) (sources : List (String × Bytes)) : List DeclaredClass :=
  sources.flatMap fun source => Source.declaredClasses g source.2

/-- A class of a program has constructors if a declaration of its qualified name has one in its
body. -/
theorem hasConstructors_ofSources_iff {g : Grammar} {sources : List (String × Bytes)} {c : Class}
    (hc : c ∈ (ofSources g sources).classes) :
    c.hasConstructors = true ↔ ∃ d ∈ declaredClasses g sources,
      d.qualifiedName = c.qualifiedName ∧ d.inBody ≠ [] := by
  have hregular : ∀ f ∈ (sortBy (fun a b => precedes a.1 b.1) sources).map fun source =>
      Source.read g source.2 source.1, f.IsRegular :=
    List.forall_mem_map.mpr fun source _ => Source.read_isRegular g source.2 source.1
  have hsource : ∀ source, source ∈ sortBy (fun a b => precedes a.1 b.1) sources ↔
      source ∈ sources := fun _ => (sortBy_perm _ sources).mem_iff
  rw [hasConstructors_iff hregular hc]
  constructor
  · rintro ⟨f, hf, -, hhas⟩
    obtain ⟨source, hmem, rfl⟩ := List.mem_map.mp hf
    obtain ⟨d, hd, hdeclares⟩ := Source.hasConstructor_read_iff.mp hhas
    exact ⟨d, List.mem_flatMap.mpr ⟨source, (hsource source).mp hmem, hd⟩, hdeclares⟩
  · rintro ⟨d, hd, hname, hbody⟩
    obtain ⟨source, hmem, hd⟩ := List.mem_flatMap.mp hd
    obtain ⟨u, hu, hclass, hunit⟩ := Source.exists_unit_of_mem_declaredClasses hd source.1
    exact ⟨_, List.mem_map_of_mem ((hsource source).mpr hmem), ⟨u, hu, hclass, hunit.trans hname⟩,
      Source.hasConstructor_read_iff.mpr ⟨d, hd, hname, hbody⟩⟩

end Model

/-! ### The half of a controller -/

def Node.isConstructor : Node → Bool
  | .method _ [] _ => true
  | _ => false

def Node.constructors : Node → List Node
  | .type _ _ _ _ members => members.filter isConstructor
  | _ => []

theorem Node.constructors_eq (n : Node) : n.constructors = n.members.filter isConstructor := by
  cases n <;> rfl

namespace Controller

def identity (c : Controller) : ClassIdentity := ⟨c.scope, none, c.className, 0⟩

/-- The constructor that a class has though nobody wrote it. -/
def plainConstructor (c : Controller) : Node :=
  .method ("public " ++ c.className ++ "()") [] [generatedMark]

def markedConstructor (c : Controller) : Node :=
  .method ("protected " ++ c.className ++ "(" ++ dummyClass ++ " d)" ++
    if c.baseController.isSome then " : base(" ++ dummyClass ++ ".Instance)" else "") []
    [generatedMark]

theorem constructors_generatedHalf (c : Controller) (s : Settings) (field : Option String) :
    (c.generatedHalf s field).constructors =
      if c.symbol.hasConstructors then [c.markedConstructor]
      else [c.plainConstructor, c.markedConstructor] := by
  have hconstructors : c.constructors = if c.symbol.hasConstructors then [c.markedConstructor]
      else [c.plainConstructor, c.markedConstructor] := rfl
  have hkept : c.constructors.filter Node.isConstructor = c.constructors := by
    rw [hconstructors]
    split <;> rfl
  have hother : ∀ n ∈ c.accessorActions.map accessor ++ (c.halfMembers s field).map HalfMember.node,
      ¬n.isConstructor = true := by
    intro n hn
    rcases List.mem_append.mp hn with haccessor | hmember
    · obtain ⟨a, -, rfl⟩ := List.mem_map.mp haccessor
      exact Bool.false_ne_true
    · obtain ⟨member, -, rfl⟩ := List.mem_map.mp hmember
      cases member <;> exact Bool.false_ne_true
  rw [← hconstructors, Node.constructors_eq, members_generatedHalf, List.filter_append, hkept,
    List.filter_eq_nil_iff.mpr hother, List.append_nil]

/-- The constructors of a class stay what they were, but for the one that the companion calls: the
half has the plain constructor besides it if no declaration of the class has a constructor for
instances, and nothing besides it otherwise. -/
structure KeepsConstructors (declared : List DeclaredClass) (c : Controller) (half : Node) :
    Prop where
  implicit : (∀ d ∈ declared, d.identity = c.identity → d.makesInstances = false) →
    half.constructors = [c.plainConstructor, c.markedConstructor]
  explicit : ∀ d ∈ declared, d.identity = c.identity → d.makesInstances = true →
    half.constructors = [c.markedConstructor]

theorem keepsConstructors_generatedHalf_iff (declared : List DeclaredClass) (c : Controller)
    (s : Settings) (field : Option String) :
    c.KeepsConstructors declared (c.generatedHalf s field) ↔
      (c.symbol.hasConstructors = true ↔
        ∃ d ∈ declared, d.identity = c.identity ∧ d.makesInstances = true) := by
  have hhalf := constructors_generatedHalf c s field
  constructor
  · intro hkeeps
    constructor
    · intro hhas
      by_contra hnone
      have himplicit : (c.generatedHalf s field).constructors = _ :=
        hkeeps.implicit fun d hd hsame =>
          Bool.eq_false_iff.mpr fun hinstances => hnone ⟨d, hd, hsame, hinstances⟩
      rw [hhalf, if_pos hhas] at himplicit
      cases (List.cons.inj himplicit).2
    · rintro ⟨d, hd, hsame, hinstances⟩
      by_contra hhas
      have hexplicit := hkeeps.explicit d hd hsame hinstances
      rw [hhalf, if_neg hhas] at hexplicit
      cases (List.cons.inj hexplicit).2
  · intro htells
    constructor
    case implicit =>
      intro hnone
      have hhas : ¬c.symbol.hasConstructors = true := by
        intro hhas
        obtain ⟨d, hd, hsame, hinstances⟩ := htells.mp hhas
        rw [hnone d hd hsame] at hinstances
        cases hinstances
      rw [hhalf, if_neg hhas]
    case explicit =>
      intro d hd hsame hinstances
      rw [hhalf, if_pos (htells.mpr ⟨d, hd, hsame, hinstances⟩)]

/-- Constructors are kept exactly if those that were read tell what there are: some declaration of
the qualified name has one in its body if and only if some declaration of the class has one for
instances. -/
theorem keepsConstructors_iff {g : Grammar} {sources : List (String × Bytes)} {c : Controller}
    (hc : c ∈ all (Model.ofSources g sources)) (s : Settings) (field : Option String) :
    c.KeepsConstructors (Model.declaredClasses g sources) (c.generatedHalf s field) ↔
      ((∃ d ∈ Model.declaredClasses g sources,
          d.qualifiedName = c.qualifiedName ∧ d.inBody ≠ []) ↔
        ∃ d ∈ Model.declaredClasses g sources,
          d.identity = c.identity ∧ d.makesInstances = true) := by
  obtain ⟨symbol, hsymbol, rfl⟩ := mem_all.mp hc
  rw [keepsConstructors_generatedHalf_iff]
  exact iff_congr (Model.hasConstructors_ofSources_iff (Model.mem_controllers.mp hsymbol).1) .rfl

def homePart (head members : List Phrase) : List Phrase :=
  [Phrase.classOf ["public", "partial"] "HomeController" head members]

def homeSources (parts : List (List Phrase)) : List (String × Bytes) :=
  ["A.cs", "B.cs"].zip (parts.map Phrase.source)

def intParameter : Phrase :=
  .node none "parameter" [.leaf (some "type") "predefined_type" true "int", Phrase.space,
    Phrase.identifier "id" (some "name")]

/-- A part without constructors, and one with a constructor that makes instances. -/
def writtenParts : List (List Phrase) :=
  [homePart [] [], homePart [] [Phrase.constructorOf [] "HomeController" [intParameter]]]

/-- A constructor in one part is one of the class, so the half adds none to it. -/
theorem keepsConstructors_written_in_part :
    ∃ c ∈ all (Model.ofSources (Phrase.grammar writtenParts) (homeSources writtenParts)),
      c.symbol.hasConstructors = true ∧ ∀ s field, c.KeepsConstructors
        (Model.declaredClasses (Phrase.grammar writtenParts) (homeSources writtenParts))
        (c.generatedHalf s field) := by
  have hfound : ∃ c ∈ all (Model.ofSources (Phrase.grammar writtenParts)
        (homeSources writtenParts)), c.symbol.hasConstructors = true ∧
      c.identity = ⟨"", none, "HomeController", 0⟩ ∧ c.qualifiedName = "HomeController" := by
    decide +kernel
  obtain ⟨c, hc, hhas, hidentity, hname⟩ := hfound
  refine ⟨c, hc, hhas, fun s field => (keepsConstructors_iff hc s field).mpr ?_⟩
  rw [hidentity, hname]
  decide +kernel

theorem exists_not_keepsConstructors {g : Grammar} {sources : List (String × Bytes)}
    (h : ∃ c ∈ all (Model.ofSources g sources), ¬(c.symbol.hasConstructors = true ↔
      ∃ d ∈ Model.declaredClasses g sources,
        d.identity = c.identity ∧ d.makesInstances = true)) :
    ∃ c ∈ all (Model.ofSources g sources), ∀ s field,
      ¬ c.KeepsConstructors (Model.declaredClasses g sources) (c.generatedHalf s field) := by
  obtain ⟨c, hc, hdiffers⟩ := h
  exact ⟨c, hc, fun s field hkeeps =>
    hdiffers ((keepsConstructors_generatedHalf_iff _ c s field).mp hkeeps)⟩

def staticParts : List (List Phrase) :=
  [homePart [] [Phrase.constructorOf ["static"] "HomeController" []]]

def primaryParts : List (List Phrase) := [homePart [Phrase.parameterList [intParameter] none] []]

/-- A static constructor takes the plain constructor away, and where there is a primary constructor
the plain one is added to it. -/
theorem not_keepsConstructors_static_or_primary :
    (∃ c ∈ all (Model.ofSources (Phrase.grammar staticParts) (homeSources staticParts)),
      ∀ s field, ¬ c.KeepsConstructors
        (Model.declaredClasses (Phrase.grammar staticParts) (homeSources staticParts))
        (c.generatedHalf s field)) ∧
    ∃ c ∈ all (Model.ofSources (Phrase.grammar primaryParts) (homeSources primaryParts)),
      ∀ s field, ¬ c.KeepsConstructors
        (Model.declaredClasses (Phrase.grammar primaryParts) (homeSources primaryParts))
        (c.generatedHalf s field) := by
  constructor
  · apply exists_not_keepsConstructors
    decide +kernel
  · apply exists_not_keepsConstructors
    decide +kernel

end Controller

end RouteLinks
