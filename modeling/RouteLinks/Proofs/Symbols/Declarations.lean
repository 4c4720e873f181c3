import Mathlib.Data.List.Basic
import RouteLinks.Symbols.Model
/-!
# What a file declares

The classes and methods of a single file, before files are put together, and the promise under
which the model is built: a declaration is named by the place where it stands. A reader of sources
keeps the promise; the statements about models hold for any files that do.
-/

namespace RouteLinks

namespace SourceUnit

def isClass (u : SourceUnit) : Bool :=
  match u.head with
  | .ofClass _ => true
  | _ => false

def isMethod (u : SourceUnit) : Bool :=
  match u.head with
  | .ofMethod _ => true
  | _ => false

/-- Whether the place of a return type is known if one is written. -/
def isPlaced (u : SourceUnit) : Bool :=
  match u.head with
  | .ofMethod head => head.returnType.isNone || head.returnTypeAt.isSome
  | _ => true

theorem class?_eq_some {units : List SourceUnit} {u : SourceUnit} {c : Class}
    (h : u.class? units = some c) :
    u.isClass = true ∧ c.qualifiedName = qualify u.scope (qualify (u.owner.getD "") u.name) ∧
      c.methods = (units.filterMap method?).filter (·.containingClass == u.qualifiedName) := by
  unfold class? at h
  split at h
  · next head hhead =>
    cases h
    exact ⟨by rw [isClass, hhead], rfl, rfl⟩
  · cases h

theorem class?_isSome (units : List SourceUnit) {u : SourceUnit} (h : u.isClass = true) :
    ∃ c, u.class? units = some c := by
  unfold isClass at h
  split at h
  · next head hhead =>
    unfold class?
    rw [hhead]
    exact ⟨_, rfl⟩
  · cases h

theorem method?_eq_some {u : SourceUnit} {x : Method} (h : u.method? = some x) :
    u.isMethod = true ∧ u.ownerName? = some x.containingClass ∧
      (u.isPlaced = true → x.returnType.isSome = true → x.returnTypeAt.isSome = true) := by
  unfold method? at h
  split at h
  · next head owner hhead howner =>
    cases h
    refine ⟨by rw [isMethod, hhead], howner, ?_⟩
    intro hplaced htype
    cases hreturn : head.returnType <;> simp_all [isPlaced]
  · cases h

end SourceUnit

namespace SourceFile

/-- The class declarations of a file, in order, each with the methods that it is given. -/
def classes (f : SourceFile) : List Class := f.units.filterMap (SourceUnit.class? f.units)

def methods (f : SourceFile) : List Method := f.units.filterMap SourceUnit.method?

def methodsOf (f : SourceFile) (owner : String) : List Method :=
  f.methods.filter (·.containingClass == owner)

def declarationCount (f : SourceFile) (qualifiedName : String) : Nat :=
  f.classes.countP (·.qualifiedName == qualifiedName)

/-- Declarations are named by their places: a class has the name that the namespace and the
classes around it give it, a method stands in a class of the same file, and where a return type is
written its place is known. -/
structure IsRegular (f : SourceFile) : Prop where
  named : ∀ u ∈ f.units, u.isClass = true →
    u.qualifiedName = qualify u.scope (qualify (u.owner.getD "") u.name)
  owned : ∀ u ∈ f.units, u.isMethod = true →
    ∃ v ∈ f.units, v.isClass = true ∧ u.ownerName? = some v.qualifiedName
  placed : ∀ u ∈ f.units, u.isPlaced = true

instance (f : SourceFile) : Decidable f.IsRegular :=
  decidable_of_iff
    ((∀ u ∈ f.units, u.isClass = true →
        u.qualifiedName = qualify u.scope (qualify (u.owner.getD "") u.name)) ∧
      (∀ u ∈ f.units, u.isMethod = true →
        ∃ v ∈ f.units, v.isClass = true ∧ u.ownerName? = some v.qualifiedName) ∧
      ∀ u ∈ f.units, u.isPlaced = true)
    ⟨fun h => ⟨h.1, h.2.1, h.2.2⟩, fun h => ⟨h.named, h.owned, h.placed⟩⟩

end SourceFile

namespace SourceFile.IsRegular

variable {f : SourceFile}

theorem methods_eq (h : f.IsRegular) {c : Class} (hc : c ∈ f.classes) :
    c.methods = f.methodsOf c.qualifiedName := by
  obtain ⟨u, hu, hclass⟩ := List.mem_filterMap.mp hc
  obtain ⟨hkind, hname, hmethods⟩ := SourceUnit.class?_eq_some hclass
  rw [hmethods, hname, ← h.named u hu hkind]
  rfl

/-- The class of a method is declared in the same file. -/
theorem declarationCount_pos (h : f.IsRegular) {x : Method} (hx : x ∈ f.methods) :
    0 < f.declarationCount x.containingClass := by
  obtain ⟨u, hu, hmethod⟩ := List.mem_filterMap.mp hx
  obtain ⟨hkind, howner, _⟩ := SourceUnit.method?_eq_some hmethod
  obtain ⟨v, hv, hclass, hname⟩ := h.owned u hu hkind
  obtain ⟨c, hc⟩ := SourceUnit.class?_isSome f.units hclass
  refine List.countP_pos_iff.mpr ⟨c, List.mem_filterMap.mpr ⟨v, hv, hc⟩, ?_⟩
  rw [howner, Option.some.injEq] at hname
  rw [beq_iff_eq, (SourceUnit.class?_eq_some hc).2.1, hname, h.named v hv hclass]

theorem returnTypeAt_isSome (h : f.IsRegular) {x : Method} (hx : x ∈ f.methods)
    (htype : x.returnType.isSome = true) : x.returnTypeAt.isSome = true := by
  obtain ⟨u, hu, hmethod⟩ := List.mem_filterMap.mp hx
  obtain ⟨_, _, hplace⟩ := SourceUnit.method?_eq_some hmethod
  exact hplace (h.placed u hu) htype

theorem method?_isSome (h : f.IsRegular) {u : SourceUnit} (hu : u ∈ f.units)
    (hkind : u.isMethod = true) : ∃ x, u.method? = some x := by
  obtain ⟨v, _, _, howner⟩ := h.owned u hu hkind
  unfold SourceUnit.isMethod at hkind
  split at hkind
  · next head hhead =>
    unfold SourceUnit.method?
    rw [hhead, howner]
    exact ⟨_, rfl⟩
  · cases hkind

end SourceFile.IsRegular

end RouteLinks
