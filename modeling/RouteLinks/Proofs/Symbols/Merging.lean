import Mathlib.Algebra.Order.BigOperators.Group.List
import Mathlib.Algebra.Order.Ring.Nat
import Mathlib.Data.List.Nodup
import RouteLinks.Proofs.Order
import RouteLinks.Proofs.Symbols.Declarations
/-!
# Merging of declarations

What becomes of the declarations of one name. The classes of a model are told apart by their names,
and the methods of a class are those that its declarations bring, one declaration after another. A
declaration brings all methods that its file has for the class, so a class that is declared twice in
one file has the methods of that file twice. Apart from this no method is lost or repeated.
-/

namespace RouteLinks

@[simp] theorem Class.qualifiedName_merge (first other : Class) :
    (first.merge other).qualifiedName = first.qualifiedName := by
  rfl

@[simp] theorem Class.methods_merge (first other : Class) :
    (first.merge other).methods = first.methods ++ other.methods := by
  rfl

namespace Model

def methodsIn (classes : List Class) (qualifiedName : String) : List Method :=
  ((classes.find? (·.qualifiedName == qualifiedName)).map Class.methods).getD []

/-- The methods that a declaration brings to the class with a name. -/
def brought (qualifiedName : String) (c : Class) : List Method :=
  if c.qualifiedName = qualifiedName then c.methods else []

theorem methodsIn_addClass (c : Class) (classes : List Class) (qualifiedName : String) :
    methodsIn (addClass c classes) qualifiedName =
      methodsIn classes qualifiedName ++ brought qualifiedName c := by
  induction classes with
  | nil => by_cases h : c.qualifiedName = qualifiedName <;> simp [addClass, methodsIn, brought, h]
  | cons d rest ih =>
      rw [addClass]
      by_cases hsame : d.qualifiedName = c.qualifiedName
      · by_cases hname : c.qualifiedName = qualifiedName
        · simp [hsame, hname, methodsIn, brought]
        · simp [hsame, hname, methodsIn, brought]
      · simp only [beq_iff_eq, hsame, if_false]
        by_cases hname : d.qualifiedName = qualifiedName
        · have hother : c.qualifiedName ≠ qualifiedName := fun h => hsame (hname.trans h.symm)
          simp [methodsIn, brought, hname, hother]
        · simpa [methodsIn, hname] using ih

theorem methodsIn_foldl_addClass (declared classes : List Class) (qualifiedName : String) :
    methodsIn (declared.foldl (fun cs c => addClass c cs) classes) qualifiedName =
      methodsIn classes qualifiedName ++ declared.flatMap (brought qualifiedName) := by
  induction declared generalizing classes with
  | nil => simp
  | cons c rest ih =>
      rw [List.foldl_cons, ih, methodsIn_addClass, List.flatMap_cons, List.append_assoc]

theorem ofFiles_eq_foldl (files : List SourceFile) :
    (ofFiles files).classes =
      (files.flatMap SourceFile.classes).foldl (fun cs c => addClass c cs) [] := by
  rw [List.foldl_flatMap]
  rfl

theorem methodsIn_ofFiles (files : List SourceFile) (qualifiedName : String) :
    methodsIn (ofFiles files).classes qualifiedName =
      files.flatMap fun f => f.classes.flatMap (brought qualifiedName) := by
  rw [ofFiles_eq_foldl, methodsIn_foldl_addClass, List.flatMap_assoc]
  rfl

/-! ### The names of a model -/

theorem map_qualifiedName_addClass (c : Class) (classes : List Class) :
    (addClass c classes).map Class.qualifiedName =
      if c.qualifiedName ∈ classes.map Class.qualifiedName then classes.map Class.qualifiedName
      else classes.map Class.qualifiedName ++ [c.qualifiedName] := by
  induction classes with
  | nil => simp [addClass]
  | cons d rest ih =>
      rw [addClass]
      by_cases hsame : d.qualifiedName = c.qualifiedName
      · simp [hsame]
      · simp only [beq_iff_eq, hsame, if_false, List.map_cons, ih, List.mem_cons,
          Ne.symm hsame, false_or]
        split <;> rfl

/-- The names after some declarations: no name twice, and just those that were there or are
declared. -/
theorem names_foldl_addClass (declared classes : List Class)
    (hnodup : (classes.map Class.qualifiedName).Nodup) :
    ((declared.foldl (fun cs c => addClass c cs) classes).map Class.qualifiedName).Nodup ∧
      ∀ name, name ∈ (declared.foldl (fun cs c => addClass c cs) classes).map Class.qualifiedName ↔
        name ∈ classes.map Class.qualifiedName ∨ name ∈ declared.map Class.qualifiedName := by
  induction declared generalizing classes with
  | nil => simpa using hnodup
  | cons c rest ih =>
      have hstep := map_qualifiedName_addClass c classes
      have hnext : ((addClass c classes).map Class.qualifiedName).Nodup := by
        rw [hstep]
        split
        · exact hnodup
        · next hnew => exact List.nodup_append.mpr ⟨hnodup, List.nodup_singleton _, by
            rintro a ha b hb rfl
            exact hnew (List.mem_singleton.mp hb ▸ ha)⟩
      refine ⟨(ih _ hnext).1, ?_⟩
      intro name
      rw [List.foldl_cons, (ih _ hnext).2 name, hstep, List.map_cons, List.mem_cons]
      split
      · next hold =>
        constructor
        · tauto
        · rintro (h | rfl | h) <;> tauto
      · rw [List.mem_append, List.mem_singleton, or_assoc]

theorem nodup_ofFiles (files : List SourceFile) :
    ((ofFiles files).classes.map Class.qualifiedName).Nodup := by
  rw [ofFiles_eq_foldl]
  exact (names_foldl_addClass _ [] List.nodup_nil).1

theorem mem_names_ofFiles (files : List SourceFile) (name : String) :
    name ∈ (ofFiles files).classes.map Class.qualifiedName ↔
      ∃ f ∈ files, name ∈ f.classes.map Class.qualifiedName := by
  rw [ofFiles_eq_foldl, (names_foldl_addClass _ [] List.nodup_nil).2, List.map_flatMap]
  simp

/-- What holds of every declaration of a class, and is kept where declarations are merged, holds of
every class of a model. -/
theorem forall_mem_ofFiles {P : Class → Prop} {files : List SourceFile}
    (hmerge : ∀ c d, P c → P d → P (c.merge d)) (hfiles : ∀ f ∈ files, ∀ c ∈ f.classes, P c) :
    ∀ c ∈ (ofFiles files).classes, P c := by
  have hadd : ∀ (c : Class) (classes : List Class), P c → (∀ d ∈ classes, P d) →
      ∀ d ∈ addClass c classes, P d := by
    intro c classes hc hclasses
    induction classes with
    | nil => exact List.forall_mem_singleton.mpr hc
    | cons d rest ih =>
        obtain ⟨hd, hrest⟩ := List.forall_mem_cons.mp hclasses
        rw [addClass]
        split
        · exact List.forall_mem_cons.mpr ⟨hmerge d c hd hc, hrest⟩
        · exact List.forall_mem_cons.mpr ⟨hd, ih hrest⟩
  have hfold : ∀ declared classes : List Class, (∀ c ∈ declared, P c) → (∀ c ∈ classes, P c) →
      ∀ c ∈ declared.foldl (fun cs c => addClass c cs) classes, P c := by
    intro declared
    induction declared with
    | nil => exact fun _ _ hclasses => hclasses
    | cons c rest ih =>
        intro classes hdeclared hclasses
        obtain ⟨hc, hrest⟩ := List.forall_mem_cons.mp hdeclared
        exact ih _ hrest (hadd c classes hc hclasses)
  rw [ofFiles_eq_foldl]
  refine hfold _ [] (fun c hc => ?_) (by simp)
  obtain ⟨f, hf, hclass⟩ := List.mem_flatMap.mp hc
  exact hfiles f hf c hclass

/-! ### The methods of a model -/

variable {files : List SourceFile}

/-- Equal declarations bring the same methods, each once more. -/
theorem flatMap_brought_eq_replicate {declared : List Class} {given : String → List Method}
    (hgiven : ∀ c ∈ declared, c.methods = given c.qualifiedName) (qualifiedName : String) :
    declared.flatMap (brought qualifiedName) =
      (List.replicate (declared.countP (·.qualifiedName == qualifiedName))
        (given qualifiedName)).flatten := by
  induction declared with
  | nil => simp
  | cons c rest ih =>
      obtain ⟨hfirst, hrest⟩ := List.forall_mem_cons.mp hgiven
      rw [List.flatMap_cons, ih hrest]
      by_cases hname : c.qualifiedName = qualifiedName
      · rw [List.countP_cons_of_pos (by simpa using hname), List.replicate_succ, List.flatten_cons,
          brought, if_pos hname, hfirst, hname]
      · rw [List.countP_cons_of_neg (by simpa using hname), brought, if_neg hname, List.nil_append]

/-- The methods of a class: those of each file, once for every declaration in that file. -/
theorem methods_of_mem_ofFiles (hregular : ∀ f ∈ files, f.IsRegular) {c : Class}
    (hc : c ∈ (ofFiles files).classes) :
    c.methods = files.flatMap fun f => (List.replicate (f.declarationCount c.qualifiedName)
      (f.methodsOf c.qualifiedName)).flatten := by
  have hfound := methodsIn_ofFiles files c.qualifiedName
  rw [methodsIn, find?_eq_of_nodup (nodup_ofFiles files) hc] at hfound
  rw [show c.methods = _ from hfound]
  apply List.flatMap_congr
  intro f hf
  exact flatMap_brought_eq_replicate (fun _ hdeclared => (hregular f hf).methods_eq hdeclared) _

/-- No method is lost or repeated: classes differ in their names, every declaration of a method is a
method of the class it belongs to, and a class has its methods file by file, in the order of the
source. -/
structure KeepsMethods (files : List SourceFile) (m : Model) : Prop where
  distinct : (m.classes.map Class.qualifiedName).Nodup
  complete : ∀ f ∈ files, ∀ u ∈ f.units, u.isMethod = true → ∃ x ∈ f.methods, u.method? = some x
  placed : ∀ f ∈ files, ∀ x ∈ f.methods, x.containingClass ∈ m.classes.map Class.qualifiedName
  inOrder : ∀ c ∈ m.classes, c.methods = files.flatMap (·.methodsOf c.qualifiedName)

theorem placed_ofFiles (hregular : ∀ f ∈ files, f.IsRegular) {f : SourceFile} (hf : f ∈ files)
    {x : Method} (hx : x ∈ f.methods) :
    x.containingClass ∈ (ofFiles files).classes.map Class.qualifiedName := by
  obtain ⟨c, hc, hname⟩ := List.countP_pos_iff.mp ((hregular f hf).declarationCount_pos hx)
  exact (mem_names_ofFiles files _).mpr ⟨f, hf, List.mem_map.mpr ⟨c, hc, by simpa using hname⟩⟩

theorem length_methodsOf_le {f : SourceFile} (hregular : f.IsRegular) (owner : String) :
    (f.methodsOf owner).length ≤ f.declarationCount owner * (f.methodsOf owner).length := by
  rcases Nat.eq_zero_or_pos (f.methodsOf owner).length with hnone | hsome
  · simp [hnone]
  · obtain ⟨x, hx⟩ := List.exists_mem_of_length_pos hsome
    obtain ⟨hmethod, howner⟩ := List.mem_filter.mp hx
    have hpos := hregular.declarationCount_pos hmethod
    rw [beq_iff_eq.mp howner] at hpos
    exact Nat.le_mul_of_pos_left _ hpos

theorem declarationCount_eq_one (hregular : ∀ f ∈ files, f.IsRegular) {c : Class}
    (hc : c ∈ (ofFiles files).classes)
    (hkept : c.methods = files.flatMap (·.methodsOf c.qualifiedName)) {f : SourceFile}
    (hf : f ∈ files) {x : Method} (hx : x ∈ f.methods)
    (howner : x.containingClass = c.qualifiedName) :
    f.declarationCount c.qualifiedName = 1 := by
  have hlengths := congrArg List.length ((methods_of_mem_ofFiles hregular hc).symm.trans hkept)
  simp only [List.length_flatMap, List.length_flatten, List.map_replicate,
    List.sum_replicate_nat] at hlengths
  by_contra hcount
  have hpos : 0 < f.declarationCount c.qualifiedName :=
    howner ▸ (hregular f hf).declarationCount_pos hx
  have hown : 0 < (f.methodsOf c.qualifiedName).length :=
    List.length_pos_of_mem (List.mem_filter.mpr ⟨hx, beq_iff_eq.mpr howner⟩)
  refine absurd hlengths (Nat.ne_of_gt (List.sum_lt_sum _ _ ?_ ⟨f, hf, ?_⟩))
  · intro g hg
    exact length_methodsOf_le (hregular g hg) _
  · exact lt_mul_of_one_lt_left hown (by omega)

/-- A class that is declared once in each file that has methods for it has them in order. -/
theorem methods_eq_flatMap_methodsOf (hregular : ∀ f ∈ files, f.IsRegular) {c : Class}
    (hc : c ∈ (ofFiles files).classes)
    (hcount : ∀ f ∈ files, ∀ x ∈ f.methods, f.declarationCount x.containingClass = 1) :
    c.methods = files.flatMap (·.methodsOf c.qualifiedName) := by
  rw [methods_of_mem_ofFiles hregular hc]
  apply List.flatMap_congr
  intro f hf
  rcases hmethods : f.methodsOf c.qualifiedName with _ | ⟨x, rest⟩
  · simp
  · have hx : x ∈ f.methodsOf c.qualifiedName := hmethods ▸ List.mem_cons_self
    obtain ⟨hmethod, howner⟩ := List.mem_filter.mp hx
    rw [← beq_iff_eq.mp howner, hcount f hf x hmethod]
    simp

/-- Methods are kept exactly if no file declares a class twice for which it has methods. -/
theorem keepsMethods_ofFiles_iff (hregular : ∀ f ∈ files, f.IsRegular) :
    (ofFiles files).KeepsMethods files ↔
      ∀ f ∈ files, ∀ x ∈ f.methods, f.declarationCount x.containingClass = 1 := by
  constructor
  · intro hkeeps f hf x hx
    obtain ⟨c, hc, hname⟩ := List.mem_map.mp (hkeeps.placed f hf x hx)
    rw [← hname]
    exact declarationCount_eq_one hregular hc (hkeeps.inOrder c hc) hf hx hname.symm
  · intro hcount
    refine ⟨nodup_ofFiles files, ?_, ?_, ?_⟩
    · intro f hf u hu hkind
      obtain ⟨x, hx⟩ := (hregular f hf).method?_isSome hu hkind
      exact ⟨x, List.mem_filterMap.mpr ⟨u, hu, hx⟩, hx⟩
    · intro f hf x hx
      exact placed_ofFiles hregular hf hx
    · intro c hc
      exact methods_eq_flatMap_methodsOf hregular hc hcount

def fileOfParts (filePath : String) (methods : List String) : SourceFile :=
  { filePath
    units := methods.flatMap fun name =>
      [{ head := .ofClass { modifiers := ["public", "partial"] }, name := "HomeController"
         qualifiedName := "App.HomeController", scope := "App", filePath },
       { head := .ofMethod { returnType := some "IActionResult", returnTypeAt := some 0 }, name
         qualifiedName := "App.HomeController." ++ name, scope := "App"
         owner := some "HomeController", filePath }] }

/-- Parts in different files are put together as they should be. -/
theorem keepsMethods_parts_in_two_files :
    (∀ f ∈ [fileOfParts "A.cs" ["Index"], fileOfParts "B.cs" ["About"]], f.IsRegular) ∧
      (ofFiles [fileOfParts "A.cs" ["Index"], fileOfParts "B.cs" ["About"]]).KeepsMethods
        [fileOfParts "A.cs" ["Index"], fileOfParts "B.cs" ["About"]] := by
  have hregular : ∀ f ∈ [fileOfParts "A.cs" ["Index"], fileOfParts "B.cs" ["About"]],
      f.IsRegular := by decide
  exact ⟨hregular, (keepsMethods_ofFiles_iff hregular).mpr (by decide)⟩

/-- Two parts in one file have every method of that file twice. -/
theorem not_keepsMethods_parts_in_one_file :
    (∀ f ∈ [fileOfParts "A.cs" ["Index", "About"]], f.IsRegular) ∧
      (ofFiles [fileOfParts "A.cs" ["Index", "About"]]).classes.map (·.methods.map (·.name)) =
        [["Index", "About", "Index", "About"]] ∧
      ¬ (ofFiles [fileOfParts "A.cs" ["Index", "About"]]).KeepsMethods
        [fileOfParts "A.cs" ["Index", "About"]] := by
  refine ⟨by decide, by decide, ?_⟩
  intro hkeeps
  have hinOrder := hkeeps.inOrder
  revert hinOrder
  decide

end Model

end RouteLinks
