import Mathlib.Data.List.Induction
import Mathlib.Data.List.Nodup
import RouteLinks.Proofs.Symbols.Merging
import RouteLinks.Symbols.Discovery
/-!
# Different classes of one name

A class is told from others by its namespace, the classes around it, its name and the number of its
type parameters. The classes of a model are told apart by qualified names, which say nothing about
type parameters and do not say where the namespace ends. So what is declared as different classes
becomes one class if the qualified names are the same, with the methods of all of them; and it is
generic or not as the first declaration says, which decides about discovery. Classes are separate
exactly if no two of them share a qualified name.
-/

namespace RouteLinks

/-- What tells a class from others: where it stands, its name, and how many type parameters it
has. -/
structure ClassIdentity where
  scope : String
  owner : Option String
  name : String
  arity : Nat
  deriving DecidableEq, Repr

namespace ClassIdentity

/-- The name of a class with the classes around it. -/
def fullName (i : ClassIdentity) : String := qualify (i.owner.getD "") i.name

def qualifiedName (i : ClassIdentity) : String := qualify i.scope i.fullName

end ClassIdentity

/-- A declaration of a class: which class it means, and what it says about it. -/
structure Contribution where
  identity : ClassIdentity
  symbol : Class

/-- The declaration of a class that a declaration is, if it is one. -/
def SourceUnit.contribution? (units : List SourceUnit) (u : SourceUnit) : Option Contribution :=
  (u.class? units).map fun c => ⟨⟨u.scope, u.owner, u.name, c.typeParameters.length⟩, c⟩

namespace SourceFile

/-- The class declarations of a file, in order, each with the class it means. -/
def contributions (f : SourceFile) : List Contribution :=
  f.units.filterMap (SourceUnit.contribution? f.units)

/-- A file without the declarations of other classes that have the qualified name of a class. -/
def withoutNamesakes (i : ClassIdentity) (f : SourceFile) : SourceFile :=
  { f with
    units := f.units.filter fun u => (u.contribution? f.units).all fun d =>
      d.identity == i || d.identity.qualifiedName != i.qualifiedName }

theorem map_symbol_contributions (f : SourceFile) :
    f.contributions.map Contribution.symbol = f.classes := by
  rw [contributions, List.map_filterMap]
  apply List.filterMap_congr
  intro u _
  rw [SourceUnit.contribution?, Option.map_map]
  exact Option.map_id'

variable {f : SourceFile} {d : Contribution}

theorem mem_classes_of_mem_contributions (hd : d ∈ f.contributions) : d.symbol ∈ f.classes :=
  map_symbol_contributions f ▸ List.mem_map_of_mem hd

theorem qualifiedName_of_mem_contributions (hd : d ∈ f.contributions) :
    d.symbol.qualifiedName = d.identity.qualifiedName := by
  obtain ⟨u, _, hu⟩ := List.mem_filterMap.mp hd
  obtain ⟨c, hc, rfl⟩ := Option.map_eq_some_iff.mp hu
  exact (SourceUnit.class?_eq_some hc).2.1

theorem withoutNamesakes_eq_self {i : ClassIdentity}
    (h : ∀ d ∈ f.contributions, d.identity.qualifiedName = i.qualifiedName → d.identity = i) :
    f.withoutNamesakes i = f := by
  have hunits : f.units.filter (fun u => (u.contribution? f.units).all fun d =>
      d.identity == i || d.identity.qualifiedName != i.qualifiedName) = f.units := by
    rw [List.filter_eq_self]
    intro u hu
    cases hd : u.contribution? f.units with
    | none => rfl
    | some d =>
        have hsame := h d (List.mem_filterMap.mpr ⟨u, hu, hd⟩)
        simp only [Option.all_some, Bool.or_eq_true, beq_iff_eq, bne_iff_ne]
        tauto
  rw [withoutNamesakes, hunits]

end SourceFile

/-! ### What classes are made of -/

/-- Some declarations that have become one class, the first of them by itself. -/
structure Merger where
  first : Contribution
  others : List Contribution

namespace Merger

def parts (g : Merger) : List Contribution := g.first :: g.others

def result (g : Merger) : Class :=
  g.others.foldl (fun c d => c.merge d.symbol) g.first.symbol

def add (g : Merger) (d : Contribution) : Merger := ⟨g.first, g.others ++ [d]⟩

theorem parts_add (g : Merger) (d : Contribution) : (g.add d).parts = g.parts ++ [d] := rfl

theorem result_add (g : Merger) (d : Contribution) :
    (g.add d).result = g.result.merge d.symbol := by
  rw [result, add, List.foldl_append]
  rfl

/-- Induction on the declarations that come after the first. -/
theorem induct {motive : Merger → Prop} (single : ∀ d, motive ⟨d, []⟩)
    (add : ∀ g d, motive g → motive (g.add d)) (g : Merger) : motive g := by
  obtain ⟨first, others⟩ := g
  induction others using List.reverseRecOn with
  | nil => exact single first
  | append_singleton others d ih => exact add ⟨first, others⟩ d ih

theorem qualifiedName_result (g : Merger) :
    g.result.qualifiedName = g.first.symbol.qualifiedName := by
  induction g using induct with
  | single d => rfl
  | add g d ih => rwa [result_add, Class.qualifiedName_merge]

theorem methods_result (g : Merger) :
    g.result.methods = g.parts.flatMap fun d => d.symbol.methods := by
  induction g using induct with
  | single d => exact (List.append_nil _).symm
  | add g d ih =>
      rw [result_add, Class.methods_merge, ih, parts_add, List.flatMap_append,
        List.flatMap_singleton]

theorem any_result {flag : Class → Bool}
    (hmerge : ∀ first other, flag (first.merge other) = (flag first || flag other)) (g : Merger) :
    flag g.result = g.parts.any fun d => flag d.symbol := by
  induction g using induct with
  | single d => exact (Bool.or_false _).symm
  | add g d ih =>
      rw [result_add, hmerge, ih, parts_add, List.any_append, List.any_cons, List.any_nil,
        Bool.or_false]

theorem hasConstructors_result (g : Merger) :
    g.result.hasConstructors = g.parts.any fun d => d.symbol.hasConstructors :=
  g.any_result fun _ _ => rfl

/-- Each declaration has the qualified name of the first. -/
def SameName (g : Merger) : Prop :=
  ∀ d ∈ g.parts, d.symbol.qualifiedName = g.first.symbol.qualifiedName

theorem SameName.add {g : Merger} (h : g.SameName) {d : Contribution}
    (hd : d.symbol.qualifiedName = g.first.symbol.qualifiedName) : (g.add d).SameName := by
  intro e he
  rcases List.mem_append.mp (parts_add g d ▸ he) with he | he
  · exact h e he
  · rw [List.mem_singleton.mp he]
    exact hd

end Merger

namespace Model

/-- A further declaration goes to the class of its name, or becomes a class of its own. -/
theorem exists_mergers_addClass (d : Contribution) {mergers : List Merger}
    (hsame : ∀ g ∈ mergers, g.SameName) :
    ∃ next : List Merger, addClass d.symbol (mergers.map Merger.result) = next.map Merger.result ∧
      (next.flatMap Merger.parts).Perm (mergers.flatMap Merger.parts ++ [d]) ∧
      ∀ g ∈ next, g.SameName := by
  induction mergers with
  | nil =>
      refine ⟨[⟨d, []⟩], rfl, .refl _, ?_⟩
      exact List.forall_mem_singleton.mpr (List.forall_mem_singleton.mpr rfl)
  | cons g rest ih =>
      obtain ⟨hfirst, hrest⟩ := List.forall_mem_cons.mp hsame
      rw [List.map_cons, addClass, g.qualifiedName_result]
      by_cases hname : g.first.symbol.qualifiedName = d.symbol.qualifiedName
      · refine ⟨g.add d :: rest, ?_, ?_, ?_⟩
        · rw [if_pos (beq_iff_eq.mpr hname), List.map_cons, Merger.result_add]
        · rw [List.flatMap_cons, List.flatMap_cons, Merger.parts_add, List.append_assoc,
            List.append_assoc]
          exact List.perm_append_comm.append_left _
        · exact List.forall_mem_cons.mpr ⟨hfirst.add hname.symm, hrest⟩
      · obtain ⟨next, hnext, hperm, hnextSame⟩ := ih hrest
        refine ⟨g :: next, ?_, ?_, List.forall_mem_cons.mpr ⟨hfirst, hnextSame⟩⟩
        · rw [if_neg (by simpa using hname), hnext, List.map_cons]
        · rw [List.flatMap_cons, List.flatMap_cons, List.append_assoc]
          exact hperm.append_left _

def declarations (files : List SourceFile) : List Contribution :=
  files.flatMap SourceFile.contributions

/-- The classes of a model are merged from the declarations, each of which goes into one class. -/
structure MadeFrom (files : List SourceFile) (mergers : List Merger) : Prop where
  classes : (ofFiles files).classes = mergers.map Merger.result
  whole : (mergers.flatMap Merger.parts).Perm (declarations files)

theorem exists_madeFrom (files : List SourceFile) :
    ∃ mergers, MadeFrom files mergers ∧ ∀ g ∈ mergers, g.SameName := by
  have hclasses : (ofFiles files).classes =
      (declarations files).foldl (fun cs d => addClass d.symbol cs) [] := by
    have hsymbols : (declarations files).map Contribution.symbol =
        files.flatMap SourceFile.classes := by
      rw [declarations, List.map_flatMap]
      simp only [SourceFile.map_symbol_contributions]
    rw [ofFiles_eq_foldl, ← hsymbols, List.foldl_map]
  have hmade : ∀ declared : List Contribution, ∃ mergers : List Merger,
      declared.foldl (fun cs d => addClass d.symbol cs) [] = mergers.map Merger.result ∧
        (mergers.flatMap Merger.parts).Perm declared ∧ ∀ g ∈ mergers, g.SameName := by
    intro declared
    induction declared using List.reverseRecOn with
    | nil => exact ⟨[], rfl, .refl _, by simp⟩
    | append_singleton declared d ih =>
        obtain ⟨mergers, hmergers, hperm, hsame⟩ := ih
        obtain ⟨next, hnext, hadded, hnextSame⟩ := exists_mergers_addClass d hsame
        refine ⟨next, ?_, hadded.trans (hperm.append_right [d]), hnextSame⟩
        rw [List.foldl_append, List.foldl_cons, List.foldl_nil, hmergers, hnext]
  obtain ⟨mergers, hmergers, hperm, hsame⟩ := hmade (declarations files)
  exact ⟨mergers, ⟨hclasses.trans hmergers, hperm⟩, hsame⟩

theorem exists_merger_of_mem {files : List SourceFile} {c : Class}
    (hc : c ∈ (ofFiles files).classes) :
    ∃ g : Merger, g.result = c ∧
      ∀ d, d ∈ g.parts ↔ d ∈ declarations files ∧ d.symbol.qualifiedName = c.qualifiedName := by
  obtain ⟨mergers, hmade, hsame⟩ := exists_madeFrom files
  have hnames : (mergers.map fun g => g.result.qualifiedName).Nodup := by
    have hnodup := nodup_ofFiles files
    rwa [hmade.classes, List.map_map] at hnodup
  have hname : ∀ g ∈ mergers, ∀ d ∈ g.parts, d.symbol.qualifiedName = g.result.qualifiedName :=
    fun g hg d hd => (hsame g hg d hd).trans g.qualifiedName_result.symm
  rw [hmade.classes] at hc
  obtain ⟨g, hg, rfl⟩ := List.mem_map.mp hc
  refine ⟨g, rfl, fun d => ⟨fun hd => ⟨?_, hname g hg d hd⟩, ?_⟩⟩
  · exact hmade.whole.mem_iff.mp (List.mem_flatMap.mpr ⟨g, hg, hd⟩)
  · rintro ⟨hd, hsameName⟩
    obtain ⟨g', hg', hpart⟩ := List.mem_flatMap.mp (hmade.whole.mem_iff.mpr hd)
    obtain rfl : g' = g :=
      List.inj_on_of_nodup_map hnames hg' hg ((hname g' hg' d hpart).symm.trans hsameName)
    exact hpart

/-! ### Separate classes -/

/-- A class is among the controllers. -/
def Discovers (m : Model) (i : ClassIdentity) : Prop :=
  ∃ c ∈ m.controllers,
    c.scope = i.scope ∧ c.name = i.fullName ∧ c.typeParameters.length = i.arity

instance (m : Model) (i : ClassIdentity) : Decidable (m.Discovers i) := by
  unfold Discovers
  infer_instance

/-- Declarations become one class only if they mean one class, and a method is in a class only if
it is from declarations of that class. -/
structure MadeApart (files : List SourceFile) (mergers : List Merger) : Prop
    extends MadeFrom files mergers where
  alike : ∀ g ∈ mergers, ∀ d ∈ g.parts, ∀ e ∈ g.parts, d.identity = e.identity
  methods : ∀ g ∈ mergers, ∀ x ∈ g.result.methods, ∀ d ∈ declarations files,
    x ∈ d.symbol.methods → ∀ e ∈ g.parts, d.identity = e.identity

/-- Different classes have nothing to do with each other: they are merged apart, and whether one is
discovered does not depend on others of its name. -/
structure Separates (files : List SourceFile) : Prop where
  apart : ∃ mergers, MadeApart files mergers
  discovered : ∀ d ∈ declarations files, (ofFiles files).Discovers d.identity ↔
    (ofFiles (files.map (·.withoutNamesakes d.identity))).Discovers d.identity

variable {files : List SourceFile}

/-- No two classes have one qualified name. -/
def NoNamesakes (files : List SourceFile) : Prop :=
  ∀ d ∈ declarations files, ∀ e ∈ declarations files,
    d.identity.qualifiedName = e.identity.qualifiedName → d.identity = e.identity

theorem qualifiedName_of_mem_declarations {d : Contribution} (hd : d ∈ declarations files) :
    d.symbol.qualifiedName = d.identity.qualifiedName := by
  obtain ⟨f, _, hf⟩ := List.mem_flatMap.mp hd
  exact SourceFile.qualifiedName_of_mem_contributions hf

theorem containingClass_of_mem_methods (hregular : ∀ f ∈ files, f.IsRegular) {d : Contribution}
    (hd : d ∈ declarations files) {x : Method} (hx : x ∈ d.symbol.methods) :
    x.containingClass = d.identity.qualifiedName := by
  obtain ⟨f, hf, hmem⟩ := List.mem_flatMap.mp hd
  rw [(hregular f hf).methods_eq (SourceFile.mem_classes_of_mem_contributions hmem)] at hx
  rw [← qualifiedName_of_mem_declarations hd]
  exact beq_iff_eq.mp (List.mem_filter.mp hx).2

/-- Where declarations become one class only if they mean one, no two classes have one name: the
classes of a model differ in their names. -/
theorem noNamesakes_of_alike {mergers : List Merger} (hmade : MadeFrom files mergers)
    (halike : ∀ g ∈ mergers, ∀ d ∈ g.parts, ∀ e ∈ g.parts, d.identity = e.identity) :
    NoNamesakes files := by
  have hnames : (mergers.map fun g => g.result.qualifiedName).Nodup := by
    have hnodup := nodup_ofFiles files
    rwa [hmade.classes, List.map_map] at hnodup
  -- The class that a declaration has gone into has the name of the declaration.
  have hmerger : ∀ d ∈ declarations files,
      ∃ g ∈ mergers, d ∈ g.parts ∧ g.result.qualifiedName = d.identity.qualifiedName := by
    intro d hd
    obtain ⟨g, hg, hpart⟩ := List.mem_flatMap.mp (hmade.whole.mem_iff.mpr hd)
    have hfirst : g.first ∈ declarations files :=
      hmade.whole.mem_iff.mp (List.mem_flatMap.mpr ⟨g, hg, List.mem_cons_self⟩)
    refine ⟨g, hg, hpart, ?_⟩
    rw [g.qualifiedName_result, qualifiedName_of_mem_declarations hfirst,
      halike g hg _ List.mem_cons_self d hpart]
  intro d hd e he hsame
  obtain ⟨g, hg, hdPart, hdName⟩ := hmerger d hd
  obtain ⟨g', hg', hePart, heName⟩ := hmerger e he
  obtain rfl : g = g' :=
    List.inj_on_of_nodup_map hnames hg hg' (hdName.trans (hsame.trans heName.symm))
  exact halike g hg d hdPart e hePart

/-- Where no two classes have one name, declarations that become one class mean one class. -/
theorem madeApart_of_noNamesakes (hregular : ∀ f ∈ files, f.IsRegular) (hnone : NoNamesakes files) :
    ∃ mergers, MadeApart files mergers := by
  obtain ⟨mergers, hmade, hsame⟩ := exists_madeFrom files
  have hpart : ∀ g ∈ mergers, ∀ d ∈ g.parts, d ∈ declarations files := fun g hg d hd =>
    hmade.whole.mem_iff.mp (List.mem_flatMap.mpr ⟨g, hg, hd⟩)
  have halike : ∀ g ∈ mergers, ∀ d ∈ g.parts, ∀ e ∈ g.parts, d.identity = e.identity := by
    intro g hg d hd e he
    apply hnone d (hpart g hg d hd) e (hpart g hg e he)
    rw [← qualifiedName_of_mem_declarations (hpart g hg d hd),
      ← qualifiedName_of_mem_declarations (hpart g hg e he), hsame g hg d hd, hsame g hg e he]
  refine ⟨mergers, hmade, halike, ?_⟩
  intro g hg x hx d hd hxd e he
  rw [g.methods_result] at hx
  obtain ⟨e', he', hxe⟩ := List.mem_flatMap.mp hx
  rw [← halike g hg e' he' e he]
  apply hnone d hd e' (hpart g hg e' he')
  rw [← containingClass_of_mem_methods hregular hd hxd,
    containingClass_of_mem_methods hregular (hpart g hg e' he') hxe]

/-- Different classes are separate exactly if no two of them have one qualified name. -/
theorem separates_iff_noNamesakes (hregular : ∀ f ∈ files, f.IsRegular) :
    Separates files ↔ NoNamesakes files := by
  constructor
  · rintro ⟨⟨_, hapart⟩, _⟩
    exact noNamesakes_of_alike hapart.toMadeFrom hapart.alike
  · intro hnone
    refine ⟨madeApart_of_noNamesakes hregular hnone, ?_⟩
    intro d hd
    have hsame : files.map (·.withoutNamesakes d.identity) = files := by
      refine (List.map_congr_left fun f hf => ?_).trans (List.map_id files)
      apply SourceFile.withoutNamesakes_eq_self
      intro e he
      exact hnone e (List.mem_flatMap.mpr ⟨f, hf, he⟩) d hd
    rw [hsame]

def declaringFile (filePath : String) (classes : List (String × List String × String)) :
    SourceFile :=
  { filePath
    units := classes.flatMap fun (name, typeParameters, method) =>
      [{ head := .ofClass { modifiers := ["public"], typeParameters }, name
         qualifiedName := name, filePath },
       { head := .ofMethod { modifiers := ["public"] }, name := method
         qualifiedName := name ++ "." ++ method, owner := some name, filePath }] }

/-- A generic class of another name does not matter, nor does a further part in another file. -/
theorem separates_generic_base :
    (∀ f ∈ [declaringFile "A.cs" [("BaseController", ["T"], "Find"),
        ("FooController", [], "Index")], declaringFile "B.cs" [("FooController", [], "About")]],
      f.IsRegular) ∧
    Separates [declaringFile "A.cs" [("BaseController", ["T"], "Find"),
      ("FooController", [], "Index")], declaringFile "B.cs" [("FooController", [], "About")]] := by
  have hregular : ∀ f ∈ [declaringFile "A.cs" [("BaseController", ["T"], "Find"),
      ("FooController", [], "Index")], declaringFile "B.cs" [("FooController", [], "About")]],
      f.IsRegular := by decide
  refine ⟨hregular, (separates_iff_noNamesakes hregular).mpr ?_⟩
  unfold NoNamesakes
  decide

/-- A generic class takes the other one of its name with it, which is a controller otherwise. -/
theorem not_separates_generic_namesake :
    (∀ f ∈ [declaringFile "A.cs" [("FooController", ["T"], "Find"),
        ("FooController", [], "Index")]], f.IsRegular) ∧
    (ofFiles [declaringFile "A.cs" [("FooController", ["T"], "Find"),
        ("FooController", [], "Index")]]).controllers = [] ∧
    ¬ Separates [declaringFile "A.cs" [("FooController", ["T"], "Find"),
        ("FooController", [], "Index")]] := by
  refine ⟨by decide, by decide, ?_⟩
  intro hseparates
  have hdiscovered := hseparates.discovered
  revert hdiscovered
  decide

end Model

end RouteLinks
