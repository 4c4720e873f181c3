import RouteLinks.Links.StaticFiles
import RouteLinks.Proofs.Links.Regrouping
import RouteLinks.Proofs.Routes.Overridable
import RouteLinks.Proofs.Symbols.Sample
/-!
# The namespaces that generated code opens

An override repeats the parameters of an action as the source of the action has them, so the types
in it are found only if the namespaces of that source are open where the override stands. A
controller collects them from its own source and from the bases that its actions come from; the
scope around its declarations opens them. Declarations outside of all namespaces have no scope
around them, and their file opens the namespaces that all files open and no others.
-/

namespace RouteLinks

/-- A declaration where it stands in a file: its namespace, and the namespaces open there. -/
structure Site where
  scope : String
  opened : List String
  declaration : Node

def Node.sites (opened : List String) : Node → List Site
  | .scope name usings members => members.map (⟨name, opened ++ usings, ·⟩)
  | node => [⟨"", opened, node⟩]

def CompilationUnit.sites (unit : CompilationUnit) : List Site :=
  unit.members.flatMap (Node.sites unit.usings)

theorem Node.mem_declared_of_mem_sites {opened : List String} {node : Node} {site : Site}
    (h : site ∈ node.sites opened) : (site.scope, site.declaration) ∈ node.declared := by
  cases node with
  | scope name usings members =>
      obtain ⟨declaration, hmem, rfl⟩ := List.mem_map.mp h
      exact List.mem_map_of_mem hmem
  | _ =>
      rw [List.mem_singleton.mp h]
      exact List.mem_singleton_self _

namespace Links

variable {l : Links}

def units (l : Links) (t : FileTree) : List CompilationUnit :=
  (if l.settings.splitsFiles then l.sourceUnits.map Prod.snd else []) ++
    [l.aggregate (StaticFiles.node? t l.settings l.projectRoot)]

/-! ### Where the declarations of a controller stand -/

theorem sites_unitOf (s : Settings) (members : List Node) :
    (unitOf s members).sites =
      members.flatMap (Node.sites (commonUsings ++ [s.targetNamespace])) := rfl

/-- Where a declaration for some controllers stands: outside of all namespaces with nothing opened
for it, or inside of a scope that opens the namespaces of all its controllers. -/
theorem of_mem_sites_members {cs : List Controller} {opened : List String} {site : Site}
    (h : site ∈ (l.members cs).flatMap (Node.sites opened)) :
    ∃ c ∈ cs, site.scope = c.scope ∧ site.declaration ∈ l.declarations c ∧
      opened ⊆ site.opened ∧ (c.scope ≠ "" → c.usings ⊆ site.opened) := by
  obtain ⟨node, hnode, hsite⟩ := List.mem_flatMap.mp h
  obtain ⟨⟨scope, group⟩, hgroup, hnode⟩ := List.mem_flatMap.mp hnode
  have hmember : ∀ c ∈ group, c ∈ cs ∧ c.scope = scope := fun c hc => (mem_group_iff hgroup).mp hc
  simp only [scopeMembers] at hnode
  split at hnode
  · next hglobal =>
    obtain ⟨c, hc, hd⟩ := List.mem_flatMap.mp hnode
    have hscope : c.scope = "" := (hmember c hc).2.trans (String.isEmpty_iff.mp hglobal)
    have hplain : node.sites opened = [⟨"", opened, node⟩] := by
      rcases mem_declarations hd with rfl | rfl <;> rfl
    obtain rfl := List.mem_singleton.mp (hplain ▸ hsite)
    exact ⟨c, (hmember c hc).1, hscope.symm, hd, List.Subset.refl _, fun h => absurd hscope h⟩
  · obtain rfl := List.mem_singleton.mp hnode
    obtain ⟨d, hd, rfl⟩ := List.mem_map.mp hsite
    obtain ⟨c, hc, hd⟩ := List.mem_flatMap.mp hd
    refine ⟨c, (hmember c hc).1, (hmember c hc).2.symm, hd, List.subset_append_left _ _, ?_⟩
    intro _ name hname
    exact List.mem_append_right _
      (mem_mergeUnique.mpr (.inr (List.mem_flatMap.mpr ⟨c, hc, hname⟩)))

theorem mem_sites_members {cs : List Controller} {c : Controller} (hc : c ∈ cs)
    (hscope : c.scope = "") {d : Node} (hd : d ∈ l.declarations c) (opened : List String) :
    ⟨"", opened, d⟩ ∈ (l.members cs).flatMap (Node.sites opened) := by
  have hgroup : ∃ g ∈ groupBy Controller.scope cs, g.1 = "" := by
    have hkeys : "" ∈ (groupBy Controller.scope cs).map Prod.fst := by
      rw [map_fst_groupBy, mem_firstMet]
      exact List.mem_map.mpr ⟨c, hc, hscope⟩
    exact List.mem_map.mp hkeys
  obtain ⟨⟨scope, group⟩, hg, rfl⟩ := hgroup
  have hmem : c ∈ group := (mem_group_iff hg).mpr ⟨hc, hscope⟩
  refine List.mem_flatMap.mpr ⟨d, List.mem_flatMap.mpr ⟨_, hg, ?_⟩, ?_⟩
  · exact List.mem_flatMap.mpr ⟨c, hmem, hd⟩
  · rcases mem_declarations hd with rfl | rfl <;> exact List.mem_singleton_self _

theorem not_mem_staticLinks {c : Controller} {d : Node} (hd : d ∈ l.declarations c) {t : FileTree}
    (scope : String) :
    (scope, d) ∉
      (StaticFiles.node? t l.settings l.projectRoot).toList.flatMap Node.declared := by
  intro hmem
  obtain ⟨node, hnode, hdeclared⟩ := List.mem_flatMap.mp hmem
  obtain ⟨links, _, rfl⟩ := Option.map_eq_some_iff.mp (Option.mem_toList.mp hnode)
  obtain ⟨name, url, constants, classes⟩ := links
  obtain ⟨_, hlinks, heq⟩ := List.mem_map.mp hdeclared
  obtain ⟨-, rfl⟩ := Prod.mk.inj heq
  rw [List.mem_singleton] at hlinks
  rcases mem_declarations hd with rfl | rfl <;>
    exact absurd (Node.type.inj hlinks).2.1 (by decide)

/-- Wherever a file has a declaration for a controller, it is with the declarations for some
controllers of the run. -/
theorem mem_sites_members_of_mem_units {t : FileTree} {unit : CompilationUnit}
    (hunit : unit ∈ l.units t) {site : Site} (hsite : site ∈ unit.sites) {c : Controller}
    (hd : site.declaration ∈ l.declarations c) :
    ∃ cs ⊆ l.controllers,
      site ∈ (l.members cs).flatMap
        (Node.sites (commonUsings ++ [l.settings.targetNamespace])) := by
  rcases List.mem_append.mp hunit with hsource | hroot
  · split at hsource
    · obtain ⟨_, hmem, rfl⟩ := List.mem_map.mp hsource
      obtain ⟨⟨source, cs⟩, hg, rfl⟩ := List.mem_map.mp hmem
      exact ⟨cs, fun c hc => ((mem_group_iff hg).mp hc).1, hsite⟩
    · cases hsource
  · obtain rfl := List.mem_singleton.mp hroot
    rw [aggregate, aggregateUnit, sites_unitOf, List.flatMap_append, List.flatMap_append] at hsite
    have hdeclared : ∀ (opened : List String) (nodes : List Node),
        site ∈ nodes.flatMap (Node.sites opened) →
          (site.scope, site.declaration) ∈ nodes.flatMap Node.declared := by
      intro opened nodes hmem
      obtain ⟨node, hnode, hmem⟩ := List.mem_flatMap.mp hmem
      exact List.mem_flatMap.mpr ⟨node, hnode, Node.mem_declared_of_mem_sites hmem⟩
    rcases List.mem_append.mp hsite with hmem | hshared
    · rcases List.mem_append.mp hmem with hmem | hstatic
      · split at hmem
        · cases hmem
        · exact ⟨l.controllers, List.Subset.refl _, hmem⟩
      · exact absurd (hdeclared _ _ hstatic) (not_mem_staticLinks hd site.scope)
    · exact absurd (hdeclared _ _ hshared) (not_mem_shared hd site.scope)

/-- A controller outside of all namespaces has declarations in a file that opens for them what it
opens for all. -/
theorem exists_site {c : Controller} (hc : c ∈ l.controllers) (hscope : c.scope = "")
    (t : FileTree) :
    ∃ unit ∈ l.units t, ∃ site ∈ unit.sites, site.scope = c.scope ∧
      site.declaration ∈ l.declarations c ∧
      site.opened = commonUsings ++ [l.settings.targetNamespace] := by
  have hhalf : c.generatedHalf l.settings (Registry.fieldOf? l.registry c) ∈ l.declarations c := by
    unfold declarations
    dsimp only
    split <;> simp
  have hsite : ∀ cs : List Controller, c ∈ cs → ∃ site ∈ (l.members cs).flatMap
      (Node.sites (commonUsings ++ [l.settings.targetNamespace])), site.scope = c.scope ∧
        site.declaration ∈ l.declarations c ∧
        site.opened = commonUsings ++ [l.settings.targetNamespace] :=
    fun cs hmem => ⟨_, mem_sites_members hmem hscope hhalf _, hscope.symm, hhalf, rfl⟩
  unfold units
  cases hsplit : l.settings.splitsFiles with
  | true =>
      have hsource : c.filePath ∈ l.bySource.map Prod.fst := by
        rw [bySource, map_fst_groupBy, mem_firstMet]
        exact List.mem_map_of_mem hc
      obtain ⟨⟨source, cs⟩, hg, hpath⟩ := List.mem_map.mp hsource
      obtain ⟨site, hmem, hfor⟩ := hsite cs ((mem_group_iff hg).mpr ⟨hc, hpath.symm⟩)
      have hunit : unitOf l.settings (l.members cs) ∈ l.sourceUnits.map Prod.snd :=
        List.mem_map_of_mem (List.mem_map_of_mem hg)
      exact ⟨_, List.mem_append_left _ hunit, site, hmem, hfor⟩
  | false =>
      obtain ⟨site, hmem, hfor⟩ := hsite l.controllers hc
      refine ⟨_, List.mem_append_right _ (List.mem_singleton_self _), site, ?_, hfor⟩
      rw [aggregate, aggregateUnit, sites_unitOf, List.flatMap_append, List.flatMap_append, hsplit]
      exact List.mem_append_left _ (List.mem_append_left _ hmem)

/-- The namespaces of a controller are open wherever a file of the run has a declaration for it. -/
def OpensUsings (l : Links) (t : FileTree) (c : Controller) : Prop :=
  ∀ unit ∈ l.units t, ∀ site ∈ unit.sites, site.scope = c.scope →
    site.declaration ∈ l.declarations c → c.usings ⊆ site.opened

theorem opensUsings_iff (hnodup : (l.controllers.map Controller.qualifiedName).Nodup)
    (t : FileTree) {c : Controller} (hc : c ∈ l.controllers) :
    l.OpensUsings t c ↔
      (c.scope = "" → c.usings ⊆ commonUsings ++ [l.settings.targetNamespace]) := by
  constructor
  · intro hopens hscope
    obtain ⟨unit, hunit, site, hsite, hat, hd, hopened⟩ := exists_site hc hscope t
    exact hopened ▸ hopens unit hunit site hsite hat hd
  · intro hglobal unit hunit site hsite hat hd
    obtain ⟨cs, hcs, hmem⟩ := mem_sites_members_of_mem_units hunit hsite hd
    obtain ⟨c', hc', hat', hd', hopened, hscoped⟩ := of_mem_sites_members hmem
    obtain rfl : c = c' := by
      apply eq_of_mem_declaredFor hnodup hc (hcs hc') (d := (c.scope, site.declaration))
      · exact List.mem_map_of_mem hd
      · exact hat ▸ hat' ▸ List.mem_map_of_mem hd'
    by_cases hscope : c.scope = ""
    · exact List.Subset.trans (hglobal hscope) hopened
    · exact hscoped hscope

end Links

namespace Controller

/-- What a controller opens for the sake of its bases: the namespaces of every base that an action
comes from, except where it stands in them itself, each once and none that its own source opens. -/
structure CollectsUsings (m : Model) (c : Controller) : Prop where
  inherited : ∀ a ∈ c.actions, ∀ base ∈ (m.ancestry c.symbol).chain.drop 1,
    a.method ∈ base.methods → ∀ name ∈ base.scope :: base.usings, name ≠ "" →
      name ∈ c.usings ∨ name = c.scope
  once : ∃ added, c.usings = c.symbol.usings ++ added ∧ added.Nodup ∧
    c.symbol.usings.Disjoint added

theorem collectsUsings {files : List SourceFile} (hregular : ∀ f ∈ files, f.IsRegular)
    {c : Controller} (hc : c ∈ all (Model.ofFiles files)) :
    c.CollectsUsings (Model.ofFiles files) := by
  obtain ⟨symbol, _, rfl⟩ := mem_all.mp hc
  obtain ⟨bases, hchain, hbases⟩ := (Model.ofFiles files).chain_ancestry symbol
  have husings : (ofClass (Model.ofFiles files) (runOf (Model.ofFiles files)) symbol).usings =
      usingsFor symbol bases
        (ofClass (Model.ofFiles files) (runOf (Model.ofFiles files)) symbol).actions := by
    simp only [ofClass, hchain, List.drop_succ_cons, List.drop_zero]
  constructor
  case inherited =>
    intro a ha base hbase hmethod name hname hnonempty
    replace hbase : base ∈ bases := by simpa [hchain, ofClass] using hbase
    rw [or_iff_not_imp_right]
    intro hother
    -- The base that declares the method is the one that the action is said to come from.
    have hdeclaring : a.declaringClass = base.qualifiedName :=
      (Model.of_mem_methods_ofFiles hregular (hbases base hbase) hmethod).1
    rw [husings, usingsFor, mem_mergeUnique]
    refine .inr (List.mem_filter.mpr ⟨List.mem_flatMap.mpr ⟨base, ?_, hname⟩, ?_⟩)
    · exact List.mem_filter.mpr
        ⟨hbase, List.any_eq_true.mpr ⟨a, ha, beq_iff_eq.mpr hdeclaring⟩⟩
    · simpa using ⟨hnonempty, hother⟩
  case once =>
    obtain ⟨added, hmerged, hnodup, hdisjoint, _⟩ := exists_added_mergeUnique symbol.usings _
    exact ⟨added, husings.trans hmerged, hnodup, hdisjoint⟩

end Controller

/-- The namespaces that the actions of a controller need are collected, and open where they are
needed. -/
structure Links.Imports (l : Links) (t : FileTree) (c : Controller) : Prop
    extends c.CollectsUsings l.model where
  opened : l.OpensUsings t c

namespace Links

theorem opensUsings_ofFiles_iff {files : List SourceFile} (s : Settings) (projectRoot : String)
    (t : FileTree) {c : Controller} (hc : c ∈ Controller.all (Model.ofFiles files)) :
    OpensUsings ⟨s, Model.ofFiles files, projectRoot⟩ t c ↔
      (c.scope = "" → c.usings ⊆ commonUsings ++ [s.targetNamespace]) :=
  opensUsings_iff (l := ⟨s, Model.ofFiles files, projectRoot⟩) (Controller.nodup_all files) t hc

/-- Namespaces reach the declarations of all controllers but of those that stand outside of all
namespaces and need one that not every file opens. -/
theorem imports_iff {files : List SourceFile} (hregular : ∀ f ∈ files, f.IsRegular) (s : Settings)
    (projectRoot : String) (t : FileTree) {c : Controller}
    (hc : c ∈ Controller.all (Model.ofFiles files)) :
    Imports ⟨s, Model.ofFiles files, projectRoot⟩ t c ↔
      (c.scope = "" → c.usings ⊆ commonUsings ++ [s.targetNamespace]) := by
  rw [← opensUsings_ofFiles_iff s projectRoot t hc]
  exact ⟨Imports.opened, fun h => ⟨Controller.collectsUsings hregular hc, h⟩⟩

def itemBase : SourceFile :=
  { filePath := "Base.cs"
    units := [
      { head := .ofClass { modifiers := ["public"], usings := ["Shop"] }, name := "BaseController"
        qualifiedName := "App.BaseController", scope := "App", filePath := "Base.cs" },
      { head := .ofMethod (.action [{ name := "item", type := some "Item" }] ["virtual"])
        name := "Item", qualifiedName := "App.BaseController.Item", scope := "App"
        owner := some "BaseController", filePath := "Base.cs" }] }

def itemHeir : SourceFile :=
  { filePath := "Home.cs"
    units := [
      { head := .ofClass { modifiers := ["public"], base := some "App.BaseController" }
        name := "HomeController", qualifiedName := "Web.HomeController", scope := "Web"
        filePath := "Home.cs" }] }

/-- The namespaces of a base reach its heir in another namespace. -/
theorem imports_heir_in_namespace :
    (∀ f ∈ [itemBase, itemHeir], f.IsRegular) ∧
    ∃ c ∈ Controller.all (Model.ofFiles [itemBase, itemHeir]),
      c.qualifiedName = "Web.HomeController" ∧ c.actions.map (·.name) = ["Item"] ∧
      c.usings = ["App", "Shop"] ∧
      ∀ t, Imports ⟨{}, Model.ofFiles [itemBase, itemHeir], ""⟩ t c := by
  have hregular : ∀ f ∈ [itemBase, itemHeir], f.IsRegular := by decide
  have hfound : ∃ c ∈ Controller.all (Model.ofFiles [itemBase, itemHeir]),
      c.qualifiedName = "Web.HomeController" ∧ c.actions.map (·.name) = ["Item"] ∧
        c.usings = ["App", "Shop"] ∧ c.scope ≠ "" := by
    decide +kernel
  obtain ⟨c, hc, hname, hactions, husings, hscope⟩ := hfound
  exact ⟨hregular, c, hc, hname, hactions, husings, fun t =>
    (imports_iff hregular {} "" t hc).mpr fun hglobal => absurd hglobal hscope⟩

/-- A controller outside of all namespaces whose action has a parameter of a type from a namespace
that its source opens. -/
def itemGlobal : SourceFile :=
  .sample [
    { SourceUnit.sampleClass "HomeController" with
      head := .ofClass { modifiers := ["public"], usings := ["Shop"] } },
    .sampleMethod "HomeController" "Item" (.action [{ name := "item", type := some "Item" }])]

/-- The namespaces of a controller outside of all namespaces do not reach its declarations. -/
theorem not_opensUsings_outside_namespaces :
    ∃ c ∈ Controller.all (Model.ofFiles [itemGlobal]), c.usings = ["Shop"] ∧
      ∀ t, ¬ OpensUsings ⟨{}, Model.ofFiles [itemGlobal], ""⟩ t c := by
  have hfound : ∃ c ∈ Controller.all (Model.ofFiles [itemGlobal]), c.usings = ["Shop"] ∧
      c.scope = "" := by
    decide +kernel
  obtain ⟨c, hc, husings, hscope⟩ := hfound
  refine ⟨c, hc, husings, fun t hopens => ?_⟩
  rw [opensUsings_ofFiles_iff {} "" t hc, husings] at hopens
  exact absurd (hopens hscope) (by decide)

end Links

end RouteLinks
