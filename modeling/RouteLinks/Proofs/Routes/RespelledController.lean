import RouteLinks.Proofs.Routes.Actions
import RouteLinks.Proofs.Symbols.Respelled
/-!
# Routes in another spelling

To routing, an identifier is the same with and without the mark of a verbatim identifier. The
controllers of a program and their actions are found alike in any spelling, and the keys of route
values are read off parameters without the marks. But the name of a controller, its area and the
names of its actions are read off the identifiers as they are written. So a program keeps its routes
in another spelling exactly if no controller's class is marked, no mark of its namespaces changes
its area, and each action that is marked has its route name from an attribute.
-/

namespace RouteLinks

variable {s : Spelling}

/-- The names by which routing knows a controller: its area, its own name, and for each action the
route name with the keys of the route values. -/
structure RouteNames where
  area : String
  controller : String
  actions : List (String × List String)
  deriving DecidableEq, Repr

/-! ### Methods -/

namespace Method

def hasOwnRouteName (x : Method) : Bool :=
  (((x.findAttribute? "ActionName").bind Attribute.stringArgument?).filter (!·.isEmpty)).isSome

def route (x : Method) : String × List String :=
  (Controller.routeNameOf x, x.parameters.map Parameter.routeKey)

theorem routeNameOf_eq (x : Method) :
    Controller.routeNameOf x =
      (((x.findAttribute? "ActionName").bind Attribute.stringArgument?).filter
        (!·.isEmpty)).getD x.name := by
  unfold Controller.routeNameOf
  cases (x.findAttribute? "ActionName").bind Attribute.stringArgument? with
  | none => rfl
  | some name => cases hname : name.isEmpty <;> simp [Option.filter_some, hname]

namespace Respelled

variable {x y : Method}

theorem routeNameOf_eq_iff (h : x.Respelled s y) :
    Controller.routeNameOf y = Controller.routeNameOf x ↔
      s.method x.name = x.name ∨ x.hasOwnRouteName = true := by
  have hattribute : y.findAttribute? "ActionName" = x.findAttribute? "ActionName" := by
    rw [findAttribute?, findAttribute?, h.attributes]
  rw [routeNameOf_eq, routeNameOf_eq, hattribute, h.name, hasOwnRouteName]
  cases ((x.findAttribute? "ActionName").bind Attribute.stringArgument?).filter (!·.isEmpty) <;>
    simp

theorem route_eq_iff (h : x.Respelled s y) :
    y.route = x.route ↔ s.method x.name = x.name ∨ x.hasOwnRouteName = true := by
  have hkeys := map_eq_of_forall₂ h.parameters fun _ _ hparameter => hparameter.routeKey_eq
  rw [route, route, hkeys, Prod.mk.injEq, and_iff_left rfl, h.routeNameOf_eq_iff]

theorem qualifies_iff (h : x.Respelled s y) (inherited : List Signature) :
    y.Qualifies (inherited.map s.signature) ↔ x.Qualifies inherited := by
  have hpublic : y.isPublic = x.isPublic := congrArg (·.contains "public") h.modifiers
  have hstatic : y.isStatic = x.isStatic := congrArg (·.contains "static") h.modifiers
  have hexempt : y.hasAttribute "NonAction" = x.hasAttribute "NonAction" := by
    rw [hasAttribute, hasAttribute, h.attributes]
  have hoverridden : y.signature ∈ inherited.map s.signature ↔ x.signature ∈ inherited := by
    rw [h.signature_eq, List.mem_map_of_injective s.signature_injective]
  have hproblems : y.problems = [] ↔ x.problems = [] := by
    rw [← List.isEmpty_iff, ← List.isEmpty_iff, h.isEmpty_problems_eq]
  constructor
  · intro hy
    exact
      { isPublic := hpublic ▸ hy.isPublic, notStatic := hstatic ▸ hy.notStatic
        notGeneric := h.isGeneric ▸ hy.notGeneric, notExempt := hexempt ▸ hy.notExempt
        overridden := fun hmodifier => hoverridden.mp (hy.overridden (h.modifiers ▸ hmodifier))
        noProblems := hproblems.mp hy.noProblems, notSealed := h.modifiers ▸ hy.notSealed
        hasShape := h.hasShape ▸ hy.hasShape }
  · intro hx
    exact
      { isPublic := hpublic ▸ hx.isPublic, notStatic := hstatic ▸ hx.notStatic
        notGeneric := h.isGeneric ▸ hx.notGeneric, notExempt := hexempt ▸ hx.notExempt
        overridden := fun hmodifier => hoverridden.mpr (hx.overridden (h.modifiers ▸ hmodifier))
        noProblems := hproblems.mpr hx.noProblems, notSealed := h.modifiers ▸ hx.notSealed
        hasShape := h.hasShape ▸ hx.hasShape }

theorem isAction_eq (h : x.Respelled s y) (inherited : List Signature) :
    y.isAction (inherited.map s.signature) = x.isAction inherited := by
  rw [Bool.eq_iff_iff, isAction_iff, isAction_iff, h.qualifies_iff]

theorem contains_signature (h : x.Respelled s y) (seen : List Signature) :
    (seen.map s.signature).contains y.signature = seen.contains x.signature := by
  rw [Bool.eq_iff_iff, List.contains_iff_mem, List.contains_iff_mem, h.signature_eq,
    List.mem_map_of_injective s.signature_injective]

end Respelled

end Method

/-! ### Actions -/

namespace Controller

variable {run : List String} {bases others : List Class} {methods methods' : List Method}

theorem contains_run {b b' : Class} (h : b.Respelled s b') :
    (run.map s.name).contains b'.qualifiedName = run.contains b.qualifiedName := by
  rw [Bool.eq_iff_iff, List.contains_iff_mem, List.contains_iff_mem, h.qualifiedName_eq,
    List.mem_map_of_injective s.name_injective]

theorem signatures_respelled (h : List.Forall₂ (Class.Respelled s) bases others) :
    signatures (run.map s.name) others = (signatures run bases).map s.signature := by
  have hrun : List.Forall₂ (Class.Respelled s)
      (bases.filter fun b => run.contains b.qualifiedName)
      (others.filter fun b => (run.map s.name).contains b.qualifiedName) :=
    List.rel_filter (fun b b' hclass => by simp only [contains_run hclass]) h
  rw [signatures, signatures, List.map_flatMap]
  refine flatMap_eq_of_forall₂ hrun fun b b' hclass => ?_
  rw [List.map_map]
  exact map_eq_of_forall₂ hclass.methods fun _ _ hmethod => hmethod.signature_eq

theorem newActions_respelled (h : List.Forall₂ (Method.Respelled s) methods methods')
    (inherited seen : List Signature) :
    List.Forall₂ (Method.Respelled s) (newActions inherited seen methods).1
        (newActions (inherited.map s.signature) (seen.map s.signature) methods').1 ∧
      (newActions (inherited.map s.signature) (seen.map s.signature) methods').2 =
        (newActions inherited seen methods).2.map s.signature := by
  induction h generalizing seen with
  | nil => exact ⟨.nil, rfl⟩
  | @cons x y _ _ hfirst _ ih =>
      rw [newActions, newActions, hfirst.contains_signature]
      split
      · exact ih seen
      · have hseen : y.signature :: seen.map s.signature =
            (x.signature :: seen).map s.signature := by
          rw [hfirst.signature_eq, List.map_cons]
        rw [hseen]
        refine ⟨?_, (ih _).2⟩
        simp only [hfirst.isAction_eq]
        split
        · exact .cons hfirst (ih _).1
        · exact (ih _).1

theorem inheritedActions_respelled (h : List.Forall₂ (Class.Respelled s) bases others)
    (seen : List Signature) :
    List.Forall₂ (Method.Respelled s) (inheritedActions run seen bases)
      (inheritedActions (run.map s.name) (seen.map s.signature) others) := by
  induction h generalizing seen with
  | nil => exact .nil
  | @cons base base' further further' hfirst hrest ih =>
      rw [inheritedActions, inheritedActions, contains_run hfirst]
      split
      · rw [signatures_respelled hrest]
        obtain ⟨hactions, hseen⟩ :=
          newActions_respelled hfirst.methods (signatures run further) seen
        dsimp only
        rw [hseen]
        exact List.rel_append hactions (ih _)
      · exact ih seen

theorem actionMethods_respelled {c d : Class} (hclass : c.Respelled s d)
    (h : List.Forall₂ (Class.Respelled s) bases others) :
    List.Forall₂ (Method.Respelled s) (actionMethods run c bases)
      (actionMethods (run.map s.name) d others) := by
  have hown : List.Forall₂ (Method.Respelled s)
      (c.methods.filter (·.isAction (signatures run bases)))
      (d.methods.filter (·.isAction ((signatures run bases).map s.signature))) :=
    List.rel_filter (fun x y hmethod => by simp only [hmethod.isAction_eq]) hclass.methods
  have hseen : (d.methods.filter (·.isAction ((signatures run bases).map s.signature))).map
      Method.signature = ((c.methods.filter (·.isAction (signatures run bases))).map
        Method.signature).map s.signature := by
    rw [List.map_map]
    exact map_eq_of_forall₂ hown fun _ _ hmethod => hmethod.signature_eq
  simp only [actionMethods, signatures_respelled h, hseen]
  exact List.rel_append hown (inheritedActions_respelled h _)

/-! ### Routes -/

def routeNames (c : Controller) : RouteNames :=
  ⟨c.area, c.name, c.actions.map fun a => (a.routeName, a.parameters.map Parameter.routeKey)⟩

theorem routeNames_ofClass (m : Model) (run : List String) (c : Class) :
    (ofClass m run c).routeNames = ⟨Area.ofNamespace c.scope, routeName c.name,
      (actionMethods run c ((m.ancestry c).chain.drop 1)).map Method.route⟩ := by
  have hactions : (ofClass m run c).routeNames.actions =
      ((ofClass m run c).actions.map Action.method).map Method.route := by
    rw [List.map_map]
    apply List.map_congr_left
    intro a ha
    rw [(mem_assign ha).2.2.1]
    rfl
  rw [← map_method_assign_actionMethods (ofClass m run c).protocol run c]
  exact congrArg (RouteNames.mk _ _) hactions

/-- Whether routing knows a controller by the same names in another spelling. -/
structure KeepsRouteNames (s : Spelling) (c : Controller) : Prop where
  className : s.name c.className = c.className
  area : Area.ofNamespace (s.name c.scope) = Area.ofNamespace c.scope
  actions : ∀ a ∈ c.actions, s.method a.name = a.name ∨ a.method.hasOwnRouteName = true

theorem routeNames_respelled {m n : Model} (h : m.Respelled s n) {c d : Class}
    (hclass : c.Respelled s d) :
    (ofClass n (run.map s.name) d).routeNames = (ofClass m run c).routeNames ↔
      (ofClass m run c).KeepsRouteNames s := by
  have hbases := List.forall₂_drop 1 (h.toMatches.ancestry hclass).chain
  have hmethods : List.Forall₂ (Method.Respelled s)
      (actionMethods run c ((m.ancestry c).chain.drop 1))
      (actionMethods (run.map s.name) d ((n.ancestry d).chain.drop 1)) :=
    actionMethods_respelled hclass hbases
  have hroutes := map_eq_iff_of_forall₂ hmethods fun _ _ hmethod => hmethod.route_eq_iff
  rw [routeNames_ofClass, routeNames_ofClass, RouteNames.mk.injEq, hroutes, hclass.scope,
    hclass.name, s.routeName_name_eq_iff,
    ← map_method_assign_actionMethods (ofClass m run c).protocol run c, List.forall_mem_map]
  constructor
  · rintro ⟨harea, hname, hactions⟩
    exact ⟨hname, harea, hactions⟩
  · rintro ⟨hname, harea, hactions⟩
    exact ⟨harea, hname, hactions⟩

/-- A program keeps its routes in another spelling exactly if each of its controllers does. -/
theorem routeNames_eq_iff {files files' : List SourceFile}
    (h : List.Forall₂ (SourceFile.Respelled s) files files') :
    (all (Model.ofFiles files')).map routeNames = (all (Model.ofFiles files)).map routeNames ↔
      ∀ c ∈ all (Model.ofFiles files), c.KeepsRouteNames s := by
  have hmodel := Model.respelled_ofFiles h
  generalize Model.ofFiles files = m, Model.ofFiles files' = n at hmodel ⊢
  have hcontrollers := hmodel.toMatches.controllers
  have hrun : n.controllers.map Class.qualifiedName =
      (m.controllers.map Class.qualifiedName).map s.name := by
    rw [List.map_map]
    exact map_eq_of_forall₂ hcontrollers fun _ _ hclass => hclass.qualifiedName_eq
  have hroutes := map_eq_iff_of_forall₂
    (f := fun c => (ofClass m (m.controllers.map Class.qualifiedName) c).routeNames)
    (g := fun d => (ofClass n (n.controllers.map Class.qualifiedName) d).routeNames) hcontrollers
    fun c d hclass => by rw [hrun]; exact routeNames_respelled hmodel hclass
  rw [all, all, List.map_map, List.map_map, List.forall_mem_map]
  exact hroutes

def shopFile (space base parameter : String) : SourceFile :=
  { filePath := "Shop.cs"
    units := [
      { head := .ofClass {}, name := base, qualifiedName := qualify space base, scope := space
        filePath := "Shop.cs" },
      { head := .ofClass { modifiers := ["public"], base := some base }, name := "CartController"
        qualifiedName := qualify space "CartController", scope := space, filePath := "Shop.cs" },
      { head := .ofMethod { modifiers := ["public"], returnType := some "IActionResult"
                            parameters := [{ name := parameter, type := some "int" }] }
        name := "Find", qualifiedName := "", scope := space, owner := some "CartController"
        filePath := "Shop.cs" }] }

def markedNames (names : List String) (hempty : names.contains "" = false)
    (hframework : names.contains "ControllerBase" = false) : Spelling :=
  { marksName := names.contains, marksMethod := fun _ => false, typeText := id
    injective_typeText := Function.injective_id, empty_marksName := hempty
    framework_marksName := hframework }

/-- A namespace, a base and a parameter can be marked without any change to the routes. -/
theorem routeNames_marked_surroundings :
    List.Forall₂ (SourceFile.Respelled (markedNames ["Shop", "Basket"] rfl rfl))
      [shopFile "Shop" "Basket" "id"] [shopFile "@Shop" "@Basket" "@id"] ∧
    (all (Model.ofFiles [shopFile "Shop" "Basket" "id"])).map routeNames =
      [⟨"", "Cart", [("Find", ["id"])]⟩] ∧
    (all (Model.ofFiles [shopFile "@Shop" "@Basket" "@id"])).map routeNames =
      (all (Model.ofFiles [shopFile "Shop" "Basket" "id"])).map routeNames := by
  have hfiles : List.Forall₂ (SourceFile.Respelled (markedNames ["Shop", "Basket"] rfl rfl))
      [shopFile "Shop" "Basket" "id"] [shopFile "@Shop" "@Basket" "@id"] := by
    have hbase : BaseRespelled (markedNames ["Shop", "Basket"] rfl rfl) "Basket" "@Basket" :=
      ⟨by decide, by decide⟩
    have hid : Parameter.Respelled (markedNames ["Shop", "Basket"] rfl rfl)
        { name := "id", type := some "int" } { name := "@id", type := some "int" } :=
      ⟨by decide, rfl, rfl, rfl, rfl⟩
    refine .cons (.cons ?_ (.cons ?_ (.cons ?_ .nil))) .nil
    · exact ⟨⟨⟨rfl, rfl, .none, rfl, rfl, rfl⟩, by decide, by decide⟩, by decide, rfl, rfl⟩
    · exact ⟨⟨⟨rfl, rfl, .some hbase, rfl, rfl, rfl⟩, by decide, by decide⟩, by decide, rfl, rfl⟩
    · exact ⟨⟨⟨rfl, rfl, rfl, .cons hid .nil, rfl⟩, by decide⟩, by decide, by decide, rfl⟩
  refine ⟨hfiles, by decide, (routeNames_eq_iff hfiles).mpr ?_⟩
  have hkeeps : ∀ c ∈ all (Model.ofFiles [shopFile "Shop" "Basket" "id"]),
      (markedNames ["Shop", "Basket"] rfl rfl).name c.className = c.className ∧
        Area.ofNamespace ((markedNames ["Shop", "Basket"] rfl rfl).name c.scope) =
          Area.ofNamespace c.scope := by decide
  exact fun c hc => ⟨(hkeeps c hc).1, (hkeeps c hc).2, fun _ _ => .inl rfl⟩

def areaFile (mark : String) : SourceFile :=
  { filePath := "A.cs"
    units := [
      { head := .ofClass { modifiers := ["public"] }, name := mark ++ "HomeController"
        qualifiedName := "App.Areas." ++ mark ++ "Finance.Controllers." ++ mark ++ "HomeController"
        scope := "App.Areas." ++ mark ++ "Finance.Controllers", filePath := "A.cs" },
      { head := .ofMethod { modifiers := ["public"], returnType := some "IActionResult" }
        name := mark ++ "Index", qualifiedName := ""
        scope := "App.Areas." ++ mark ++ "Finance.Controllers"
        owner := some (mark ++ "HomeController"), filePath := "A.cs" }] }

/-- Marks on a controller, its area and its action go into its routes. -/
theorem routeNames_marked_controller :
    (all (Model.ofFiles [areaFile ""])).map routeNames =
      [⟨"Finance", "Home", [("Index", [])]⟩] ∧
    (all (Model.ofFiles [areaFile "@"])).map routeNames =
      [⟨"", "@Home", [("@Index", [])]⟩] := by
  constructor <;> decide +kernel

end Controller

end RouteLinks
