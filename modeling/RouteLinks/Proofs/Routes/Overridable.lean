import RouteLinks.Proofs.Routes.Actions
import RouteLinks.Proofs.Routes.EditedController
import RouteLinks.Proofs.Symbols.Discovery
import RouteLinks.Proofs.Symbols.Sample
/-!
# Actions can be overridden

A controller links the actions of its bases as well, but only the controller that declares a
method edits the source to make it virtual. The two decide apart from one another. They agree
because a base sees above itself just what its descendants see above it, so that the requirements
of an action are the same in both places.
-/

namespace RouteLinks

/-! ### The classes of a run -/

namespace Model

/-- The methods of a class belong to it, and those with a return type have a place for edits. -/
theorem of_mem_methods_ofFiles {files : List SourceFile} (hregular : ∀ f ∈ files, f.IsRegular)
    {c : Class} (hc : c ∈ (ofFiles files).classes) {x : Method} (hx : x ∈ c.methods) :
    x.containingClass = c.qualifiedName ∧
      (x.returnType.isSome = true → x.returnTypeAt.isSome = true) := by
  rw [methods_of_mem_ofFiles hregular hc] at hx
  obtain ⟨f, hf, hx⟩ := List.mem_flatMap.mp hx
  obtain ⟨_, hrepeated, hx⟩ := List.mem_flatten.mp hx
  rw [List.eq_of_mem_replicate hrepeated] at hx
  obtain ⟨hmethod, howner⟩ := List.mem_filter.mp hx
  exact ⟨beq_iff_eq.mp howner, (hregular f hf).returnTypeAt_isSome hmethod⟩

end Model

namespace Controller

variable {m : Model} {run : List String} {symbol : Class} {bases : List Class}

abbrev runOf (m : Model) : List String := m.controllers.map Class.qualifiedName

theorem actions_ofClass (hchain : (m.ancestry symbol).chain = symbol :: bases) :
    (ofClass m run symbol).actions =
      assign (ofClass m run symbol).protocol (actionMethods run symbol bases) := by
  simp only [ofClass, hchain, List.drop_succ_cons, List.drop_zero]

theorem exists_action_of_qualifies (hchain : (m.ancestry symbol).chain = symbol :: bases)
    {x : Method} (hx : x ∈ symbol.methods) (hqualifies : x.Qualifies (signatures run bases)) :
    ∃ a ∈ (ofClass m run symbol).actions, a.method = x := by
  have hmem : x ∈ actionMethods run symbol bases :=
    List.mem_append_left _ (List.mem_filter.mpr ⟨hx, (Method.isAction_iff _ _).mpr hqualifies⟩)
  rw [← map_method_assign_actionMethods (ofClass m run symbol).protocol,
    ← actions_ofClass hchain] at hmem
  exact List.mem_map.mp hmem

/-- A class with the name of a controller in the chain of a controller is that controller, and sees
above itself what stands above it in the chain. -/
theorem controller_of_mem_chain (hnodup : (m.classes.map Class.qualifiedName).Nodup) {c d : Class}
    (hc : c ∈ m.controllers) {before further : List Class}
    (hsplit : (m.ancestry c).chain = before ++ d :: further) (hrun : d.qualifiedName ∈ runOf m) :
    d ∈ m.controllers ∧ (m.ancestry d).chain = d :: further := by
  obtain ⟨bases, hchain, hbases⟩ := m.chain_ancestry c
  have hd : d ∈ c :: bases := hchain ▸ hsplit ▸ List.mem_append_right _ List.mem_cons_self
  have hclasses : d ∈ m.classes := by
    rcases List.mem_cons.mp hd with rfl | hd
    · exact (Model.mem_controllers.mp hc).1
    · exact hbases d hd
  have hown := Model.ancestry_of_mem_chain (Model.isCyclic_ancestry_of_mem_controllers hc) hsplit
  exact ⟨Model.mem_controllers_of_qualifiedName hnodup hclasses hrun, congrArg Ancestry.chain hown⟩

/-- An action comes from a controller of the run which is the class itself or above it, and which
declares it as an action of its own. -/
theorem exists_declaring_of_mem_actions (hnodup : (m.classes.map Class.qualifiedName).Nodup)
    {c : Class} (hc : c ∈ m.controllers) {a : Action} (ha : a ∈ (ofClass m (runOf m) c).actions) :
    ∃ d ∈ m.controllers, a.method ∈ d.methods ∧ (∃ inherited, a.method.Qualifies inherited) ∧
      ∃ b ∈ (ofClass m (runOf m) d).actions, b.method = a.method := by
  obtain ⟨bases, hchain, -⟩ := m.chain_ancestry c
  rw [actions_ofClass hchain] at ha
  obtain ⟨before, d, further, hsplit, horigin, hmethod, hqualifies⟩ :=
    mem_actionMethods (mem_assign ha).1
  have hrun : d.qualifiedName ∈ runOf m := by
    rcases horigin with ⟨rfl, _⟩ | hrun
    · exact List.mem_map_of_mem hc
    · exact hrun
  -- The base judges the method by the same classes as its descendant does.
  obtain ⟨hd, hown⟩ := controller_of_mem_chain hnodup hc (hchain.trans hsplit) hrun
  exact ⟨d, hd, hmethod, ⟨_, hqualifies⟩, exists_action_of_qualifies hown hmethod hqualifies⟩

/-! ### The actions of a run -/

end Controller

/-- The method of an action is public, no static, generic or sealed one, and declared by a
controller of the run. It has a modifier by which it can be overridden, or an edit of that
controller gives it one, and it has one in whatever it becomes by the edits of the run. -/
structure Action.IsOpen (run : List Controller) (a : Action) : Prop where
  isPublic : a.method.isPublic = true
  notStatic : a.method.isStatic = false
  notGeneric : a.method.isGeneric = false
  notSealed : "sealed" ∉ a.method.modifiers
  declared : ∃ d ∈ run, d.qualifiedName = a.declaringClass ∧ a.method ∈ d.symbol.methods ∧
    (a.method.isOverridable = true ∨ a.method.IsOpenedBy d.edits)
  afterwards : ∀ y, a.method.Becomes (run.flatMap Controller.edits) y → y.isOverridable = true

namespace Controller

variable {files : List SourceFile}

/-- Every action of every controller can be overridden once the edits of the run are made. -/
theorem isOpen_of_mem_actions (hregular : ∀ f ∈ files, f.IsRegular) {c : Controller}
    (hc : c ∈ all (Model.ofFiles files)) {a : Action} (ha : a ∈ c.actions) :
    a.IsOpen (all (Model.ofFiles files)) := by
  obtain ⟨symbol, hsymbol, rfl⟩ := mem_all.mp hc
  obtain ⟨d, hd, hmethod, ⟨inherited, hqualifies⟩, b, hb, hsame⟩ :=
    exists_declaring_of_mem_actions (Model.nodup_ofFiles files) hsymbol ha
  have hdeclaring := mem_all.mpr ⟨d, hd, rfl⟩
  obtain ⟨howner, hplaced⟩ :=
    Model.of_mem_methods_ofFiles hregular (Model.mem_controllers.mp hd).1 hmethod
  have htype : a.method.returnType.isSome = true := by
    cases htype : a.method.returnType with
    | none => simpa [htype, ResultShape.ofType?] using hqualifies.hasShape
    | some type => rfl
  obtain ⟨place, hplace⟩ := Option.isSome_iff_exists.mp (hplaced htype)
  have hopen : a.method.isOverridable = true ∨
      a.method.IsOpenedBy
        (ofClass (Model.ofFiles files) (runOf (Model.ofFiles files)) d).edits := by
    cases hclosed : a.method.isOverridable with
    | true => exact .inl rfl
    | false =>
        rw [edits_eq hdeclaring, ← hsame]
        refine .inr (isOpenedBy_editsFor hb ?_ (hsame ▸ hclosed) (hsame ▸ hplace))
        rw [Action.declaringClass, hsame, howner]
        rfl
  refine ⟨hqualifies.isPublic, hqualifies.notStatic, hqualifies.notGeneric, hqualifies.notSealed,
    ⟨_, hdeclaring, howner.symm, hmethod, hopen⟩, fun y hy => hy.isOverridable ?_⟩
  exact hopen.imp_right <| Exists.imp fun _ =>
    And.imp_right fun hedit => List.mem_flatMap.mpr ⟨_, hdeclaring, hedit⟩

def inheritingFile : SourceFile :=
  .sample
    [.sampleClass "BaseController",
     .sampleMethod "BaseController" "Index" { MethodHead.action with returnTypeAt := some 42 },
     { SourceUnit.sampleClass "MiddleController" with
       head := .ofClass { modifiers := ["internal"], base := some "BaseController" } },
     .sampleClass "HomeController" (some "MiddleController")]

/-- A controller whose action comes from a base beyond a class that is no controller. -/
theorem isOpen_actions_through_internal_class :
    ∃ c ∈ all (Model.ofFiles [inheritingFile]), c.qualifiedName = "HomeController" ∧
      ∃ a ∈ c.actions, a.declaringClass = "BaseController" ∧
        a.IsOpen (all (Model.ofFiles [inheritingFile])) := by
  have hregular : ∀ f ∈ [inheritingFile], f.IsRegular := by decide
  have hfound : ∃ c ∈ all (Model.ofFiles [inheritingFile]), c.qualifiedName = "HomeController" ∧
      ∃ a ∈ c.actions, a.declaringClass = "BaseController" := by decide
  obtain ⟨c, hc, hname, a, ha, hdeclaring⟩ := hfound
  exact ⟨c, hc, hname, a, ha, hdeclaring, isOpen_of_mem_actions hregular hc ha⟩

end Controller

end RouteLinks
