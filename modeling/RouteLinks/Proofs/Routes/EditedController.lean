import RouteLinks.Proofs.Routes.Edited
import RouteLinks.Routes.Controller
/-!
# The controllers of edited sources

A run over edited sources finds the same controllers with the same actions, each as it has become,
under the same names and with the same reports. Only its edits are others: where all edits of the
first run have been made, there are none.
-/

namespace RouteLinks

variable {edits : List SourceEdit}

/-! ### Actions -/

namespace Method.Becomes

variable {x y : Method}

theorem routing_eq (h : x.Becomes edits y) (inherited : List Signature) :
    y.routing inherited = x.routing inherited := by
  have hpublic : y.isPublic = x.isPublic := h.contains_modifiers _ (by decide)
  have hstatic : y.isStatic = x.isStatic := h.contains_modifiers _ (by decide)
  have hoverride := h.contains_modifiers "override" (by decide)
  have hsealed := h.contains_modifiers "sealed" (by decide)
  have hgeneric : y.isGeneric = x.isGeneric := by
    rw [h.same]
    rfl
  have hexempt : y.hasAttribute "NonAction" = x.hasAttribute "NonAction" := by
    rw [h.same]
    rfl
  have hproblems : y.problems = x.problems := by
    rw [h.same]
    rfl
  have htype : y.returnType = x.returnType := by rw [h.same]
  simp only [routing, hpublic, hstatic, hoverride, hsealed, hgeneric, hexempt, hproblems, htype,
    h.signature_eq]

theorem isAction_eq (h : x.Becomes edits y) (inherited : List Signature) :
    y.isAction inherited = x.isAction inherited := by
  rw [isAction, isAction, h.routing_eq]

theorem diagnostic?_eq (h : x.Becomes edits y) {c d : Class} (hclass : c.Becomes edits d)
    (inherited : List Signature) : y.diagnostic? d inherited = x.diagnostic? c inherited := by
  rw [diagnostic?, diagnostic?, h.routing_eq, hclass.name_eq, h.same]

end Method.Becomes

structure Action.Becomes (edits : List SourceEdit) (a b : Action) : Prop where
  method : a.method.Becomes edits b.method
  same : b = { a with method := b.method }

structure Controller.Becomes (edits : List SourceEdit) (c d : Controller) : Prop where
  symbol : c.symbol.Becomes edits d.symbol
  actions : List.Forall₂ (Action.Becomes edits) c.actions d.actions
  same : d = { c with symbol := d.symbol, actions := d.actions, edits := d.edits }

namespace Action.Becomes

variable {a b : Action}

theorem declaringClass_eq (h : a.Becomes edits b) : b.declaringClass = a.declaringClass := by
  rw [declaringClass, declaringClass, h.method.same]

end Action.Becomes

namespace Controller

variable {run : List String} {bases others : List Class} {methods methods' : List Method}

theorem signatures_eq (h : List.Forall₂ (Class.Becomes edits) bases others) :
    signatures run others = signatures run bases := by
  have hrun : List.Forall₂ (Class.Becomes edits)
      (bases.filter fun b => run.contains b.qualifiedName)
      (others.filter fun b => run.contains b.qualifiedName) :=
    List.rel_filter (fun c d hclass => by simp only [hclass.qualifiedName_eq]) h
  exact flatMap_eq_of_forall₂ hrun fun _ _ hclass =>
    map_eq_of_forall₂ hclass.methods fun _ _ hmethod => hmethod.signature_eq

theorem forall₂_newActions (h : List.Forall₂ (Method.Becomes edits) methods methods')
    (inherited seen : List Signature) :
    List.Forall₂ (Method.Becomes edits) (newActions inherited seen methods).1
        (newActions inherited seen methods').1 ∧
      (newActions inherited seen methods').2 = (newActions inherited seen methods).2 := by
  induction h generalizing seen with
  | nil => exact ⟨.nil, rfl⟩
  | cons hfirst _ ih =>
      rw [newActions, newActions, hfirst.signature_eq]
      split
      · exact ih seen
      · refine ⟨?_, (ih _).2⟩
        simp only [hfirst.isAction_eq]
        split
        · exact .cons hfirst (ih _).1
        · exact (ih _).1

theorem forall₂_inheritedActions (h : List.Forall₂ (Class.Becomes edits) bases others)
    (seen : List Signature) :
    List.Forall₂ (Method.Becomes edits) (inheritedActions run seen bases)
      (inheritedActions run seen others) := by
  induction h generalizing seen with
  | nil => exact .nil
  | @cons base base' further further' hfirst hrest ih =>
      rw [inheritedActions, inheritedActions, hfirst.qualifiedName_eq]
      split
      · rw [signatures_eq hrest]
        obtain ⟨hactions, hseen⟩ :=
          forall₂_newActions hfirst.methods (signatures run further) seen
        dsimp only
        rw [hseen]
        exact List.rel_append hactions (ih _)
      · exact ih seen

theorem forall₂_actionMethods {c d : Class} (hclass : c.Becomes edits d)
    (h : List.Forall₂ (Class.Becomes edits) bases others) :
    List.Forall₂ (Method.Becomes edits) (actionMethods run c bases)
      (actionMethods run d others) := by
  have hown : List.Forall₂ (Method.Becomes edits)
      (c.methods.filter (·.isAction (signatures run bases)))
      (d.methods.filter (·.isAction (signatures run bases))) :=
    List.rel_filter (fun x y hmethod => by simp only [hmethod.isAction_eq]) hclass.methods
  simp only [actionMethods, signatures_eq h]
  rw [map_eq_of_forall₂ hown fun _ _ hmethod => hmethod.signature_eq]
  exact List.rel_append hown (forall₂_inheritedActions h _)

theorem rel_actionOf? {x y : Method} (h : x.Becomes edits y) (protocol : Option String)
    (member : String × Nat) :
    Option.Rel (Action.Becomes edits) (actionOf? protocol x member)
      (actionOf? protocol y member) := by
  have htype : y.returnType = x.returnType := by rw [h.same]
  have hname : routeNameOf y = routeNameOf x := by
    rw [h.same]
    rfl
  have hsecure : y.hasAttribute "RequireHttps" = x.hasAttribute "RequireHttps" := by
    rw [h.same]
    rfl
  rw [actionOf?, actionOf?, htype, hname, hsecure]
  cases ResultShape.ofType? x.returnType with
  | none => exact .none
  | some shape => exact .some ⟨h, rfl⟩

theorem forall₂_assign (h : List.Forall₂ (Method.Becomes edits) methods methods')
    (protocol : Option String) :
    List.Forall₂ (Action.Becomes edits) (assign protocol methods) (assign protocol methods') := by
  have hnames : methods'.map (·.name) = methods.map (·.name) :=
    map_eq_of_forall₂ h fun x y hmethod => by rw [hmethod.same]
  rw [assign, assign, hnames]
  generalize Numbering.assignAll [] [] (methods.map (·.name)) = members
  have hzip : List.Forall₂ (fun p q => p.1.Becomes edits q.1 ∧ q.2 = p.2) (methods.zip members)
      (methods'.zip members) := by
    clear hnames
    induction h generalizing members with
    | nil => exact .nil
    | cons hfirst _ ih =>
        cases members with
        | nil => exact .nil
        | cons member members => exact .cons ⟨hfirst, rfl⟩ (ih members)
  refine List.rel_filterMap ?_ hzip
  intro p q hpair
  obtain ⟨hmethod, hmember⟩ := hpair
  simp only [hmember]
  exact rel_actionOf? hmethod protocol p.2

theorem usingsFor_eq {c d : Class} (hclass : c.Becomes edits d)
    (h : List.Forall₂ (Class.Becomes edits) bases others) {actions actions' : List Action}
    (hactions : List.Forall₂ (Action.Becomes edits) actions actions') :
    usingsFor d others actions' = usingsFor c bases actions := by
  have hused : List.Forall₂ (Class.Becomes edits)
      (bases.filter fun b => actions.any (·.declaringClass == b.qualifiedName))
      (others.filter fun b => actions'.any (·.declaringClass == b.qualifiedName)) := by
    refine List.rel_filter ?_ h
    intro b b' hbase
    have hany := any_eq_of_forall₂ (f := (·.declaringClass == b.qualifiedName))
      (g := (·.declaringClass == b'.qualifiedName)) hactions fun _ _ haction => by
        rw [haction.declaringClass_eq, hbase.qualifiedName_eq]
    simp only [hany]
  simp only [usingsFor, hclass.usings_eq, hclass.scope_eq]
  rw [flatMap_eq_of_forall₂ hused fun b b' hbase => by rw [hbase.scope_eq, hbase.usings_eq]]

theorem becomes_ofClass {m n : Model} (h : m.Becomes edits n) {c d : Class}
    (hclass : c.Becomes edits d) : (ofClass m run c).Becomes edits (ofClass n run d) := by
  have hchain := (h.toMatches.ancestry hclass).chain
  have hbases := List.forall₂_drop 1 hchain
  have hsecure := any_eq_of_forall₂ (f := (·.hasAttribute "RequireHttps"))
    (g := (·.hasAttribute "RequireHttps")) hchain fun _ _ hother => hother.hasAttribute_eq _
  have hprotocol : (ofClass n run d).protocol = (ofClass m run c).protocol := by
    simp only [ofClass, hsecure]
  have hactions : List.Forall₂ (Action.Becomes edits)
      (assign (ofClass m run c).protocol (actionMethods run c ((m.ancestry c).chain.drop 1)))
      (assign (ofClass n run d).protocol (actionMethods run d ((n.ancestry d).chain.drop 1))) := by
    rw [hprotocol]
    exact forall₂_assign (forall₂_actionMethods hclass hbases) _
  have hname : (ofClass n run d).name = (ofClass m run c).name :=
    congrArg RouteLinks.routeName hclass.name_eq
  have harea : (ofClass n run d).area = (ofClass m run c).area :=
    congrArg Area.ofNamespace hclass.scope_eq
  have hdiagnostics : (ofClass n run d).diagnostics = (ofClass m run c).diagnostics := by
    simp only [ofClass, signatures_eq hbases]
    exact filterMap_eq_of_forall₂ hclass.methods fun _ _ hmethod => hmethod.diagnostic?_eq hclass _
  have hbase : (ofClass n run d).baseController = (ofClass m run c).baseController := by
    simp only [ofClass, ← List.head?_map]
    rw [map_eq_of_forall₂ hbases fun _ _ hother => hother.qualifiedName_eq]
  have husings : (ofClass n run d).usings = (ofClass m run c).usings :=
    usingsFor_eq hclass hbases hactions
  refine ⟨hclass, hactions, ?_⟩
  rw [← hname, ← harea, ← hdiagnostics, ← hbase, ← hprotocol, ← husings]

theorem forall₂_all {m n : Model} (h : m.Becomes edits n) :
    List.Forall₂ (Becomes edits) (all m) (all n) := by
  have hcontrollers := h.toMatches.controllers
  rw [all, all, map_eq_of_forall₂ hcontrollers fun _ _ hclass => hclass.qualifiedName_eq]
  exact List.rel_map (fun _ _ hclass => becomes_ofClass h hclass) hcontrollers

/-! ### Edits -/

theorem mem_all {m : Model} {c : Controller} :
    c ∈ all m ↔ ∃ d ∈ m.controllers, ofClass m (m.controllers.map Class.qualifiedName) d = c :=
  List.mem_map

theorem edits_eq {m : Model} {c : Controller} (hc : c ∈ all m) :
    c.edits = editsFor c.symbol c.actions := by
  obtain ⟨d, _, rfl⟩ := mem_all.mp hc
  rfl

/-- A controller edits what it declares itself and cannot be overridden. -/
theorem isOpenedBy_editsFor {symbol : Class} {actions : List Action} {a : Action} (ha : a ∈ actions)
    (hown : a.declaringClass = symbol.qualifiedName) (hclosed : a.method.isOverridable = false)
    {place : Nat} (hplace : a.method.returnTypeAt = some place) :
    a.method.IsOpenedBy (editsFor symbol actions) := by
  refine ⟨place, hplace, List.mem_append_right _ (List.mem_filterMap.mpr ⟨a, ha, ?_⟩)⟩
  simp [hown, hclosed, hplace]

theorem edits_eq_nil {m n : Model} (h : m.Becomes ((all m).flatMap Controller.edits) n)
    {d : Controller} (hd : d ∈ all n) : d.edits = [] := by
  obtain ⟨c, hc, hbecomes⟩ := exists_left_of_forall₂ (forall₂_all h) hd
  have hmade : ∀ edit ∈ editsFor c.symbol c.actions, edit ∈ (all m).flatMap Controller.edits :=
    fun edit hedit => List.mem_flatMap.mpr ⟨c, hc, edits_eq hc ▸ hedit⟩
  have hpartial : d.symbol.partialAt = none := by
    apply hbecomes.symbol.partialAt_eq_none
    intro hplaced
    obtain ⟨place, hplace⟩ := Option.isSome_iff_exists.mp hplaced
    exact ⟨place, hplace, hmade _ (List.mem_append_left _ (by simp [hplace]))⟩
  rw [edits_eq hd, editsFor, hpartial]
  apply List.filterMap_eq_nil_iff.mpr
  intro b hb
  obtain ⟨a, ha, haction⟩ := exists_left_of_forall₂ hbecomes.actions hb
  split_ifs with hdone
  · rfl
  · simp only [Bool.or_eq_true, bne_iff_ne, ne_eq, not_or, not_not, Bool.not_eq_true] at hdone
    obtain ⟨hown, hclosed⟩ := hdone
    rw [Option.map_eq_none_iff, ← Option.not_isSome_iff_eq_none, haction.method.placed]
    intro hplaced
    obtain ⟨place, hplace⟩ := Option.isSome_iff_exists.mp hplaced
    rw [haction.declaringClass_eq, hbecomes.symbol.qualifiedName_eq] at hown
    have hbefore : a.method.isOverridable = false := by
      rw [Bool.eq_false_iff]
      exact fun hopen => by simp [haction.method.isOverridable (.inl hopen)] at hclosed
    obtain ⟨place, hplace, hedit⟩ := isOpenedBy_editsFor ha hown hbefore hplace
    have hopen := haction.method.isOverridable (.inr ⟨place, hplace, hmade _ hedit⟩)
    simp [hopen] at hclosed

end Controller

end RouteLinks
