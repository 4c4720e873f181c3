import RouteLinks.Proofs.Source.CommentedContexts
import RouteLinks.Proofs.Source.CommentedParameters
import RouteLinks.Proofs.Source.Reading
/-!
# Sources with a comment in them

A source with a comment put into it has the same declarations, with all that is read of them but for
places and texts, if and only if the comment is put where nothing is read, or where it is lost
again. The declarations stand at the same places of both trees, so this is asked of each of them and
of the imports by themselves. Types of parameters are compared up to the comment; nothing else may
have it.
-/

namespace RouteLinks.Source

open SyntaxNode

namespace Comment

variable {c : Comment} {bytes : Bytes} {filePath : String} {n n' root root' : SyntaxNode}
  {s s' : Spot}

/-! ### What is to stay -/

/-- Two heads say the same, up to a comment in the types of parameters. -/
inductive KeepsHead (c : Comment) : UnitHead → UnitHead → Prop where
  | ofClass {head head' : ClassHead} (h : { head' with keywordAt := head.keywordAt } = head) :
      KeepsHead c (.ofClass head) (.ofClass head')
  | ofMethod {head head' : MethodHead}
      (h : { head' with
        returnTypeAt := head.returnTypeAt
        parameters := head.parameters } = head)
      (hparameters : List.Forall₂ c.KeepsParameter head.parameters head'.parameters) :
      KeepsHead c (.ofMethod head) (.ofMethod head')
  | ofConstructor {head head' : ConstructorHead}
      (h : { head' with parameters := head.parameters } = head)
      (hparameters : List.Forall₂ c.KeepsParameter head.parameters head'.parameters) :
      KeepsHead c (.ofConstructor head) (.ofConstructor head')

/-- Two declarations are the same, up to a comment in the types of parameters, their places and
texts. -/
structure KeepsUnit (c : Comment) (u v : SourceUnit) : Prop where
  head : c.KeepsHead u.head v.head
  rest : { v with
    head := u.head
    startLine := u.startLine
    endLine := u.endLine
    startByte := u.startByte
    text := u.text
    signature := u.signature } = u

/-- Two files have the same declarations in this sense, the same imports and the same problems, but
for the lines of these. -/
structure KeepsFile (c : Comment) (f g : SourceFile) : Prop where
  units : List.Forall₂ c.KeepsUnit f.units g.units
  imports : g.imports = f.imports
  errors : List.Forall₂ (fun e e' => { e' with line := e.line } = e) f.errors g.errors

/-! ### Where a comment may be put -/

/-- The nodes whose texts are read of a declaration: a comment in one of them is in its text. -/
def textNodes (s : Spot) (n : SyntaxNode) : List SyntaxNode :=
  (s.scopes ++ s.owners ++ [n]).flatMap nameNodes ++ modifierNodes n ++
    if n.kind == "class_declaration" then
      attributeNodes n ++ (n.child? "type_parameter_list").toList
    else if n.kind == "method_declaration" then
      attributeNodes n ++ (Reading.returnType? n).toList ++
        (Reading.listOf? n "type_parameters" "type_parameter_list").toList
    else []

/-- A comment changes nothing of a declaration. The directives matter to classes alone. -/
structure SparesUnit (c : Comment) (bytes : Bytes) (s : Spot) (n : SyntaxNode) : Prop where
  texts : c.isBeside (textNodes s n) = true
  bases : n.kind = "class_declaration" → c.sparesBases n = true
  directives : n.kind = "class_declaration" → s.directives.all (c.sparesDirective bytes) = true
  parameters : n.kind ≠ "class_declaration" →
    c.SparesParameters bytes (Reading.listOf? n "parameters" "parameter_list")

/-- Whether a node is a declaration that is read where it stands. -/
def isDeclared (bytes : Bytes) (s : Spot) (n : SyntaxNode) : Bool :=
  n.kind == "class_declaration" && s.level != .parts && (nameOf? bytes n).isSome ||
    s.level == .members &&
      (n.kind == "method_declaration" && (nameOf? bytes n).isSome ||
        n.kind == "constructor_declaration")

def declaredAt? (bytes : Bytes) (o : Occurrence) : Option (Spot × SyntaxNode) :=
  (Spot.of? bytes o.around).bind fun s =>
    if isDeclared bytes s o.node then some (s, o.node) else none

/-- The declarations of a tree, each with where it stands. -/
def declared (bytes : Bytes) (root : SyntaxNode) : List (Spot × SyntaxNode) :=
  root.occurrences.filterMap (declaredAt? bytes)

/-- The directives of a source that are not in namespaces. -/
def directiveNodes (root : SyntaxNode) : List SyntaxNode :=
  root.children.filter (·.kind == "using_directive")

/-- A comment changes nothing of a source. -/
structure Spares (c : Comment) (bytes : Bytes) (root : SyntaxNode) : Prop where
  imports : (directiveNodes root).all (c.sparesDirective bytes) = true
  units : ∀ x ∈ declared bytes root, c.SparesUnit bytes x.1 x.2

/-! ### Declarations stand at the same places -/

/-- A step on the way to a node with the comment in the source. -/
structure EnclosureBecomes (c : Comment) (e e' : Enclosure) : Prop where
  parent : c.Becomes e.parent e'.parent
  before : c.Alike e.before e'.before

/-- A declaration and where it stands with the comment in the source. -/
structure DeclarationBecomes (c : Comment) (x x' : Spot × SyntaxNode) : Prop where
  spot : c.SpotBecomes x.1 x'.1
  node : c.Becomes x.2 x'.2

theorem behind_isNode (h : c.isNode n = true) (s : Spot) : s.behind n = s := by
  rw [Spot.behind, kind_of_isNode h]
  rfl

theorem SpotBecomes.behind (h : c.SpotBecomes s s') (hn : c.Becomes n n') :
    c.SpotBecomes (s.behind n) (s'.behind n') := by
  rw [Spot.behind, Spot.behind, hn.kind_eq]
  split
  · exact { h with directives := List.rel_append h.directives (.cons hn .nil) }
  split
  · exact { h with scopes := List.rel_append h.scopes (.cons hn .nil) }
  · exact h

theorem SpotBecomes.foldl_behind {nodes nodes' : List SyntaxNode} (h : c.SpotBecomes s s')
    (hnodes : c.Alike nodes nodes') :
    c.SpotBecomes (nodes.foldl Spot.behind s) (nodes'.foldl Spot.behind s') := by
  have hskip : nodes'.foldl Spot.behind s' =
      (nodes'.filter (!c.isNode ·)).foldl Spot.behind s' := by
    rw [List.foldl_filter]
    refine List.foldl_ext _ _ _ fun t m _ => ?_
    cases hm : c.isNode m with
    | true => exact behind_isNode hm t
    | false => rfl
  rw [hskip]
  exact List.rel_foldl (fun t t' ht m m' hm => ht.behind hm) h hnodes

theorem Alike.all_kind {nodes nodes' : List SyntaxNode} (h : c.Alike nodes nodes') {kind : String}
    (hkind : kind ≠ "comment") : nodes'.all (·.kind != kind) = nodes.all (·.kind != kind) := by
  have hall : ∀ nodes : List SyntaxNode,
      nodes.all (·.kind != kind) = (nodes.filter (·.kind == kind)).isEmpty := by
    intro nodes
    rw [Bool.eq_iff_iff, List.all_eq_true, List.isEmpty_iff, List.filter_eq_nil_iff]
    simp
  have hfilter := h.filter (q := (·.kind == kind))
    (fun m hm => by rw [kind_of_isNode hm]; exact beq_false_of_ne hkind.symm)
    fun m m' hm => by rw [hm.kind_eq]
  rw [hall, hall]
  generalize nodes.filter (·.kind == kind) = found,
    nodes'.filter (·.kind == kind) = found' at hfilter
  cases hfilter <;> rfl

theorem rel_inside? {e e' : Enclosure} (hfits : c.Fits bytes) (h : c.SpotBecomes s s')
    (he : c.EnclosureBecomes e e') :
    Option.Rel c.SpotBecomes (s.inside? bytes e) (s'.inside? (c.insert bytes) e') := by
  rw [Spot.inside?, Spot.inside?, he.parent.kind_eq, he.parent.isSome_nameOf? hfits,
    he.before.all_kind (by decide)]
  split
  · exact .some { h with level := rfl, owners := List.rel_append h.owners (.cons he.parent .nil) }
  · exact .none

theorem rel_enter? {e e' : Enclosure} (hfits : c.Fits bytes) (h : c.SpotBecomes s s')
    (he : c.EnclosureBecomes e e') :
    Option.Rel c.SpotBecomes (s.enter? bytes e) (s'.enter? (c.insert bytes) e') := by
  rw [Spot.enter?, Spot.enter?, h.level, he.parent.kind_eq]
  split
  · split
    · exact .some (SpotBecomes.foldl_behind
        { h with level := rfl, scopes := List.rel_append h.scopes (.cons he.parent .nil) }
        he.before)
    split
    · exact .some (h.foldl_behind he.before)
    · exact rel_inside? hfits h he
  · split
    · exact .some { h with level := rfl }
    · exact .none
  · exact rel_inside? hfits h he

theorem rel_of? {around around' : List Enclosure} (hfits : c.Fits bytes)
    (h : List.Forall₂ c.EnclosureBecomes around around') :
    Option.Rel c.SpotBecomes (Spot.of? bytes around) (Spot.of? (c.insert bytes) around') := by
  have hway : ∀ {way way' : List Enclosure}, List.Forall₂ c.EnclosureBecomes way way' →
      ∀ {s s' : Spot}, c.SpotBecomes s s' → Option.Rel c.SpotBecomes
        (way.foldlM (Spot.enter? bytes) s) (way'.foldlM (Spot.enter? (c.insert bytes)) s') := by
    intro way way' hway
    induction hway with
    | nil => exact fun h => .some h
    | cons hfirst _ ih =>
        intro s s' h
        rw [List.foldlM_cons, List.foldlM_cons]
        have hentered := rel_enter? hfits h hfirst
        generalize s.enter? bytes _ = t, s'.enter? (c.insert bytes) _ = t' at hentered
        cases hentered with
        | none => exact .none
        | some ht => exact ih ht
  cases h with
  | nil => exact .none
  | cons hfirst hrest =>
      exact hway hrest (SpotBecomes.foldl_behind ⟨rfl, .nil, .nil, .nil⟩ hfirst.before)

theorem isDeclared_eq (hfits : c.Fits bytes) (h : c.SpotBecomes s s') (hn : c.Becomes n n') :
    isDeclared (c.insert bytes) s' n' = isDeclared bytes s n := by
  rw [isDeclared, isDeclared, hn.kind_eq, h.level, hn.isSome_nameOf? hfits]

theorem rel_declaredAt? (o o' : Occurrence) (hfits : c.Fits bytes)
    (haround : List.Forall₂ c.EnclosureBecomes o.around o'.around)
    (hnode : c.Becomes o.node o'.node) :
    Option.Rel c.DeclarationBecomes (declaredAt? bytes o) (declaredAt? (c.insert bytes) o') := by
  have hspot := rel_of? hfits haround
  rw [declaredAt?, declaredAt?]
  generalize Spot.of? bytes o.around = t, Spot.of? (c.insert bytes) o'.around = t' at hspot
  cases hspot with
  | none => exact .none
  | some hs =>
      rw [Option.bind_some, Option.bind_some, isDeclared_eq hfits hs hnode]
      split
      · exact .some ⟨hs, hnode⟩
      · exact .none

theorem declaredAt?_of_isNode (h : c.isNode n = true) (bytes : Bytes) (around : List Enclosure) :
    declaredAt? bytes ⟨around, n⟩ = none := by
  have hkind := kind_of_isNode h
  rw [declaredAt?]
  cases Spot.of? bytes around with
  | none => rfl
  | some s => simp [isDeclared, hkind]

mutual

theorem forall₂_declaredFrom (hfits : c.Fits bytes) : ∀ (n' : SyntaxNode) {n : SyntaxNode}
    {around around' : List Enclosure}, c.Becomes n n' →
    List.Forall₂ c.EnclosureBecomes around around' →
    List.Forall₂ c.DeclarationBecomes ((occurrencesFrom around n).filterMap (declaredAt? bytes))
      ((occurrencesFrom around' n').filterMap (declaredAt? (c.insert bytes)))
  | .mk info children, n, around, around', h, haround => by
      have hhead := rel_declaredAt? ⟨around, n⟩ ⟨around', .mk info children⟩ hfits
        haround h
      have hinner := forall₂_declaredAmong hfits children h haround
        (alike_of_forall₂ hfits.length_pos .nil) (h.alike hfits.length_pos)
      rw [occurrencesFrom_eq, occurrencesFrom, List.filterMap_cons, List.filterMap_cons]
      generalize declaredAt? bytes ⟨around, n⟩ = x,
        declaredAt? (c.insert bytes) ⟨around', .mk info children⟩ = x' at hhead
      cases hhead with
      | none => exact hinner
      | some hx => exact .cons hx hinner

theorem forall₂_declaredAmong (hfits : c.Fits bytes) : ∀ (nodes' : List SyntaxNode)
    {nodes before before' : List SyntaxNode} {parent parent' : SyntaxNode}
    {around around' : List Enclosure}, c.Becomes parent parent' →
    List.Forall₂ c.EnclosureBecomes around around' → c.Alike before before' → c.Alike nodes nodes' →
    List.Forall₂ c.DeclarationBecomes
      ((occurrencesAmong around parent before nodes).filterMap (declaredAt? bytes))
      ((occurrencesAmong around' parent' before' nodes').filterMap (declaredAt? (c.insert bytes)))
  | [], nodes, before, before', parent, parent', around, around', _, _, _, hnodes => by
      obtain rfl := List.forall₂_nil_right_iff.mp hnodes
      rw [occurrencesAmong, occurrencesAmong]
      exact .nil
  | n' :: rest', nodes, before, before', parent, parent', around, around', hparent, haround,
      hbefore, hnodes => by
      rw [occurrencesAmong, List.filterMap_append]
      cases hnode : c.isNode n' with
      | true =>
          -- The comment has no children and is no declaration.
          have hrest : c.Alike nodes rest' := by
            rwa [Alike, List.filter_cons_of_neg (by simp [hnode])] at hnodes
          have hbehind : c.Alike before (before' ++ [n']) := by
            rw [Alike, List.filter_append, List.filter_cons_of_neg (by simp [hnode]),
              List.filter_nil,
              List.append_nil]
            exact hbefore
          have hchildren : n'.children = [] := by
            rw [isNode, Bool.and_eq_true] at hnode
            exact List.isEmpty_iff.mp hnode.2
          rw [occurrencesFrom_eq, hchildren, occurrencesAmong,
            List.filterMap_cons_none (declaredAt?_of_isNode hnode _ _), List.filterMap_nil,
            List.nil_append]
          exact forall₂_declaredAmong hfits rest' hparent haround hbehind hrest
      | false =>
          rw [Alike, List.filter_cons_of_pos (by simp [hnode])] at hnodes
          obtain ⟨n, rest, hn, hrest, rfl⟩ := List.forall₂_cons_right_iff.mp hnodes
          have hbehind : c.Alike (before ++ [n]) (before' ++ [n']) :=
            hbefore.append (alike_of_forall₂ hfits.length_pos (.cons hn .nil))
          rw [occurrencesAmong, List.filterMap_append]
          exact List.rel_append
            (forall₂_declaredFrom hfits n' hn
              (List.rel_append haround (.cons ⟨hparent, hbefore⟩ .nil)))
            (forall₂_declaredAmong hfits rest' hparent haround hbehind hrest)

end

/-- A source with the comment in it has the same declarations at the same places. -/
theorem forall₂_declared (hfits : c.Fits bytes) (h : c.Becomes root root') :
    List.Forall₂ c.DeclarationBecomes (declared bytes root) (declared (c.insert bytes) root') :=
  forall₂_declaredFrom hfits root' h .nil

/-! ### Heads -/

theorem keepsHead_ofConstructor_iff {head head' : ConstructorHead} :
    c.KeepsHead (.ofConstructor head) (.ofConstructor head') ↔
      head'.modifiers = head.modifiers ∧
        List.Forall₂ c.KeepsParameter head.parameters head'.parameters := by
  obtain ⟨modifiers, parameters⟩ := head
  obtain ⟨modifiers', parameters'⟩ := head'
  constructor
  · intro hkeeps
    cases hkeeps with
    | ofConstructor h hparameters => exact ⟨(ConstructorHead.mk.inj h).1, hparameters⟩
  · rintro ⟨rfl, hparameters⟩
    exact .ofConstructor rfl hparameters

theorem keepsHead_ofMethod_iff {head head' : MethodHead} :
    c.KeepsHead (.ofMethod head) (.ofMethod head') ↔
      head'.modifiers = head.modifiers ∧ head'.attributes = head.attributes ∧
        head'.returnType = head.returnType ∧ head'.typeParameters = head.typeParameters ∧
        head'.hasError = head.hasError ∧
        List.Forall₂ c.KeepsParameter head.parameters head'.parameters := by
  obtain ⟨modifiers, attributes, returnType, at', parameters, typeParameters, hasError⟩ := head
  constructor
  · intro hkeeps
    cases hkeeps with
    | ofMethod h hparameters =>
        obtain ⟨hmodifiers, hattributes, htype, -, -, htypeParameters, hbroken⟩ :=
          MethodHead.mk.inj h
        exact ⟨hmodifiers, hattributes, htype, htypeParameters, hbroken, hparameters⟩
  · rintro ⟨rfl, rfl, rfl, rfl, rfl, hparameters⟩
    exact .ofMethod rfl hparameters

theorem keepsHead_ofClass_iff {head head' : ClassHead} :
    c.KeepsHead (.ofClass head) (.ofClass head') ↔
      head'.modifiers = head.modifiers ∧ head'.attributes = head.attributes ∧
        (head'.base, head'.interfaces) = (head.base, head.interfaces) ∧
        head'.typeParameters = head.typeParameters ∧ head'.usings = head.usings ∧
        head'.hasError = head.hasError := by
  obtain ⟨modifiers, attributes, base, interfaces, typeParameters, usings, hasError, keywordAt⟩ :=
    head
  constructor
  · intro hkeeps
    cases hkeeps with
    | ofClass h =>
        obtain ⟨hmodifiers, hattributes, hbase, hinterfaces, htypeParameters, husings, hbroken,
          -⟩ := ClassHead.mk.inj h
        exact ⟨hmodifiers, hattributes, Prod.ext hbase hinterfaces, htypeParameters, husings,
          hbroken⟩
  · rintro ⟨hmodifiers, hattributes, hbases, htypeParameters, husings, hbroken⟩
    obtain ⟨hbase, hinterfaces⟩ := Prod.mk.inj hbases
    dsimp only at hmodifiers hattributes hbase hinterfaces htypeParameters husings hbroken
    refine .ofClass ?_
    rw [hmodifiers, hattributes, hbase, hinterfaces, htypeParameters, husings, hbroken]

section Heads

variable (hfits : c.Fits bytes) (h : c.SpotBecomes s s') (hn : c.Becomes n n')

include hfits hn

theorem rel_listOf? (field : String) {kind : String} (hkind : kind ≠ "comment") :
    Option.Rel c.Becomes (Reading.listOf? n field kind) (Reading.listOf? n' field kind) :=
  Becomes.or (hn.field? hfits.length_pos field) (hn.child? hfits.length_pos _ hkind)

theorem keepsHead_constructor_iff :
    c.KeepsHead (.ofConstructor (Reading.constructorHead ⟨bytes, filePath⟩ n))
        (.ofConstructor (Reading.constructorHead ⟨c.insert bytes, filePath⟩ n')) ↔
      c.isBeside (modifierNodes n) = true ∧
        c.SparesParameters bytes (Reading.listOf? n "parameters" "parameter_list") := by
  rw [← modifiersOf_eq_iff hfits hn,
    ← keepsParameters_iff hfits (rel_listOf? hfits hn "parameters" (by decide))]
  exact keepsHead_ofConstructor_iff

theorem keepsHead_method_iff :
    c.KeepsHead (.ofMethod (Reading.methodHead ⟨bytes, filePath⟩ n))
        (.ofMethod (Reading.methodHead ⟨c.insert bytes, filePath⟩ n')) ↔
      c.isBeside (modifierNodes n) = true ∧ c.isBeside (attributeNodes n) = true ∧
        c.isBeside (Reading.returnType? n).toList = true ∧
        c.isBeside (Reading.listOf? n "type_parameters" "type_parameter_list").toList = true ∧
        c.SparesParameters bytes (Reading.listOf? n "parameters" "parameter_list") := by
  rw [← modifiersOf_eq_iff hfits hn, ← attributesOf_eq_iff hfits hn, ← returnType?_eq_iff hfits hn,
    ← typeParameterNames_eq_iff hfits (rel_listOf? hfits hn "type_parameters" (by decide)),
    ← keepsParameters_iff hfits (rel_listOf? hfits hn "parameters" (by decide))]
  refine keepsHead_ofMethod_iff.trans ?_
  have hbroken : (Reading.methodHead ⟨c.insert bytes, filePath⟩ n').hasError =
      (Reading.methodHead ⟨bytes, filePath⟩ n).hasError := hn.moves.hasError_eq
  constructor
  · rintro ⟨hmodifiers, hattributes, htype, htypeParameters, -, hparameters⟩
    exact ⟨hmodifiers, hattributes, htype, htypeParameters, hparameters⟩
  · rintro ⟨hmodifiers, hattributes, htype, htypeParameters, hparameters⟩
    exact ⟨hmodifiers, hattributes, htype, htypeParameters, hbroken, hparameters⟩

include h

theorem keepsHead_class_iff (hone : s.directives.countP c.isIn ≤ 1) :
    c.KeepsHead (.ofClass (Reading.classHead ⟨bytes, filePath⟩ (s.context ⟨bytes, filePath⟩) n))
        (.ofClass (Reading.classHead ⟨c.insert bytes, filePath⟩
          (s'.context ⟨c.insert bytes, filePath⟩) n')) ↔
      c.isBeside (modifierNodes n) = true ∧ c.isBeside (attributeNodes n) = true ∧
        c.sparesBases n = true ∧ c.isBeside (n.child? "type_parameter_list").toList = true ∧
        s.directives.all (c.sparesDirective bytes) = true := by
  rw [← modifiersOf_eq_iff hfits hn, ← attributesOf_eq_iff hfits hn,
    ← divideBases_basesOf_eq_iff hfits hn,
    ← typeParameterNames_eq_iff hfits (hn.child? hfits.length_pos _ (by decide)),
    ← targets_eq_iff filePath hfits h.directives hone]
  refine keepsHead_ofClass_iff.trans ?_
  have hbroken : (Reading.classHead ⟨c.insert bytes, filePath⟩
      (s'.context ⟨c.insert bytes, filePath⟩) n').hasError =
        (Reading.classHead ⟨bytes, filePath⟩ (s.context ⟨bytes, filePath⟩) n).hasError :=
    hn.moves.hasError_eq
  constructor
  · rintro ⟨hmodifiers, hattributes, hbases, htypeParameters, husings, -⟩
    exact ⟨hmodifiers, hattributes, hbases, htypeParameters, husings⟩
  · rintro ⟨hmodifiers, hattributes, hbases, htypeParameters, husings⟩
    exact ⟨hmodifiers, hattributes, hbases, htypeParameters, husings, hbroken⟩

end Heads

/-! ### Declarations -/

theorem keepsUnit_iff {u v : SourceUnit} :
    c.KeepsUnit u v ↔ c.KeepsHead u.head v.head ∧ v.name = u.name ∧
      v.qualifiedName = u.qualifiedName ∧ v.scope = u.scope ∧ v.owner = u.owner ∧
      v.filePath = u.filePath ∧ v.imports = u.imports := by
  constructor
  · rintro ⟨hhead, hrest⟩
    obtain ⟨head, name, qualifiedName, scope, owner, path, first, last, place, text, signature,
      imports⟩ := u
    obtain ⟨-, hname, hqualified, hscope, howner, hpath, -, -, -, -, -, himports⟩ :=
      SourceUnit.mk.inj hrest
    exact ⟨hhead, hname, hqualified, hscope, howner, hpath, himports⟩
  · rintro ⟨hhead, hname, hqualified, hscope, howner, hpath, himports⟩
    refine ⟨hhead, ?_⟩
    rw [hname, hqualified, hscope, howner, hpath, himports]

theorem keepsUnit_imports {u v : SourceUnit} {imports : List String} (hu : u.imports = [])
    (hv : v.imports = []) :
    c.KeepsUnit { u with imports } { v with imports } ↔ c.KeepsUnit u v := by
  rw [keepsUnit_iff, keepsUnit_iff, hu, hv]
  simp

theorem keepsUnit_unit_iff (hfits : c.Fits bytes) (h : c.SpotBecomes s s') {head head' : UnitHead}
    {name name' signature signature' : String} :
    c.KeepsUnit
        (Reading.unit ⟨bytes, filePath⟩ (s.context ⟨bytes, filePath⟩) n head name signature)
        (Reading.unit ⟨c.insert bytes, filePath⟩ (s'.context ⟨c.insert bytes, filePath⟩) n' head'
          name' signature') ↔
      c.KeepsHead head head' ∧ name' = name ∧
        c.isBeside (s.scopes.flatMap nameNodes) = true ∧
        c.isBeside (s.owners.flatMap nameNodes) = true := by
  rw [← scope_eq_iff hfits h, ← owner_eq_iff hfits h]
  refine keepsUnit_iff.trans ?_
  constructor
  · rintro ⟨hhead, hname, -, hscope, howner, -, -⟩
    exact ⟨hhead, hname, hscope, howner⟩
  · rintro ⟨hhead, hname, hscope, howner⟩
    refine ⟨hhead, hname, ?_, hscope, howner, rfl, rfl⟩
    show qualify (s'.scope (c.insert bytes)) (qualify ((s'.owner (c.insert bytes)).getD "") name') =
      qualify (s.scope bytes) (qualify ((s.owner bytes).getD "") name)
    rw [hscope, howner, hname]

theorem isBeside_textNodes_iff (s : Spot) (n : SyntaxNode) (others : List SyntaxNode) :
    c.isBeside ((s.scopes ++ s.owners ++ [n]).flatMap nameNodes ++ modifierNodes n ++ others) =
        true ↔
      c.isBeside (s.scopes.flatMap nameNodes) = true ∧
        c.isBeside (s.owners.flatMap nameNodes) = true ∧ c.isBeside (nameNodes n) = true ∧
        c.isBeside (modifierNodes n) = true ∧ c.isBeside others = true := by
  simp only [isBeside_append, List.flatMap_append, List.flatMap_singleton, Bool.and_eq_true,
    and_assoc]

section Units

variable (hfits : c.Fits bytes) (h : c.SpotBecomes s s') (hn : c.Becomes n n')

include hfits h hn

theorem keepsUnit_class_iff (hkind : n.kind = "class_declaration")
    (hone : s.directives.countP c.isIn ≤ 1) {name name' : String}
    (hname : nameOf? bytes n = some name) (hname' : nameOf? (c.insert bytes) n' = some name') :
    c.KeepsUnit (Reading.classUnit ⟨bytes, filePath⟩ (s.context ⟨bytes, filePath⟩) n name)
        (Reading.classUnit ⟨c.insert bytes, filePath⟩ (s'.context ⟨c.insert bytes, filePath⟩) n'
          name') ↔ c.SparesUnit bytes s n := by
  have hnames := hn.nameOf?_eq_iff hfits
  rw [hname, hname', Option.some_inj] at hnames
  refine (keepsUnit_unit_iff hfits h).trans ?_
  rw [keepsHead_class_iff hfits h hn hone, hnames]
  constructor
  · rintro ⟨⟨hmodifiers, hattributes, hbases, htypeParameters, hdirectives⟩, hname, hscope, howner⟩
    refine ⟨?_, fun _ => hbases, fun _ => hdirectives, fun hother => absurd hkind hother⟩
    rw [textNodes, isBeside_textNodes_iff, if_pos (by simp [hkind]), isBeside_append,
      hattributes, htypeParameters]
    exact ⟨hscope, howner, hname, hmodifiers, rfl⟩
  · rintro ⟨htexts, hbases, hdirectives, -⟩
    rw [textNodes, isBeside_textNodes_iff, if_pos (by simp [hkind]), isBeside_append,
      Bool.and_eq_true] at htexts
    obtain ⟨hscope, howner, hname, hmodifiers, hattributes, htypeParameters⟩ := htexts
    exact ⟨⟨hmodifiers, hattributes, hbases hkind, htypeParameters, hdirectives hkind⟩, hname,
      hscope, howner⟩

theorem keepsUnit_method_iff (hkind : n.kind = "method_declaration") {name name' : String}
    (hname : nameOf? bytes n = some name) (hname' : nameOf? (c.insert bytes) n' = some name')
    {signature signature' : String} :
    c.KeepsUnit
        (Reading.unit ⟨bytes, filePath⟩ (s.context ⟨bytes, filePath⟩) n
          (.ofMethod (Reading.methodHead ⟨bytes, filePath⟩ n)) name signature)
        (Reading.unit ⟨c.insert bytes, filePath⟩ (s'.context ⟨c.insert bytes, filePath⟩) n'
          (.ofMethod (Reading.methodHead ⟨c.insert bytes, filePath⟩ n')) name' signature') ↔
      c.SparesUnit bytes s n := by
  have hnames := hn.nameOf?_eq_iff hfits
  rw [hname, hname', Option.some_inj] at hnames
  have hother : n.kind ≠ "class_declaration" := by rw [hkind]; decide
  rw [keepsUnit_unit_iff hfits h, keepsHead_method_iff hfits hn, hnames]
  constructor
  · rintro ⟨⟨hmodifiers, hattributes, htype, htypeParameters, hparameters⟩, hname, hscope, howner⟩
    refine ⟨?_, fun hclass => absurd hclass hother, fun hclass => absurd hclass hother,
      fun _ => hparameters⟩
    rw [textNodes, isBeside_textNodes_iff, if_neg (by simp [hother]), if_pos (by simp [hkind]),
      isBeside_append, isBeside_append, hattributes, htype, htypeParameters]
    exact ⟨hscope, howner, hname, hmodifiers, rfl⟩
  · rintro ⟨htexts, -, -, hparameters⟩
    rw [textNodes, isBeside_textNodes_iff, if_neg (by simp [hother]), if_pos (by simp [hkind]),
      isBeside_append, isBeside_append, Bool.and_eq_true, Bool.and_eq_true] at htexts
    obtain ⟨hscope, howner, hname, hmodifiers, ⟨hattributes, htype⟩, htypeParameters⟩ := htexts
    exact ⟨⟨hmodifiers, hattributes, htype, htypeParameters, hparameters hother⟩, hname, hscope,
      howner⟩

theorem keepsUnit_constructor_iff (hkind : n.kind = "constructor_declaration") :
    c.KeepsUnit (Reading.constructorUnit ⟨bytes, filePath⟩ (s.context ⟨bytes, filePath⟩) n)
        (Reading.constructorUnit ⟨c.insert bytes, filePath⟩
          (s'.context ⟨c.insert bytes, filePath⟩) n') ↔ c.SparesUnit bytes s n := by
  have hother : n.kind ≠ "class_declaration" := by rw [hkind]; decide
  have hmethod : n.kind ≠ "method_declaration" := by rw [hkind]; decide
  have hnames : ∀ other, (nameOf? (c.insert bytes) n').getD other = (nameOf? bytes n).getD other ↔
      c.isBeside (nameNodes n) = true := by
    intro other
    have hsome := hn.isSome_nameOf? hfits
    rw [← hn.nameOf?_eq_iff hfits]
    cases hold : nameOf? bytes n <;> cases hnew : nameOf? (c.insert bytes) n' <;> simp_all
  have howners : c.isBeside (s.owners.flatMap nameNodes) = true →
      (s'.context ⟨c.insert bytes, filePath⟩).owner = (s.context ⟨bytes, filePath⟩).owner :=
    (owner_eq_iff hfits h).mpr
  refine (keepsUnit_unit_iff hfits h).trans ?_
  rw [keepsHead_constructor_iff hfits hn]
  constructor
  · rintro ⟨⟨hmodifiers, hparameters⟩, hname, hscope, howner⟩
    rw [howners howner, hnames] at hname
    refine ⟨?_, fun hclass => absurd hclass hother, fun hclass => absurd hclass hother,
      fun _ => hparameters⟩
    rw [textNodes, isBeside_textNodes_iff, if_neg (by simp [hother]), if_neg (by simp [hmethod])]
    exact ⟨hscope, howner, hname, hmodifiers, rfl⟩
  · rintro ⟨htexts, -, -, hparameters⟩
    rw [textNodes, isBeside_textNodes_iff] at htexts
    obtain ⟨hscope, howner, hname, hmodifiers, -⟩ := htexts
    rw [howners howner, hnames]
    exact ⟨⟨hmodifiers, hparameters hother⟩, hname, hscope, howner⟩

end Units

/-- A declaration is one again, and it is kept if it is spared. -/
theorem exists_units (filePath : String) (hfits : c.Fits bytes) {x x' : Spot × SyntaxNode}
    (h : c.DeclarationBecomes x x') (hone : x.1.directives.countP c.isIn ≤ 1)
    (hdeclared : isDeclared bytes x.1 x.2 = true) :
    ∃ u v, Reading.unitAt? ⟨bytes, filePath⟩ x.1 x.2 = some u ∧
      Reading.unitAt? ⟨c.insert bytes, filePath⟩ x'.1 x'.2 = some v ∧ u.imports = [] ∧
        v.imports = [] ∧ (c.KeepsUnit u v ↔ c.SparesUnit bytes x.1 x.2) := by
  obtain ⟨s, n⟩ := x
  obtain ⟨s', n'⟩ := x'
  obtain ⟨hs, hn⟩ := h
  have hsome := hn.isSome_nameOf? hfits
  dsimp only at hs hn hone hdeclared hsome ⊢
  simp only [isDeclared, Bool.or_eq_true, Bool.and_eq_true, beq_iff_eq, bne_iff_ne] at hdeclared
  rcases hdeclared with ⟨⟨hkind, hlevel⟩, hname⟩ | ⟨hlevel, ⟨hkind, hname⟩ | hkind⟩
  · obtain ⟨name', hname'⟩ := Option.isSome_iff_exists.mp (hsome.trans hname)
    obtain ⟨name, hname⟩ := Option.isSome_iff_exists.mp hname
    exact ⟨_, _, Reading.unitAt?_of_class hkind hlevel hname,
      Reading.unitAt?_of_class (hn.kind_eq.trans hkind) (hs.level.trans_ne hlevel) hname', rfl, rfl,
      keepsUnit_class_iff hfits hs hn hkind hone hname hname'⟩
  · obtain ⟨name', hname'⟩ := Option.isSome_iff_exists.mp (hsome.trans hname)
    obtain ⟨name, hname⟩ := Option.isSome_iff_exists.mp hname
    refine ⟨_, _, Reading.unitAt?_of_method hkind hlevel hname,
      Reading.unitAt?_of_method (hn.kind_eq.trans hkind) (hs.level.trans hlevel) hname', rfl, rfl,
      keepsUnit_method_iff hfits hs hn hkind hname hname'⟩
  · exact ⟨_, _, Reading.unitAt?_of_constructor hkind hlevel,
      Reading.unitAt?_of_constructor (hn.kind_eq.trans hkind) (hs.level.trans hlevel), rfl, rfl,
      keepsUnit_constructor_iff hfits hs hn hkind⟩

/-! ### Sources -/

theorem unitOf?_eq (r : Reading) (o : Occurrence) :
    r.unitOf? o = (declaredAt? r.bytes o).bind fun x => r.unitAt? x.1 x.2 := by
  rw [Reading.unitOf?, declaredAt?]
  cases Spot.of? r.bytes o.around with
  | none => rfl
  | some s =>
      rw [Option.bind_some, Option.bind_some]
      cases hdeclared : isDeclared r.bytes s o.node with
      | true => rfl
      | false =>
          rw [if_neg Bool.false_ne_true, Option.bind_none, Option.eq_none_iff_forall_ne_some]
          intro u hu
          rcases Reading.unitAt?_eq_some hu with ⟨hkind, hlevel, name, hname, -⟩ |
            ⟨hlevel, ⟨hkind, hmethod⟩ | ⟨hkind, -⟩⟩
          · simp [isDeclared, hkind, hlevel, hname] at hdeclared
          · obtain ⟨name, hname, -⟩ := Option.map_eq_some_iff.mp hmethod
            simp [isDeclared, hkind, hlevel, hname] at hdeclared
          · simp [isDeclared, hkind, hlevel] at hdeclared

theorem units_read_eq (g : Grammar) (bytes : Bytes) (filePath : String) :
    (read g bytes filePath).units = (declared bytes (g bytes)).filterMap fun x =>
      (Reading.unitAt? ⟨bytes, filePath⟩ x.1 x.2).map fun u =>
        { u with imports := (read g bytes filePath).imports } := by
  rw [units_read, declared, List.filterMap_filterMap, List.map_filterMap]
  refine List.filterMap_congr fun o _ => ?_
  rw [unitOf?_eq]
  cases declaredAt? bytes o <;> rfl

theorem of_mem_declared {x : Spot × SyntaxNode} (h : x ∈ declared bytes root) :
    ∃ around, Leads around root x.2 ∧ Spot.of? bytes around = some x.1 ∧
      isDeclared bytes x.1 x.2 = true := by
  obtain ⟨⟨around, n⟩, ho, hx⟩ := List.mem_filterMap.mp h
  obtain ⟨s, hs, hx⟩ := Option.bind_eq_some_iff.mp hx
  obtain ⟨hdeclared, hx⟩ := Option.ite_none_right_eq_some.mp hx
  obtain rfl := Option.some.inj hx
  exact ⟨around, mem_occurrences_iff.mp ho, hs, hdeclared⟩

variable {g : Grammar}

theorem imports_eq_iff (filePath : String) (hfits : c.Fits bytes)
    (h : c.Becomes (g bytes) (g (c.insert bytes))) :
    (read g (c.insert bytes) filePath).imports = (read g bytes filePath).imports ↔
      (directiveNodes (g bytes)).all (c.sparesDirective bytes) = true := by
  refine targets_eq_iff filePath hfits (h.filter_kind hfits.length_pos (by decide)) ?_
  refine (List.filter_sublist.countP_le).trans (h.countP_children.trans ?_)
  split <;> decide

/-- The declarations are kept one by one. -/
theorem units_kept_iff (hfits : c.Fits bytes) (h : c.Becomes (g bytes) (g (c.insert bytes)))
    (himports : (read g (c.insert bytes) filePath).imports = (read g bytes filePath).imports) :
    List.Forall₂ c.KeepsUnit (read g bytes filePath).units
        (read g (c.insert bytes) filePath).units ↔
      ∀ x ∈ declared bytes (g bytes), c.SparesUnit bytes x.1 x.2 := by
  rw [units_read_eq, units_read_eq, himports]
  refine forall₂_filterMap_iff (forall₂_declared hfits h) fun x hx x' hbecomes => ?_
  obtain ⟨around, hway, hs, hdeclared⟩ := of_mem_declared hx
  have hone := countP_directives h hfits.length_pos hway hs
  obtain ⟨u, v, hu, hv, himportsu, himportsv, hkeeps⟩ :=
    exists_units filePath hfits hbecomes (by omega) hdeclared
  refine ⟨_, _, by rw [hu]; rfl, by rw [hv]; rfl, ?_⟩
  rw [keepsUnit_imports himportsu himportsv, hkeeps]

theorem errors_kept (h : c.Becomes root root') :
    List.Forall₂ (fun e e' => { e' with line := e.line } = e)
    (syntaxErrors filePath root) (syntaxErrors filePath root') := by
  rw [syntaxErrors, syntaxErrors, h.moves.hasError_eq]
  split
  · exact .cons rfl .nil
  · exact .nil

/-- A comment put into a source changes nothing but places and texts if and only if it is spared. -/
theorem keepsFile_read_iff (hfits : c.Fits bytes)
    (h : c.Becomes (g bytes) (g (c.insert bytes))) (filePath : String) :
    c.KeepsFile (read g bytes filePath) (read g (c.insert bytes) filePath) ↔
      c.Spares bytes (g bytes) := by
  constructor
  · rintro ⟨hunits, himports, -⟩
    exact ⟨(imports_eq_iff filePath hfits h).mp himports,
      (units_kept_iff hfits h himports).mp hunits⟩
  · rintro ⟨hdirectives, hunits⟩
    have himports := (imports_eq_iff filePath hfits h).mpr hdirectives
    exact ⟨(units_kept_iff hfits h himports).mpr hunits, himports, errors_kept h⟩

/-! ### A comment before and behind a colon -/

theorem Becomes.leaf {i i' : NodeInfo} (hinfo : i'.withoutRows = (c.moved i).withoutRows)
    (hin : c.isIn (.mk i []) = false) : c.Becomes (.mk i []) (.mk i' []) := by
  refine .keeps ⟨hinfo, fun child hchild => nomatch hchild⟩ (fun hinside => ?_) .nil
  rw [hin] at hinside
  cases hinside

def noText : Phrase := .leaf none "comment" true "/**/"

/-- A controller with comments in front of the colon of its base list and behind it. -/
def derived (front behind : List Phrase) : List Phrase :=
  [Phrase.classOf [] "HomeController" (front ++ [.node none "base_list"
    (Phrase.token ":" :: behind ++ [Phrase.identifier "Controller"])]) []]

/-- The sources of the controller without a comment, with one in front of the colon, and with one
behind it. -/
def derivedGrammar : Grammar :=
  Phrase.grammar [derived [] [], derived [noText] [], derived [] [noText]]

theorem becomes_derived_front : Becomes ⟨20, Utf8.encode "/**/"⟩
    (Phrase.root (derived [] [])) (Phrase.root (derived [noText] [])) := by
  refine .keeps ⟨by decide +kernel, by decide +kernel⟩ (by decide +kernel) (.cons ?_ .nil)
  refine @Becomes.gains _ _ _ _ [_, _] [_, _] [_, _] [_, _]
    ⟨by decide +kernel, by decide +kernel⟩ (by decide +kernel) rfl rfl (by decide +kernel)
    (by decide +kernel) (by decide +kernel) ?_ ?_
  · exact .cons (.leaf (by decide +kernel) (by decide +kernel))
      (.cons (.leaf (by decide +kernel) (by decide +kernel)) .nil)
  · refine .cons (.keeps ⟨by decide +kernel, by decide +kernel⟩ (by decide +kernel) ?_)
      (.cons (.keeps ⟨by decide +kernel, by decide +kernel⟩ (by decide +kernel) ?_) .nil)
    · exact .cons (.leaf (by decide +kernel) (by decide +kernel))
        (.cons (.leaf (by decide +kernel) (by decide +kernel)) .nil)
    · exact .cons (.leaf (by decide +kernel) (by decide +kernel))
        (.cons (.leaf (by decide +kernel) (by decide +kernel)) .nil)

theorem becomes_derived_behind : Becomes ⟨21, Utf8.encode "/**/"⟩
    (Phrase.root (derived [] [])) (Phrase.root (derived [] [noText])) := by
  refine .keeps ⟨by decide +kernel, by decide +kernel⟩ (by decide +kernel) (.cons ?_ .nil)
  refine .keeps ⟨by decide +kernel, by decide +kernel⟩ (by decide +kernel) ?_
  refine .cons (.leaf (by decide +kernel) (by decide +kernel))
    (.cons (.leaf (by decide +kernel) (by decide +kernel)) (.cons ?_
      (.cons (.keeps ⟨by decide +kernel, by decide +kernel⟩ (by decide +kernel) ?_) .nil)))
  · refine @Becomes.gains _ _ _ _ [_] [_] [_] [_]
      ⟨by decide +kernel, by decide +kernel⟩ (by decide +kernel) rfl rfl (by decide +kernel)
      (by decide +kernel) (by decide +kernel) ?_ ?_
    · exact .cons (.leaf (by decide +kernel) (by decide +kernel)) .nil
    · exact .cons (.leaf (by decide +kernel) (by decide +kernel)) .nil
  · exact .cons (.leaf (by decide +kernel) (by decide +kernel))
      (.cons (.leaf (by decide +kernel) (by decide +kernel)) .nil)

theorem derivedGrammar_plain :
    derivedGrammar (Phrase.source (derived [] [])) = Phrase.root (derived [] []) :=
  Phrase.grammar_eq [] rfl (by simp)

theorem derivedGrammar_front :
    derivedGrammar (insert ⟨20, Utf8.encode "/**/"⟩ (Phrase.source (derived [] []))) =
      Phrase.root (derived [noText] []) :=
  Phrase.grammar_eq [derived [] []] (by decide +kernel) (by decide +kernel)

theorem derivedGrammar_behind :
    derivedGrammar (insert ⟨21, Utf8.encode "/**/"⟩ (Phrase.source (derived [] []))) =
      Phrase.root (derived [] [noText]) :=
  Phrase.grammar_eq [derived [] [], derived [noText] []] (by decide +kernel)
    (by decide +kernel)

/-- A comment in front of the colon changes nothing. -/
theorem keepsFile_read_comment_before_bases :
    Fits ⟨20, Utf8.encode "/**/"⟩ (Phrase.source (derived [] [])) ∧
      Becomes ⟨20, Utf8.encode "/**/"⟩ (derivedGrammar (Phrase.source (derived [] [])))
        (derivedGrammar (insert ⟨20, Utf8.encode "/**/"⟩ (Phrase.source (derived [] [])))) ∧
      KeepsFile ⟨20, Utf8.encode "/**/"⟩
        (read derivedGrammar (Phrase.source (derived [] [])) "HomeController.cs")
        (read derivedGrammar (insert ⟨20, Utf8.encode "/**/"⟩ (Phrase.source (derived [] [])))
          "HomeController.cs") := by
  have hfits : Fits ⟨20, Utf8.encode "/**/"⟩ (Phrase.source (derived [] [])) :=
    ⟨⟨[], by decide +kernel⟩, by decide +kernel⟩
  have hbecomes : Becomes ⟨20, Utf8.encode "/**/"⟩ (derivedGrammar (Phrase.source (derived [] [])))
      (derivedGrammar (insert ⟨20, Utf8.encode "/**/"⟩ (Phrase.source (derived [] [])))) := by
    rw [derivedGrammar_plain, derivedGrammar_front]
    exact becomes_derived_front
  refine ⟨hfits, hbecomes, (keepsFile_read_iff hfits hbecomes "HomeController.cs").mpr ?_⟩
  have hdeclared : ∀ x ∈ declared (Phrase.source (derived [] []))
      (derivedGrammar (Phrase.source (derived [] []))),
        (x.2.kind == "class_declaration" && isBeside ⟨20, Utf8.encode "/**/"⟩ (textNodes x.1 x.2) &&
          sparesBases ⟨20, Utf8.encode "/**/"⟩ x.2 && x.1.directives.isEmpty) = true := by
    decide +kernel
  refine ⟨by decide +kernel, fun x hx => ?_⟩
  have hx := hdeclared x hx
  simp only [Bool.and_eq_true, beq_iff_eq, List.isEmpty_iff] at hx
  obtain ⟨⟨⟨hkind, htexts⟩, hbases⟩, hdirectives⟩ := hx
  exact ⟨htexts, fun _ => hbases, fun _ => by rw [hdirectives]; rfl,
    fun hother => absurd hkind hother⟩

/-- A comment in a base list is read as the base class. -/
theorem not_keepsFile_read_comment_in_bases :
    Fits ⟨21, Utf8.encode "/**/"⟩ (Phrase.source (derived [] [])) ∧
      Becomes ⟨21, Utf8.encode "/**/"⟩ (derivedGrammar (Phrase.source (derived [] [])))
        (derivedGrammar (insert ⟨21, Utf8.encode "/**/"⟩ (Phrase.source (derived [] [])))) ∧
      ¬KeepsFile ⟨21, Utf8.encode "/**/"⟩
        (read derivedGrammar (Phrase.source (derived [] [])) "HomeController.cs")
        (read derivedGrammar (insert ⟨21, Utf8.encode "/**/"⟩ (Phrase.source (derived [] [])))
          "HomeController.cs") := by
  refine ⟨⟨⟨[], by decide +kernel⟩, by decide +kernel⟩, ?_, ?_⟩
  · rw [derivedGrammar_plain, derivedGrammar_behind]
    exact becomes_derived_behind
  have hold : (read derivedGrammar (Phrase.source (derived [] [])) "HomeController.cs").units.map
      (·.head) = [.ofClass { base := some "Controller", keywordAt := some 0 }] := by decide +kernel
  have hnew : (read derivedGrammar
      (insert ⟨21, Utf8.encode "/**/"⟩ (Phrase.source (derived [] [])))
      "HomeController.cs").units.map
        (·.head) = [.ofClass
          { base := some "/**/", interfaces := ["Controller"], keywordAt := some 0 }] := by
    decide +kernel
  rintro ⟨hunits, -, -⟩
  have hheads := List.forall₂_map_left_iff.mpr (List.forall₂_map_right_iff.mpr
    (hunits.imp fun _ _ hkeeps => hkeeps.head))
  rw [hold, hnew] at hheads
  obtain ⟨hfirst, -⟩ := List.forall₂_cons.mp hheads
  cases hfirst with
  | ofClass h => exact absurd (ClassHead.mk.inj h).2.2.1 (by decide)

end Comment

end RouteLinks.Source
