import RouteLinks.Proofs.Source.OutlineHeads
/-!
# What is written for an outline is read as it

If the grammar knows the syntax of an outline, the reader finds the outline in the text that is
written for it. The induction is on the outline: each declaration is one node, what is in its braces
is read in its place, and what follows it in the place where it stands itself.
-/

namespace RouteLinks.Outline

open Source Phrase

variable {bytes : Bytes} {n : SyntaxNode}

/-! ### Places -/

theorem intercalate_ne_empty {parts : List String} (hne : parts ≠ [])
    (h : ∀ part ∈ parts, part ≠ "") : ".".intercalate parts ≠ "" := by
  obtain ⟨first, more, rfl⟩ := List.exists_cons_of_ne_nil hne
  have hfirst := h first List.mem_cons_self
  cases more with
  | nil => rwa [String.intercalate_singleton]
  | cons second others =>
      rw [String.intercalate_cons_cons]
      intro hempty
      have hlength := congrArg String.length hempty
      simp at hlength

theorem qualify_intercalate {parts more : List String} (h : ∀ part ∈ parts, part ≠ "")
    (hmore : more ≠ []) :
    qualify (".".intercalate parts) (".".intercalate more) = ".".intercalate (parts ++ more) := by
  cases parts with
  | nil => rfl
  | cons first others =>
      have hne := intercalate_ne_empty (List.cons_ne_nil first others) h
      have hempty : (".".intercalate (first :: others)).isEmpty = false := by
        rw [Bool.eq_false_iff, Ne, String.isEmpty_iff]
        exact hne
      rw [qualify, hempty, if_neg Bool.false_ne_true,
        String.intercalate_append_of_ne_nil (List.cons_ne_nil _ _) hmore]

theorem DottedName.text_ne_empty (n : DottedName) : n.text ≠ "" := by
  refine intercalate_ne_empty (List.cons_ne_nil _ _) fun part hpart => ?_
  obtain ⟨name, -, rfl⟩ := List.mem_map.mp hpart
  exact name.ink.1.ne_empty

namespace Place

/-- What the reader knows of a place. -/
def context (p : Place) : Context := { scope := p.scope, owner := p.owner }

theorem qualify_owner (p : Place) (name : Name) :
    qualify (p.owner.getD "") name.text = ".".intercalate ((p.types ++ [name]).map Name.text) := by
  have howner : p.owner.getD "" = ".".intercalate (p.types.map Name.text) := by
    rw [owner]
    cases p.types <;> rfl
  rw [howner, List.map_append]
  refine qualify_intercalate (fun part hpart => ?_) (List.cons_ne_nil name.text [])
  obtain ⟨name, -, rfl⟩ := List.mem_map.mp hpart
  exact name.ink.1.ne_empty

theorem qualify_scope (p : Place) (more : List String) (hmore : more ≠ []) :
    qualify p.scope (".".intercalate more) =
      ".".intercalate (p.spaces.map DottedName.text ++ more) := by
  refine qualify_intercalate (fun part hpart => ?_) hmore
  obtain ⟨name, -, rfl⟩ := List.mem_map.mp hpart
  exact name.text_ne_empty

theorem context_type (p : Place) (name : Name) :
    { p.context with owner := some (qualify (p.context.owner.getD "") name.text) } =
      ({ p with types := p.types ++ [name] } : Place).context := by
  show ({ p.context with owner := some (qualify (p.owner.getD "") name.text) } : Context) = _
  rw [qualify_owner]
  simp [context, owner, scope]

theorem within_eq (p : Place) (name : DottedName) {r : Reading} {m : SyntaxNode}
    (hname : n.field? "name" = some m) (htext : m.rawText r.bytes = name.text) :
    r.within p.context n = ({ p with spaces := p.spaces ++ [name] } : Place).context := by
  have hscope := p.qualify_scope [name.text] (List.cons_ne_nil _ _)
  rw [String.intercalate_singleton] at hscope
  have hwithin : r.within p.context n = { p.context with scope := qualify p.scope name.text } := by
    rw [Reading.within, hname, Option.map_some, Option.getD_some, htext]
    rfl
  rw [hwithin, hscope]
  simp [context, owner, scope]

theorem withoutPlaces_unit (p : Place) (r : Reading) (head : UnitHead) (name : Name)
    (signature : String) : ({ r.unit p.context n head name.text signature with
      imports := [] } : SourceUnit).withoutPlaces =
        p.unit r.filePath head.withoutPlaces name := by
  have hname : qualify p.context.scope (qualify (p.context.owner.getD "") name.text) =
      p.qualifiedName name := by
    show qualify p.scope (qualify (p.owner.getD "") name.text) = p.qualifiedName name
    rw [qualify_owner, qualify_scope p _ (by simp), qualifiedName]
  rw [Reading.unit, SourceUnit.withoutPlaces, hname]
  rfl

end Place

/-! ### Declarations in their order -/

section Walk

variable {r : Reading} {nodes more : List SyntaxNode}

/-- What a unit declares, without the directives in force and without places. -/
def bare (u : SourceUnit) : SourceUnit := { u with imports := [] }.withoutPlaces

theorem readMembers_append (r : Reading) (c : Context) (nodes more : List SyntaxNode) :
    readMembers r c (nodes ++ more) = readMembers r c nodes ++ readMembers r c more := by
  induction nodes with
  | nil => rw [readMembers]; rfl
  | cons n rest ih => rw [List.cons_append, readMembers, ih, readMembers, List.append_assoc]

theorem readMember_of_kind (r : Reading) (c : Context)
    (h : n.kind ∉ ["method_declaration", "constructor_declaration", "class_declaration"]) :
    readMember r c n = [] := by
  obtain ⟨info, children⟩ := n
  have hkind : (SyntaxNode.mk info children).kind = info.kind := rfl
  simp only [List.mem_cons, List.not_mem_nil, or_false, not_or, hkind] at h
  rw [readMember]
  simp [h]

theorem readItems_of_kind (r : Reading) (c : Context) (h : n.kind ∉ ["namespace_declaration",
    "file_scoped_namespace_declaration", "declaration_list", "class_declaration",
    "using_directive"]) (rest : List SyntaxNode) :
    readItems r c (n :: rest) = readItems r c rest := by
  obtain ⟨info, children⟩ := n
  have hkind : (SyntaxNode.mk info children).kind = info.kind := rfl
  simp only [List.mem_cons, List.not_mem_nil, or_false, not_or, hkind] at h
  rw [readItems, readItem, Reading.behind, hkind]
  simp [h]

end Walk

theorem exists_of_stands_body {depth : Nat} {kind : String} {members : List Phrase}
    (h : Stands bytes (body depth kind members) n) : ∃ opening closing nodes,
      n.children = opening :: (nodes ++ [closing]) ∧ opening.kind = "\x7b" ∧
        closing.kind = "\x7d" ∧ List.Forall₂ (Stands bytes) (pieces members) nodes := by
  obtain ⟨opening, rest, hopening, hrest, hchildren⟩ := List.forall₂_cons_left_iff.mp h.children
  change List.Forall₂ _ (pieces (members ++ [.blank (margin depth), token "\x7d"])) rest at hrest
  rw [pieces_append] at hrest
  obtain ⟨nodes, ending, rfl, hnodes, hending⟩ := exists_append_of_forall₂ hrest
  obtain ⟨closing, _, hclosing, hnone, rfl⟩ := List.forall₂_cons_left_iff.mp hending
  obtain rfl := List.forall₂_nil_left_iff.mp hnone
  exact ⟨opening, closing, nodes, hchildren, hopening.kind_eq, hclosing.kind_eq, hnodes⟩

theorem readBody_of_find? {r : Reading} {c : Context} {nodes : List SyntaxNode} {m : SyntaxNode}
    (h : nodes.find? (·.kind == "declaration_list") = some m) :
    readBody r c nodes = readMembers r c m.children := by
  induction nodes with
  | nil => cases h
  | cons n rest ih =>
      obtain ⟨info, children⟩ := n
      rw [List.find?_cons] at h
      change (match info.kind == "declaration_list" with
        | true => some (SyntaxNode.mk info children) | false => _) = some m at h
      rw [readBody, bodyMembers?]
      cases hkind : info.kind == "declaration_list" with
      | true =>
          rw [hkind] at h
          obtain rfl := Option.some.inj h
          rfl
      | false =>
          rw [hkind] at h
          exact ih h

theorem ClassHeader.stands_body {h : ClassHeader} {depth : Nat} {members : List Phrase}
    (hstands : StandsAt bytes h depth members n) : ∃ m, n.child? "declaration_list" = some m ∧
      Stands bytes (body depth "declaration_list" members) m := by
  have hchild := child?_of_stands hstands "declaration_list"
  rw [h.pieces_eq, find?_modifiers fun _ => rfl, furtherPieces] at hchild
  refine exists_of_rel hchild ?_
  cases h.base <;> rfl

theorem ClassHeader.map_bare_classUnits {h : ClassHeader} {depth : Nat} {members : List Phrase}
    {r : Reading} (hstands : StandsAt r.bytes h depth members n) (place : Place)
    {units : List SourceUnit} (hmembers : ∀ nodes,
      List.Forall₂ (Stands r.bytes) (pieces members) nodes →
        (readMembers r ({ place with types := place.types ++ [h.name] } : Place).context nodes).map
          bare = units) :
    (r.classUnits place.context n fun inner => readBody r inner n.children).map bare =
      place.unit r.filePath h.head h.name :: units := by
  obtain ⟨m, hm, hbody⟩ := stands_body hstands
  obtain ⟨opening, closing, nodes, hchildren, hopening, hclosing, hnodes⟩ :=
    exists_of_stands_body hbody
  have hread (c : Context) : readMembers r c m.children = readMembers r c nodes := by
    rw [hchildren, readMembers, readMembers_append, readMember_of_kind r _ (by simp [hopening]),
      readMembers, readMember_of_kind r _ (by simp [hclosing]), readMembers, List.nil_append,
      List.append_nil, List.append_nil]
  rw [Reading.classUnits, nameOf?_eq hstands]
  dsimp only
  rw [place.context_type, readBody_of_find? hm, hread, List.map_cons, hmembers nodes hnodes,
    Reading.classUnit, bare, place.withoutPlaces_unit r, withoutPlaces_classHead rfl hstands]

theorem pieces_declaration (depth : Nat) (kind bodyKind : String) (header members : List Phrase)
    (previous : Option Bool) (rest : List Phrase) :
    pieces (separator previous ++ (declaration depth kind bodyKind header members ++ rest)) =
      .node none kind (header ++ [.blank ("\n" ++ margin depth), body depth bodyKind members]) ::
        pieces rest := by
  rw [pieces_append, pieces_append]
  cases previous <;> rfl

theorem Members.map_bare_readMembers {r : Reading} (members : Members) (depth : Nat)
    (previous : Option Bool) (place : Place) {nodes : List SyntaxNode}
    (h : List.Forall₂ (Stands r.bytes) (pieces (members.phrases depth previous)) nodes) :
    (readMembers r place.context nodes).map bare = members.units r.filePath place := by
  induction members generalizing depth previous place nodes with
  | done =>
      obtain rfl := List.forall₂_nil_left_iff.mp h
      rfl
  | method m rest ih =>
      rw [phrases, pieces_declaration] at h
      obtain ⟨n, more, hn, hmore, rfl⟩ := List.forall₂_cons_left_iff.mp h
      have hkind : n.kind = "method_declaration" := hn.kind_eq
      have hmember : readMember r place.context n = (r.methodUnit? place.context n).toList := by
        obtain ⟨info, children⟩ := n
        exact if_pos (beq_iff_eq.mpr hkind)
      rw [readMembers, hmember, List.map_append, ih _ _ place hmore, units, Reading.methodUnit?,
        Method.nameOf?_eq hn]
      show [bare _] ++ _ = _
      rw [bare, place.withoutPlaces_unit r, Method.withoutPlaces_methodHead hn]
      rfl
  | type header members rest ihMembers ih =>
      rw [phrases, pieces_declaration] at h
      obtain ⟨n, more, hn, hmore, rfl⟩ := List.forall₂_cons_left_iff.mp h
      have hkind : n.kind = "class_declaration" := hn.kind_eq
      have hmember : readMember r place.context n =
          r.classUnits place.context n fun inner => readBody r inner n.children := by
        obtain ⟨info, children⟩ := n
        rw [readMember, show info.kind = _ from hkind]
        rfl
      rw [readMembers, hmember, List.map_append, ih _ _ place hmore, units,
        header.map_bare_classUnits hn place fun nodes hnodes => ihMembers _ _ _ hnodes]

theorem readItems_scope {r : Reading} {c : Context} {depth : Nat} {name : DottedName}
    {members : List Phrase} (h : Stands bytes (.node none "namespace_declaration"
      ([token "namespace", space, name.phrase] ++ [.blank ("\n" ++ margin depth),
        body depth "declaration_list" members])) n) : ∃ closing nodes,
      readItems r c n.children = readItems r c (nodes ++ [closing]) ∧
        readItems r c [closing] = [] ∧
          List.Forall₂ (Stands bytes) (pieces members) nodes := by
  obtain ⟨keyword, _, hkeyword, hrest, hchildren⟩ := List.forall₂_cons_left_iff.mp h.children
  obtain ⟨scope, _, hscope, hlast, rfl⟩ := List.forall₂_cons_left_iff.mp hrest
  obtain ⟨list, _, hlist, hnone, rfl⟩ := List.forall₂_cons_left_iff.mp hlast
  obtain rfl := List.forall₂_nil_left_iff.mp hnone
  obtain ⟨opening, closing, nodes, hinner, hopening, hclosing, hnodes⟩ :=
    exists_of_stands_body hlist
  have hkeywordKind : keyword.kind = "namespace" := hkeyword.kind_eq
  have hscopeKind : scope.kind = "identifier" ∨ scope.kind = "qualified_name" := by
    rw [hscope.kind_eq]
    show (if name.more.isEmpty then "identifier" else "qualified_name") = _ ∨
      (if name.more.isEmpty then "identifier" else "qualified_name") = _
    split
    · exact .inl rfl
    · exact .inr rfl
  have hlistKind : list.kind = "declaration_list" := hlist.kind_eq
  have hitem : readItem r c list = readItems r c list.children := by
    obtain ⟨info, children⟩ := list
    rw [readItem, show info.kind = _ from hlistKind]
    rfl
  refine ⟨closing, nodes, ?_, readItems_of_kind r c (by simp [hclosing]) [], hnodes⟩
  rw [hchildren, readItems_of_kind r c (by simp [hkeywordKind]),
    readItems_of_kind r c (by rcases hscopeKind with h | h <;> simp [h]), readItems, hitem, hinner,
    readItems_of_kind r c (by simp [hopening]), readItems, List.append_nil]

theorem Items.map_bare_readItems {r : Reading} (items : Items) (depth : Nat)
    (previous : Option Bool) (place : Place) {nodes more : List SyntaxNode}
    (h : List.Forall₂ (Stands r.bytes) (pieces (items.phrases depth previous)) nodes)
    (hmore : readItems r place.context more = []) :
    (readItems r place.context (nodes ++ more)).map bare = items.units r.filePath place := by
  induction items generalizing depth previous place nodes more with
  | done =>
      obtain rfl := List.forall₂_nil_left_iff.mp h
      rw [List.nil_append, hmore]
      rfl
  | scope name items rest ihItems ih =>
      rw [phrases, pieces_declaration] at h
      obtain ⟨n, others, hn, hothers, rfl⟩ := List.forall₂_cons_left_iff.mp h
      have hkind : n.kind = "namespace_declaration" := hn.kind_eq
      have hitem : readItem r place.context n =
          readItems r (r.within place.context n) n.children := by
        obtain ⟨info, children⟩ := n
        rw [readItem, show info.kind = _ from hkind]
        rfl
      have hbehind : r.behind place.context n = place.context := by
        rw [Reading.behind, hkind]
        rfl
      obtain ⟨m, hm, hname⟩ :=
        exists_of_rel (field?_of_stands hn "name") (p := name.phrase) rfl
      have hwithin := place.within_eq name hm hname.rawText_eq
      obtain ⟨closing, inner, hinner, hclosing, hnodes⟩ := readItems_scope (r := r)
        (c := ({ place with spaces := place.spaces ++ [name] } : Place).context) hn
      rw [List.cons_append, readItems, hitem, hbehind, hwithin, List.map_append,
        ih _ _ place hothers hmore, units, hinner, ihItems _ _ _ hnodes hclosing]
  | type header members rest ih =>
      rw [phrases, pieces_declaration] at h
      obtain ⟨n, others, hn, hothers, rfl⟩ := List.forall₂_cons_left_iff.mp h
      have hkind : n.kind = "class_declaration" := hn.kind_eq
      have hitem : readItem r place.context n =
          r.classUnits place.context n fun inner => readBody r inner n.children := by
        obtain ⟨info, children⟩ := n
        rw [readItem, show info.kind = _ from hkind]
        rfl
      have hbehind : r.behind place.context n = place.context := by
        rw [Reading.behind, hkind]
        rfl
      rw [List.cons_append, readItems, hitem, hbehind, List.map_append, ih _ _ place hothers hmore,
        units, header.map_bare_classUnits hn place fun nodes hnodes =>
          members.map_bare_readMembers _ _ _ hnodes]

/-! ### Whole sources -/

theorem Items.readImports_eq_nil {r : Reading} (items : Items) (depth : Nat)
    (previous : Option Bool) {nodes : List SyntaxNode}
    (h : List.Forall₂ (Stands r.bytes) (pieces (items.phrases depth previous)) nodes) :
    readImports r nodes = [] := by
  have hnone : nodes.filter (·.kind == "using_directive") = [] := by
    induction items generalizing depth previous nodes with
    | done =>
        obtain rfl := List.forall₂_nil_left_iff.mp h
        rfl
    | scope name items rest _ ih =>
        rw [phrases, pieces_declaration] at h
        obtain ⟨n, others, hn, hothers, rfl⟩ := List.forall₂_cons_left_iff.mp h
        rw [List.filter_cons_of_neg (by simp [hn.kind_eq, Phrase.kind]), ih _ _ hothers]
    | type header members rest ih =>
        rw [phrases, pieces_declaration] at h
        obtain ⟨n, others, hn, hothers, rfl⟩ := List.forall₂_cons_left_iff.mp h
        rw [List.filter_cons_of_neg (by simp [hn.kind_eq, Phrase.kind]), ih _ _ hothers]
  rw [readImports, hnone]
  rfl

/-- Whatever is written for an outline is read as it, if the grammar knows its syntax: no problem is
reported, and there is one declaration for each class and each method, in order, with its name, its
place and what its head says. -/
theorem read_render {g : Grammar} (items : Items) (filePath : String)
    (h : IsTreeOf (items.phrases 0 none) (g (Utf8.encode items.render))) :
    (read g (Utf8.encode items.render) filePath).errors = [] ∧
      (read g (Utf8.encode items.render) filePath).units.map SourceUnit.withoutPlaces =
        items.units filePath {} := by
  obtain ⟨r, hr⟩ : ∃ r : Reading, r = ⟨Utf8.encode items.render, filePath⟩ := ⟨_, rfl⟩
  have hstands : List.Forall₂ (Stands r.bytes) (pieces (items.phrases 0 none))
      (g (Utf8.encode items.render)).children := by
    refine stands_of_showsAll h.shows ?_
    rw [hr, ← items.textOf_eq_render]
    exact isAt_source _
  have hmore : readItems r ({} : Place).context [] = [] := rfl
  have hunits := items.map_bare_readItems 0 none {} hstands hmore
  rw [List.append_nil] at hunits
  constructor
  · show syntaxErrors filePath _ = []
    rw [syntaxErrors, h.isWhole]
    rfl
  · rw [Source.read]
    simp only [← hr, items.readImports_eq_nil 0 none hstands, List.map_map]
    rw [hr] at hunits ⊢
    exact hunits

/-- A controller in a namespace, with a base, and a method with a number by default and further
arguments. -/
def shopOutline : Items :=
  let app : Name :=
    ⟨"App", ⟨'A', ['p', 'p'], rfl, by decide, forall_mem_of_all (by decide)⟩,
      by decide, by decide⟩
  let home : Name :=
    ⟨"Home", ⟨'H', ['o', 'm', 'e'], rfl, by decide, forall_mem_of_all (by decide)⟩,
      by decide, by decide⟩
  let page : Name :=
    ⟨"Page", ⟨'P', ['a', 'g', 'e'], rfl, by decide, forall_mem_of_all (by decide)⟩,
      by decide, by decide⟩
  let number : TypeExpr := .builtin ⟨"int", by decide⟩
  let find : Method :=
    { returnType := .named (.last page (.some (.last number)))
      name := page
      parameters := [⟨.byReference, number, home, some (.number (-1))⟩]
      rest := some ⟨number, 0, app⟩ }
  let base : Base := ⟨.named (.last page .none), by decide⟩
  .scope ⟨app, [home]⟩
    (.type ⟨[⟨"public", by decide⟩], home, some base⟩ (.method find .done) .done) .done

theorem read_render_shop :
    let g := Phrase.grammar [shopOutline.phrases 0 none]
    IsTreeOf (shopOutline.phrases 0 none) (g (Utf8.encode shopOutline.render)) ∧
      (read g (Utf8.encode shopOutline.render) "Shop.cs").errors = [] ∧
      (read g (Utf8.encode shopOutline.render) "Shop.cs").units.map SourceUnit.withoutPlaces =
        shopOutline.units "Shop.cs" {} ∧
      (shopOutline.units "Shop.cs" {}).map (·.qualifiedName) =
        ["App.Home.Home", "App.Home.Home.Page"] := by
  have htree : IsTreeOf (shopOutline.phrases 0 none) (Phrase.grammar [shopOutline.phrases 0 none]
      (Utf8.encode shopOutline.render)) := by
    rw [← shopOutline.textOf_eq_render]
    exact isTreeOf_grammar _
  obtain ⟨herrors, hunits⟩ := read_render shopOutline "Shop.cs" htree
  exact ⟨htree, herrors, hunits, by decide +kernel⟩

end RouteLinks.Outline
