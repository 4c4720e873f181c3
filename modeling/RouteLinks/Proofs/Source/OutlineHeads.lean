import RouteLinks.Proofs.Source.OutlineText
/-!
# Heads of an outline

What is read from the head of a declaration of an outline, whatever node has its tree: modifiers,
base, return type and parameters are those that were written.
-/

namespace RouteLinks.Outline

open Source Phrase

variable {bytes : Bytes} {n : SyntaxNode} {parts : List Phrase} {field : Option String}
  {kind : String}

/-! ### Parts of a declaration -/

theorem pieces_append (a b : List Phrase) : pieces (a ++ b) = pieces a ++ pieces b :=
  List.filter_append a b

/-- A modifier without the space behind it. -/
def modifierPiece (word : String) : Phrase := .leaf none "modifier" true word

theorem pieces_modifiers (words : List String) :
    pieces (words.flatMap modifier) = words.map modifierPiece := by
  induction words with
  | nil => rfl
  | cons word rest ih => rw [List.flatMap_cons, pieces_append, ih]; rfl

theorem eq_or_eq_of_mem_modifiers {words : List String} {p : Phrase}
    (h : p ∈ words.flatMap modifier) : (∃ w, p = modifierPiece w) ∨ p = space := by
  obtain ⟨w, -, hp⟩ := List.mem_flatMap.mp h
  rcases List.mem_cons.mp hp with rfl | hp
  · exact .inl ⟨w, rfl⟩
  · exact .inr (List.mem_singleton.mp hp)

theorem field?_of_stands (h : Stands bytes (.node field kind parts) n) (name : String) :
    Option.Rel (Stands bytes) ((pieces parts).find? (·.field == some name)) (n.field? name) :=
  rel_find? h.children fun _ _ hstands => by rw [hstands.field_eq]

theorem child?_of_stands (h : Stands bytes (.node field kind parts) n) (name : String) :
    Option.Rel (Stands bytes) ((pieces parts).find? (·.kind == name)) (n.child? name) :=
  rel_find? h.children fun _ _ hstands => by rw [hstands.kind_eq]

theorem eq_none_of_rel {x : Option Phrase} {y : Option SyntaxNode}
    (h : Option.Rel (Stands bytes) x y) (hx : x = none) : y = none := by
  subst hx
  cases h
  rfl

theorem exists_of_rel {x : Option Phrase} {y : Option SyntaxNode} {p : Phrase}
    (h : Option.Rel (Stands bytes) x y) (hx : x = some p) : ∃ m, y = some m ∧ Stands bytes p m := by
  subst hx
  cases h with
  | some h => exact ⟨_, rfl, h⟩

theorem modifiersOf_of_stands {words : List String} {more : List Phrase}
    (h : Stands bytes (.node field kind parts) n)
    (hpieces : pieces parts = words.map modifierPiece ++ more)
    (hmore : ∀ p ∈ more, p.kind ≠ "modifier") (hwords : ∀ w ∈ words, trim w = w) :
    modifiersOf bytes n = words := by
  have hfilter := List.rel_filter (p := (·.kind == "modifier")) (q := (·.kind == "modifier"))
    (fun _ _ hstands => by simp only [hstands.kind_eq]) h.children
  have hmodifiers : (pieces parts).filter (·.kind == "modifier") = words.map modifierPiece := by
    rw [hpieces, List.filter_append, List.filter_eq_self.mpr, List.filter_eq_nil_iff.mpr,
      List.append_nil]
    · simpa using hmore
    · simp [modifierPiece, Phrase.kind]
  rw [modifiersOf, map_text_of_stands hfilter, hmodifiers, List.map_map]
  exact (List.map_congr_left hwords).trans (List.map_id words)

theorem attributesOf_of_stands {words : List String} {more : List Phrase}
    (h : Stands bytes (.node field kind parts) n)
    (hpieces : pieces parts = words.map modifierPiece ++ more)
    (hmore : ∀ p ∈ more, p.kind ≠ "attribute_list") : attributesOf bytes n = [] := by
  have hnone : ∀ p ∈ pieces parts, p.kind ≠ "attribute_list" := by
    rw [hpieces]
    refine List.forall_mem_append.mpr ⟨fun p hp => ?_, hmore⟩
    obtain ⟨w, -, rfl⟩ := List.mem_map.mp hp
    simp [modifierPiece, Phrase.kind]
  have hfilter := List.rel_filter (p := (·.kind == "attribute_list")) (q := (·.kind == "attribute_list"))
    (fun _ _ hstands => by simp only [hstands.kind_eq]) h.children
  rw [List.filter_eq_nil_iff.mpr (by simpa using hnone)] at hfilter
  rw [attributesOf, List.forall₂_nil_left_iff.mp hfilter]
  rfl

theorem find?_modifiers {words : List String} {more : List Phrase} {t : Phrase → Bool}
    (h : ∀ w, t (modifierPiece w) = false) :
    (words.map modifierPiece ++ more).find? t = more.find? t := by
  rw [List.find?_append, List.find?_eq_none.mpr, Option.none_or]
  simp [h]

/-! ### Classes -/

theorem Modifier.trim_text (m : Modifier) : trim m.text = m.text :=
  (by decide +kernel : ∀ w ∈ modifierWords, trim w = w) m.text m.isModifier

namespace ClassHeader

variable {h : ClassHeader} {depth : Nat} {members : List Phrase}

/-- The base list of a class without the space in front of it. -/
def basePiece (b : Base) : Phrase := .node none "base_list" [token ":", space, b.type.phrase none]

/-- The parts of a class behind its modifiers. -/
def furtherPieces (h : ClassHeader) (depth : Nat) (members : List Phrase) : List Phrase :=
  [token "class", h.name.phrase] ++ (h.base.toList.map basePiece ++
    [body depth "declaration_list" members])

theorem pieces_eq (h : ClassHeader) (depth : Nat) (members : List Phrase) :
    pieces (h.header ++ [.blank ("\n" ++ margin depth), body depth "declaration_list" members]) =
      (h.modifiers.map Modifier.text).map modifierPiece ++ h.furtherPieces depth members := by
  rw [header, pieces_append, pieces_append, pieces_append, pieces_modifiers, List.append_assoc,
    List.append_assoc, furtherPieces]
  cases h.base <;> rfl

/-- The tree of a class is at a node. -/
abbrev StandsAt (bytes : Bytes) (h : ClassHeader) (depth : Nat) (members : List Phrase)
    (n : SyntaxNode) : Prop :=
  Stands bytes (.node none "class_declaration" (h.header ++ [.blank ("\n" ++ margin depth),
    body depth "declaration_list" members])) n

theorem nameOf?_eq (hstands : StandsAt bytes h depth members n) :
    nameOf? bytes n = some h.name.text := by
  have hfield := field?_of_stands hstands "name"
  rw [h.pieces_eq, find?_modifiers fun _ => rfl] at hfield
  obtain ⟨m, hm, hname⟩ := exists_of_rel hfield (p := h.name.phrase) rfl
  rw [nameOf?, hm, Option.map_some, hname.rawText_eq]
  exact Option.filter_eq_some_iff.mpr
    ⟨rfl, by simpa [String.isEmpty_iff] using h.name.ink.1.ne_empty⟩

theorem basesOf_eq (hstands : StandsAt bytes h depth members n) :
    basesOf bytes n = h.base.toList.map (·.type.text) := by
  have hchild := child?_of_stands hstands "base_list"
  rw [h.pieces_eq, find?_modifiers fun _ => rfl, furtherPieces] at hchild
  rw [basesOf]
  cases hbase : h.base with
  | none =>
      rw [hbase] at hchild
      rw [eq_none_of_rel hchild rfl]
      rfl
  | some b =>
      rw [hbase] at hchild
      obtain ⟨m, hm, hlist⟩ := exists_of_rel hchild (p := basePiece b) rfl
      have hnamed := List.rel_filter (p := (·.isNamed)) (q := (·.info.isNamed))
        (fun _ _ hstands => by simp only [hstands.isNamed_eq]) hlist.children
      rw [hm]
      show (List.map _ (m.children.filter (·.info.isNamed))).filter _ = _
      rw [map_text_of_stands hnamed]
      show [trim b.type.text].filter _ = [b.type.text]
      rw [b.type.trim_text, List.filter_cons_of_pos, List.filter_nil]
      simpa [String.isEmpty_iff] using b.type.beginsInk.ne_empty

theorem divideBases_eq (h : ClassHeader) :
    divideBases (h.base.toList.map (·.type.text)) = (h.base.map (·.type.text), []) := by
  cases h.base with
  | none => rfl
  | some b => simp [divideBases, b.isClass]

theorem withoutPlaces_classHead {r : Reading} {c : Context} (hc : c.usings = [])
    (hstands : StandsAt r.bytes h depth members n) :
    (UnitHead.ofClass (r.classHead c n)).withoutPlaces = h.head := by
  have hpieces := h.pieces_eq depth members
  have hkind : ∀ p ∈ h.furtherPieces depth members, p.kind ∉ ["modifier", "attribute_list",
      "type_parameter_list"] := by
    rw [furtherPieces]
    cases h.base <;> simp [token, Phrase.kind, Name.phrase, identifier, body, basePiece]
  have hmodifiers : modifiersOf r.bytes n = h.modifiers.map Modifier.text :=
    modifiersOf_of_stands hstands hpieces (fun p hp hkind' => hkind p hp (by simp [hkind']))
      (by simp [Modifier.trim_text])
  have hattributes : attributesOf r.bytes n = [] :=
    attributesOf_of_stands hstands hpieces fun p hp hkind' => hkind p hp (by simp [hkind'])
  have htypes : n.child? "type_parameter_list" = none := by
    refine eq_none_of_rel (child?_of_stands hstands "type_parameter_list") ?_
    rw [hpieces, find?_modifiers fun _ => rfl, List.find?_eq_none]
    intro p hp hkind'
    exact hkind p hp (by simp [eq_of_beq hkind'])
  rw [UnitHead.withoutPlaces, Reading.classHead, hmodifiers, hattributes, htypes, hc,
    basesOf_eq hstands, h.divideBases_eq]
  simp only [hstands.hasError_eq]
  rfl

end ClassHeader

/-! ### Parameters -/

theorem exists_append_of_forall₂ {R : Phrase → SyntaxNode → Prop} {a b : List Phrase}
    {nodes : List SyntaxNode} (h : List.Forall₂ R (a ++ b) nodes) :
    ∃ x y, nodes = x ++ y ∧ List.Forall₂ R a x ∧ List.Forall₂ R b y :=
  ⟨nodes.take a.length, nodes.drop a.length, (List.take_append_drop _ _).symm,
    (List.forall₂_take_append nodes a b h.flip).flip,
    (List.forall₂_drop_append nodes a b h.flip).flip⟩

/-- Whether some phrases in a parameter list are read as a parameter. -/
def Reads (bytes : Bytes) (group : List Phrase) (p : Parameter) : Prop :=
  ∀ {nodes : List SyntaxNode} (more : List SyntaxNode),
    List.Forall₂ (Stands bytes) (pieces group) nodes →
      readParametersFrom bytes none (nodes ++ more) = p :: readParametersFrom bytes none more

theorem readParametersFrom_token {p : Phrase} (h : Stands bytes p n)
    (hkind : p.kind ∉ ["params", "__arglist", "parameter", "parameter_array"])
    (more : List SyntaxNode) :
    readParametersFrom bytes none (n :: more) = readParametersFrom bytes none more := by
  simp only [List.mem_cons, List.not_mem_nil, or_false, not_or, ← h.kind_eq] at hkind
  rw [readParametersFrom]
  simp [hkind]

theorem readParametersFrom_separated {groups : List (List Phrase)} {parameters : List Parameter}
    (h : List.Forall₂ (Reads bytes) groups parameters) {nodes : List SyntaxNode}
    (hnodes : List.Forall₂ (Stands bytes) (pieces (separated groups)) nodes)
    (more : List SyntaxNode) :
    readParametersFrom bytes none (nodes ++ more) =
      parameters ++ readParametersFrom bytes none more := by
  induction h generalizing nodes with
  | nil =>
      cases hnodes
      rfl
  | @cons group p groups parameters hgroup hgroups ih =>
      cases hgroups with
      | nil => exact hgroup more hnodes
      | cons hsecond hothers =>
          rw [separated, pieces_append] at hnodes
          · obtain ⟨x, y, rfl, hx, hy⟩ := exists_append_of_forall₂ hnodes
            obtain ⟨comma, z, hcomma, hz, rfl⟩ := List.forall₂_cons_left_iff.mp hy
            rw [List.append_assoc, hgroup _ hx, List.cons_append,
              readParametersFrom_token hcomma (by decide), ih hz]
            rfl
          · exact List.cons_ne_nil _ _

namespace PlainParameter

variable {p : PlainParameter} {start : Nat}

/-- The parts of a parameter, the modifiers and the default taken apart. -/
theorem pieces_phrase (p : PlainParameter) :
    pieces (p.passing.modifiers.flatMap modifier ++
        [p.type.phrase (some "type"), space, p.name.phrase] ++
          p.default.toList.flatMap Default.phrases) =
      p.passing.modifiers.map modifierPiece ++ ([p.type.phrase (some "type"), p.name.phrase] ++
        p.default.toList.flatMap fun d => [token "=", .leaf none d.kind true d.text]) := by
  rw [pieces_append, pieces_append, pieces_modifiers, List.append_assoc]
  cases p.default <;> rfl

theorem parameterName?_eq (h : Stands bytes p.phrase n) :
    ∃ m, parameterName? n = some m ∧ Stands bytes p.name.phrase m := by
  have hfield := field?_of_stands h "name"
  rw [p.pieces_phrase, find?_modifiers fun _ => rfl] at hfield
  obtain ⟨m, hm, hname⟩ := exists_of_rel hfield (p := p.name.phrase) rfl
  have hplain : isRestParameter n = false := by
    rw [isRestParameter, h.kind_eq]
    rfl
  exact ⟨m, by rw [parameterName?, hplain, hm]; rfl, hname⟩

theorem parameterType?_eq (h : Stands bytes p.phrase n) :
    ∃ m, n.field? "type" = some m ∧ parameterType? n = some m ∧
      Stands bytes (p.type.phrase (some "type")) m := by
  have hfield := field?_of_stands h "type"
  rw [p.pieces_phrase, find?_modifiers fun _ => rfl] at hfield
  obtain ⟨m, hm, htype⟩ := exists_of_rel hfield (p := p.type.phrase (some "type")) rfl
  exact ⟨m, hm, by rw [parameterType?, hm]; rfl, htype⟩

theorem stands_beforeType (h : Stands bytes p.phrase n) :
    List.Forall₂ (Stands bytes) (p.passing.modifiers.map modifierPiece) (beforeType n) := by
  obtain ⟨type, htype, hboundary, -⟩ := parameterType?_eq h
  obtain ⟨start, hshows, hat⟩ := h
  rw [phrase, Shows, List.append_assoc, List.cons_append] at hshows
  obtain ⟨x, t, y, hchildren, hfind, hx, ht⟩ :=
    find?_of_showsAll (q := (·.info.field == some "type"))
    (t := (·.field == some "type")) hshows.2 (fun _ _ _ hm => by rw [hm.field_eq])
    (fun piece hpiece _ => by rcases eq_or_eq_of_mem_modifiers hpiece with ⟨w, rfl⟩ | rfl <;> rfl)
    rfl rfl
  obtain rfl : t = type := Option.some.inj (hfind.symm.trans htype)
  have hsize : ∀ piece ∈ p.passing.modifiers.flatMap modifier, 0 < size piece.text := by
    cases p.passing <;> decide +kernel
  have hbefore : ∀ m ∈ x, decide (m.start < t.start) = true := by
    rw [ht.start_eq]
    exact fun m hm => decide_eq_true (start_lt_of_showsAll hx hsize hm)
  rw [beforeType, hboundary, Option.some_or]
  show List.Forall₂ _ _ (n.children.takeWhile (·.start < t.start))
  rw [hchildren, List.takeWhile_append_of_pos hbefore, List.takeWhile_cons_of_neg (by simp),
    List.append_nil, ← pieces_modifiers]
  rw [phrase, Phrase.text, textOf_append, textOf_append] at hat
  exact stands_of_showsAll hx hat.left.left

theorem parameterModifiers_eq (h : Stands bytes p.phrase n) :
    parameterModifiers bytes n = p.passing.modifiers := by
  have hfilter := List.rel_filter (p := (·.kind != "attribute_list"))
    (q := (·.kind != "attribute_list")) (fun _ _ hstands => by simp only [hstands.kind_eq])
    (stands_beforeType h)
  have hplain : isRestParameter n = false := by
    rw [isRestParameter, h.kind_eq]
    rfl
  have htexts := map_text_of_stands hfilter
  rw [parameterModifiers, hplain, ← List.flatMap_map, htexts]
  cases p.passing <;> decide +kernel

/-- The signs that a default can follow. -/
abbrev IsEquals (sign : String) : Prop := sign = "=" ∨ sign = "equals_value_clause"

theorem kind_type_ne (t : TypeExpr) {sign : String} (h : IsEquals sign) : t.kind ≠ sign := by
  match t with
  | .builtin _ | .named (.last _ .none) | .named (.last _ (.some _)) | .named (.dotted _ _ _)
  | .array _ _ => rcases h with rfl | rfl <;> simp [TypeExpr.kind, TypeName.kind]

theorem kind_default_ne (d : Default) {sign : String} (h : IsEquals sign) : d.kind ≠ sign := by
  cases d with
  | number n => rcases h with rfl | rfl <;> by_cases hn : n < 0 <;> simp [Default.kind, hn]
  | string => rcases h with rfl | rfl <;> simp [Default.kind]

theorem parameterDefault?_some {d : Default} (hdefault : p.default = some d)
    (h : Stands bytes p.phrase n) : ∃ e, n.child? "=" = some e ∧
      sliceText bytes e.stop n.stop = " " ++ d.text := by
  obtain ⟨start, hshows, hat⟩ := h
  obtain ⟨front, hfront⟩ : ∃ front, front = p.passing.modifiers.flatMap modifier ++
      [p.type.phrase (some "type"), space, p.name.phrase, space] := ⟨_, rfl⟩
  have hparts : p.phrase = .node none "parameter" (front ++ token "=" ::
      [space, .leaf none d.kind true d.text]) := by
    rw [phrase, hdefault, hfront]
    simp [Default.phrases]
  have hplain : ∀ piece ∈ front, piece.isBlank = false → (piece.kind == "=") = false := by
    intro piece hpiece _
    rw [hfront] at hpiece
    rcases List.mem_append.mp hpiece with hpiece | hpiece
    · rcases eq_or_eq_of_mem_modifiers hpiece with ⟨w, rfl⟩ | rfl <;> rfl
    · simp only [List.mem_cons, List.not_mem_nil, or_false] at hpiece
      rcases hpiece with rfl | rfl | rfl | rfl
      · exact beq_eq_false_iff_ne.mpr (kind_type_ne p.type (.inl rfl))
      all_goals rfl
  have hstop := hshows.stop_eq
  rw [hparts, Shows] at hshows
  obtain ⟨x, e, y, -, hfind, -, he⟩ := find?_of_showsAll (q := (·.kind == "="))
    (t := (·.kind == "=")) hshows.2 (fun _ _ _ hm => by rw [hm.kind_eq]) hplain rfl rfl
  have htext : p.phrase.text = textOf front ++ "=" ++ (" " ++ d.text) := by
    rw [hparts, Phrase.text, textOf_append, String.append_assoc]
    simp [textOf, Phrase.text, token, space]
  have hafter : e.stop = start + size (textOf front ++ "=") := by
    rw [he.stop_eq, size_append, Nat.add_assoc]
    rfl
  rw [htext] at hat
  have hslice := hat.right.sliceText_eq
  rw [Nat.add_assoc, ← size_append, ← htext, ← hstop, ← hafter] at hslice
  exact ⟨e, hfind, hslice⟩

theorem parameterDefault?_eq (h : Stands bytes p.phrase n) :
    parameterDefault? bytes n = p.default.map Default.text := by
  have hvalue := field?_of_stands h "default_value"
  have hclause := child?_of_stands h "equals_value_clause"
  have hequals := child?_of_stands h "="
  rw [p.pieces_phrase, find?_modifiers fun _ => rfl] at hvalue hclause hequals
  have htype := And.intro (kind_type_ne p.type (.inl rfl)) (kind_type_ne p.type (.inr rfl))
  rw [parameterDefault?]
  cases hdefault : p.default with
  | none =>
      rw [hdefault] at hvalue hclause hequals
      rw [eq_none_of_rel hvalue rfl, eq_none_of_rel hclause, eq_none_of_rel hequals]
      · rfl
      all_goals simp [htype, TypeExpr.phrase, Name.phrase, identifier, Phrase.kind]
  | some d =>
      rw [hdefault] at hvalue hclause
      rw [eq_none_of_rel hvalue rfl, eq_none_of_rel hclause]
      · obtain ⟨e, he, htext⟩ := parameterDefault?_some hdefault h
        have hvalue : trim (" " ++ d.text) = d.text := trim_space_append d.ink.1 d.ink.2
        rw [he]
        simp [htext, hvalue, d.ink.1.ne_empty]
      · simp [htype, kind_default_ne d (.inr rfl), TypeExpr.phrase, Name.phrase, identifier,
          Phrase.kind, token]

theorem readParameter_eq (h : Stands bytes p.phrase n) :
    readParameter bytes n = p.parameter := by
  obtain ⟨name, hname, hnameStands⟩ := parameterName?_eq h
  obtain ⟨type, -, htype, htypeStands⟩ := parameterType?_eq h
  have hnameText : name.text bytes = p.name.text := hnameStands.text_eq.trans p.name.trim_text
  have htypeText : type.text bytes = p.type.text := htypeStands.text_eq.trans p.type.trim_text
  rw [readParameter, hname, htype, parameterDefault?_eq h, parameterModifiers_eq h, Option.map_some,
    Option.map_some, hnameText, htypeText]
  rfl

theorem reads (p : PlainParameter) : Reads bytes [p.phrase] p.parameter := by
  intro nodes more h
  obtain ⟨n, _, hn, hnone, rfl⟩ := List.forall₂_cons_left_iff.mp h
  obtain rfl := List.forall₂_nil_left_iff.mp hnone
  have hkind : n.kind = "parameter" := hn.kind_eq
  rw [List.singleton_append, readParametersFrom, ← readParameter_eq hn]
  simp [hkind]

end PlainParameter

theorem RestParameter.reads (p : RestParameter) : Reads bytes p.phrases p.parameter := by
  intro nodes more h
  have hpieces : pieces p.phrases = [token "params", p.type.phrase (some "type"), p.name.phrase] :=
    rfl
  rw [hpieces] at h
  obtain ⟨keyword, _, hkeyword, hrest, rfl⟩ := List.forall₂_cons_left_iff.mp h
  obtain ⟨type, _, htype, hlast, rfl⟩ := List.forall₂_cons_left_iff.mp hrest
  obtain ⟨name, _, hname, hnone, rfl⟩ := List.forall₂_cons_left_iff.mp hlast
  obtain rfl := List.forall₂_nil_left_iff.mp hnone
  simp only [List.cons_append, List.nil_append, readParametersFrom, hkeyword.kind_eq,
    htype.isNamed_eq, htype.kind_eq, hname.kind_eq, htype.text_eq, hname.text_eq]
  simp only [token, Phrase.kind, Name.phrase, identifier, Phrase.isNamed, TypeExpr.phrase,
    Phrase.text, p.type.trim_text, p.name.trim_text]
  rfl

/-! ### Methods -/

namespace Method

variable {m : Method} {depth : Nat}

/-- The parts of a method. -/
def allPieces (m : Method) (depth : Nat) : List Phrase :=
  ["public"].map modifierPiece ++ [m.returnType.phrase (some "returns"), m.name.phrase,
    parameterList (separated m.parameterPhrases), body depth "block" []]

/-- The tree of a method is at a node. -/
abbrev StandsAt (bytes : Bytes) (m : Method) (depth : Nat) (n : SyntaxNode) : Prop :=
  Stands bytes (.node none "method_declaration" (m.header ++ [.blank ("\n" ++ margin depth),
    body depth "block" []])) n

theorem pieces_eq (m : Method) (depth : Nat) :
    pieces (m.header ++ [.blank ("\n" ++ margin depth), body depth "block" []]) =
      m.allPieces depth := by
  rw [pieces_append]
  rfl

theorem reads_parameterPhrases (m : Method) :
    List.Forall₂ (Reads bytes) m.parameterPhrases m.allParameters := by
  rw [parameterPhrases, allParameters]
  induction m.parameters with
  | nil =>
      cases m.rest with
      | none => exact .nil
      | some p => exact .cons p.reads .nil
  | cons p more ih => exact .cons p.reads ih

theorem nameOf?_eq (h : StandsAt bytes m depth n) : nameOf? bytes n = some m.name.text := by
  have hfield := field?_of_stands h "name"
  rw [m.pieces_eq] at hfield
  obtain ⟨name, hname, hstands⟩ := exists_of_rel hfield (p := m.name.phrase) rfl
  rw [nameOf?, hname, Option.map_some, hstands.rawText_eq]
  exact Option.filter_eq_some_iff.mpr
    ⟨rfl, by simpa [String.isEmpty_iff] using m.name.ink.1.ne_empty⟩

theorem readParameters_eq (h : StandsAt bytes m depth n) :
    readParameters bytes (Reading.listOf? n "parameters" "parameter_list") = m.allParameters := by
  have hfield := field?_of_stands h "parameters"
  rw [m.pieces_eq] at hfield
  obtain ⟨list, hlist, hstands⟩ :=
    exists_of_rel hfield (p := parameterList (separated m.parameterPhrases)) rfl
  obtain ⟨opening, rest, hopening, hrest, hchildren⟩ :=
    List.forall₂_cons_left_iff.mp hstands.children
  change List.Forall₂ _ (pieces (separated m.parameterPhrases ++ [token ")"])) rest at hrest
  rw [pieces_append] at hrest
  obtain ⟨nodes, closing, rfl, hnodes, hclosing⟩ := exists_append_of_forall₂ hrest
  obtain ⟨bracket, _, hbracket, hnone, rfl⟩ := List.forall₂_cons_left_iff.mp hclosing
  obtain rfl := List.forall₂_nil_left_iff.mp hnone
  rw [Reading.listOf?, hlist, Option.some_or, readParameters, hchildren,
    readParametersFrom_token hopening (by decide),
    readParametersFrom_separated m.reads_parameterPhrases hnodes,
    readParametersFrom_token hbracket (by decide), readParametersFrom, List.append_nil]

theorem withoutPlaces_methodHead {r : Reading} (h : StandsAt r.bytes m depth n) :
    (UnitHead.ofMethod (r.methodHead n)).withoutPlaces = m.head := by
  have hpieces := m.pieces_eq depth
  have htypeKind : m.returnType.kind ∉ ["modifier", "attribute_list", "type_parameter_list"] := by
    match m.returnType with
    | .builtin _ | .named (.last _ .none) | .named (.last _ (.some _)) | .named (.dotted _ _ _)
    | .array _ _ => simp [TypeExpr.kind, TypeName.kind]
  simp only [List.mem_cons, List.not_mem_nil, or_false, not_or] at htypeKind
  have hmodifiers : modifiersOf r.bytes n = ["public"] :=
    modifiersOf_of_stands h hpieces (by simp [htypeKind, TypeExpr.phrase, Phrase.kind, Name.phrase,
      identifier, parameterList, body]) (by decide)
  have hattributes : attributesOf r.bytes n = [] :=
    attributesOf_of_stands h hpieces (by simp [htypeKind, TypeExpr.phrase, Phrase.kind,
      Name.phrase, identifier, parameterList, body])
  have hreturns := field?_of_stands h "returns"
  have htypeField := field?_of_stands h "type_parameters"
  have htypeChild := child?_of_stands h "type_parameter_list"
  rw [hpieces] at hreturns htypeField htypeChild
  obtain ⟨type, htype, hstands⟩ :=
    exists_of_rel hreturns (p := m.returnType.phrase (some "returns")) rfl
  have htypes : Reading.listOf? n "type_parameters" "type_parameter_list" = none := by
    rw [Reading.listOf?, eq_none_of_rel htypeField rfl, Option.none_or]
    refine eq_none_of_rel htypeChild ?_
    simp [allPieces, modifierPiece, htypeKind, TypeExpr.phrase, Phrase.kind, Name.phrase,
      identifier, parameterList, body]
  have htext : type.text r.bytes = m.returnType.text :=
    hstands.text_eq.trans m.returnType.trim_text
  rw [UnitHead.withoutPlaces, Reading.methodHead, hmodifiers, hattributes, htypes,
    readParameters_eq h, Reading.returnType?, htype, Option.some_or, Option.map_some, htext]
  simp only [h.hasError_eq]
  rfl

end Method

end RouteLinks.Outline
