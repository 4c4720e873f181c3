import RouteLinks.Links.Generation
import RouteLinks.Proofs.Emit.Node
import RouteLinks.Proofs.Links.StaticFiles
import RouteLinks.Proofs.Text.Identifier
/-!
# The lines of the links to static files

How many lines the links to static files have does not depend on the identifiers in them, only on
what is listed: each file that is listed has its lines, and so has each directory that is not
hidden. So the links have more lines as soon as a file is listed that was not there.
-/

namespace RouteLinks

open Layout (Opens)

structure IsPlain (name : String) : Prop where
  noReturn : '\r' ∉ name.toList
  noLineFeed : '\n' ∉ name.toList

namespace IsPlain

variable {name more : String}

theorem append (h : IsPlain name) (hmore : IsPlain more) : IsPlain (name ++ more) := by
  constructor
  · rw [String.toList_append, List.mem_append, not_or]
    exact ⟨h.noReturn, hmore.noReturn⟩
  · rw [String.toList_append, List.mem_append, not_or]
    exact ⟨h.noLineFeed, hmore.noLineFeed⟩

theorem of_all (h : name.toList.all fun c => c != '\r' && c != '\n') : IsPlain name := by
  rw [List.all_eq_true] at h
  constructor <;> intro hc <;> exact absurd (h _ hc) (by decide)

theorem of_isPart {cs : List Char} (h : ∀ c ∈ cs, Identifier.isPart c = true) :
    IsPlain (String.ofList cs) := by
  constructor <;> intro hc <;> rw [String.toList_ofList] at hc <;>
    exact absurd (h _ hc) (by decide)

theorem ofName (name : String) : IsPlain (Identifier.ofName name) := by
  obtain ⟨cs, hword, hname⟩ := Identifier.exists_ofName_eq name
  have hcs : IsPlain (String.ofList cs) := of_isPart (List.all_eq_true.mp hword.all_isPart)
  rw [hname]
  split
  · exact append (of_all (by decide)) hcs
  · exact hcs

end IsPlain

def opensLine (code : String) : Bool := code.toList.head?.any fun c => !Text.isBlank c && c != '#'

theorem opensLine_append {code : String} (h : opensLine code = true) (more : String) :
    opensLine (code ++ more) = true := by
  rw [opensLine] at h ⊢
  rw [String.toList_append]
  cases hcode : code.toList with
  | nil => simp [hcode] at h
  | cons c rest => simpa [hcode] using h

theorem IsPlain.opens {code : String} (h : IsPlain code) (hfirst : opensLine code = true) :
    Opens code.toList := by
  rw [opensLine] at hfirst
  cases hcode : code.toList with
  | nil => simp [hcode] at hfirst
  | cons c rest =>
      simp only [hcode, List.head?_cons, Option.any_some, Bool.and_eq_true, Bool.not_eq_true',
        bne_iff_ne] at hfirst
      rw [← hcode]
      exact ⟨h.noReturn, h.noLineFeed, [], c, rest, hcode, by simp, hfirst⟩

namespace StaticFiles

theorem isPlain_freeName {taken : List String} {name : String} (h : IsPlain name) (fuel : Nat) :
    IsPlain (freeName taken name fuel) := by
  induction fuel generalizing name with
  | zero => exact h
  | succ fuel ih =>
      rw [freeName]
      split
      · exact ih (h.append (.of_all (by decide)))
      · exact h

theorem isPlain_identifier (taken : List String) (name : String) :
    IsPlain (identifier taken name) :=
  isPlain_freeName (.ofName name) _

end StaticFiles

/-! ### Single lines -/

theorem length_lines_emit_of_opens (code : String) (h : Opens code.toList) (depth : Nat) :
    (Emitter.lines (·.emit code) depth).length = 1 := by
  have hline := Emitter.length_lines_emit h (List.not_mem_nil : '\n' ∉ []) depth
  rw [List.append_nil, String.ofList_toList] at hline
  exact hline

namespace LinkClass

def constantFront (name : String) : String := "public const string " ++ (name ++ " = ")

theorem opens_constantFront {name : String} (h : IsPlain name) :
    Opens (constantFront name).toList :=
  (IsPlain.append (.of_all (by decide)) (h.append (.of_all (by decide)))).opens
    (opensLine_append (by decide) _)

/-- The number of lines of a constant with an address, which need not be a single one. -/
def constantLines (depth : Nat) (url : String) : Nat :=
  ((Node.raw (constantText (urlMember, url))).lines depth).length

theorem constantText_eq (name url : String) : constantText (name, url) =
    String.ofList ((constantFront name).toList ++ (Quoted.regular url ++ ";").toList) := by
  rw [← String.toList_append, String.ofList_toList]
  show "public const string " ++ name ++ " = " ++ Quoted.regular url ++ ";" =
    "public const string " ++ (name ++ " = ") ++ (Quoted.regular url ++ ";")
  simp only [String.append_assoc]

theorem isPlain_urlMember : IsPlain urlMember := .of_all (by decide)

theorem length_lines_constant {name : String} (h : IsPlain name) (depth : Nat) (url : String) :
    ((Node.raw (constantText (name, url))).lines depth).length = constantLines depth url := by
  rw [constantLines, constantText_eq, constantText_eq]
  cases hfields : Text.fields '\n' (Quoted.regular url ++ ";").toList with
  | nil => exact absurd hfields (Text.fields_ne_nil _ _)
  | cons first others =>
      rw [Node.length_lines_raw (opens_constantFront h) hfields,
        Node.length_lines_raw (opens_constantFront isPlain_urlMember) hfields]

theorem constantLines_pos (depth : Nat) (url : String) : 0 < constantLines depth url := by
  rw [constantLines, constantText_eq]
  cases hfields : Text.fields '\n' (Quoted.regular url ++ ";").toList with
  | nil => exact absurd hfields (Text.fields_ne_nil _ _)
  | cons first others =>
      rw [Node.length_lines_raw (opens_constantFront isPlain_urlMember) hfields]
      omega

theorem toNodes_eq (classes : List LinkClass) : toNodes classes = classes.map toNode := by
  induction classes with
  | nil => rfl
  | cons c rest ih => rw [toNodes, ih, List.map_cons]

def constantsLines (depth : Nat) (constants : List (String × String)) : Nat :=
  (constants.flatMap fun c => (Node.raw (constantText c)).lines depth).length

def classesLines (depth : Nat) (classes : List LinkClass) : Nat :=
  (classes.flatMap fun c => c.toNode.lines depth).length

theorem opens_typeHeader {name : String} (h : IsPlain name) :
    Opens (Node.typeHeader name ["public", "static", "partial"] []).toList := by
  have hheader : Node.typeHeader name ["public", "static", "partial"] [] =
      "public static partial class " ++ name := rfl
  rw [hheader]
  exact (IsPlain.append (.of_all (by decide)) h).opens (opensLine_append (by decide) _)

theorem length_lines_toNode {name : String} (h : IsPlain name) (url : String)
    (constants : List (String × String)) (classes : List LinkClass) (depth : Nat) :
    ((mk name url constants classes).toNode.lines depth).length =
      4 + constantLines (depth + 1) url +
        (constantsLines (depth + 1) constants + classesLines (depth + 1) classes) := by
  have hmark := length_lines_emit_of_opens generatedMark
    ((IsPlain.of_all (by decide)).opens (by decide)) depth
  have hheader := length_lines_emit_of_opens _ (opens_typeHeader h) depth
  have hopen := length_lines_emit_of_opens "\x7b"
    ((IsPlain.of_all (by decide)).opens (by decide)) depth
  have hclose := length_lines_emit_of_opens "\x7d"
    ((IsPlain.of_all (by decide)).opens (by decide)) depth
  have hmembers : (((((urlMember, url) :: constants).map fun c => Node.raw (constantText c)) ++
      toNodes classes).flatMap (·.lines (depth + 1))).length = constantLines (depth + 1) url +
        (constantsLines (depth + 1) constants + classesLines (depth + 1) classes) := by
    rw [toNodes_eq, List.flatMap_append, List.length_append, List.flatMap_map, List.flatMap_map,
      List.flatMap_cons, List.length_append, Nat.add_assoc, constantLines, constantsLines,
      classesLines]
  rw [toNode, Node.lines_type]
  simp only [List.length_append, List.flatMap_cons, List.flatMap_nil, List.append_nil, hmark,
    hheader, hopen, hclose, hmembers]
  omega

end LinkClass

namespace StaticFiles

open LinkClass (constantLines constantsLines classesLines)

mutual

def lineCount (excluded : List String) (depth : Nat) (relative : String) : FileTree → Nat
  | .file _ => 4 + constantLines (depth + 1) (directoryUrl relative)
  | .directory entries =>
    4 + constantLines (depth + 1) (directoryUrl relative) +
      entryLines excluded (depth + 1) relative entries

def entryLines (excluded : List String) (depth : Nat) (relative : String) :
    List (String × FileTree) → Nat
  | [] => 0
  | (name, entry) :: rest =>
    (if entry.isDirectory then
      if isHidden name then 0 else lineCount excluded depth (below relative name) entry
    else if isExcluded excluded name then 0
    else constantLines depth ("~/" ++ below relative name)) +
      entryLines excluded depth relative rest

end

variable {excluded : List String}

theorem constantsLines_cons {name : String} (h : IsPlain name) (depth : Nat) (url : String)
    (rest : List (String × String)) :
    constantsLines depth ((name, url) :: rest) =
      constantLines depth url + constantsLines depth rest := by
  rw [constantsLines, List.flatMap_cons, List.length_append, LinkClass.length_lines_constant h,
    ← constantsLines]

theorem classesLines_cons (depth : Nat) (c : LinkClass) (rest : List LinkClass) :
    classesLines depth (c :: rest) =
      (c.toNode.lines depth).length + classesLines depth rest := by
  rw [classesLines, List.flatMap_cons, List.length_append, ← classesLines]

mutual

theorem length_lines_linkClass {name : String} (h : IsPlain name) (depth : Nat)
    (relative : String) (d : FileTree) :
    ((linkClass excluded name relative d).toNode.lines depth).length =
      lineCount excluded depth relative d := by
  cases d with
  | file content =>
      rw [linkClass, LinkClass.length_lines_toNode h, lineCount]
      exact Nat.add_zero _
  | directory entries =>
      rw [linkClass, LinkClass.length_lines_toNode h, lineCount,
        length_lines_entries (depth + 1) relative _ _ entries]

theorem length_lines_entries (depth : Nat) (relative : String) (taken taken' : List String)
    (entries : List (String × FileTree)) :
    constantsLines depth (constants excluded relative taken entries).1 +
        classesLines depth (linkClasses excluded relative taken' entries) =
      entryLines excluded depth relative entries := by
  match entries with
  | [] => rw [constants, linkClasses, entryLines, constantsLines, classesLines]; rfl
  | (name, entry) :: rest =>
      rw [constants_cons, linkClasses, entryLines]
      cases hdirectory : entry.isDirectory with
      | true =>
          rw [Bool.true_or, if_pos rfl, if_pos rfl, Bool.true_and]
          cases hhidden : isHidden name with
          | true =>
              rw [Bool.not_true, if_neg Bool.false_ne_true, if_pos rfl, Nat.zero_add]
              exact length_lines_entries depth relative taken taken' rest
          | false =>
              have hentry := length_lines_linkClass (isPlain_identifier taken' name) depth
                (below relative name) entry
              rw [Bool.not_false, if_pos rfl, if_neg Bool.false_ne_true, classesLines_cons, hentry,
                Nat.add_left_comm, length_lines_entries depth relative taken _ rest]
      | false =>
          rw [Bool.false_or, Bool.false_and, if_neg Bool.false_ne_true, if_neg Bool.false_ne_true]
          cases hexcluded : isExcluded excluded name with
          | true =>
              rw [if_pos rfl, if_pos rfl, Nat.zero_add]
              exact length_lines_entries depth relative taken taken' rest
          | false =>
              rw [if_neg Bool.false_ne_true, if_neg Bool.false_ne_true]
              dsimp only
              rw [constantsLines_cons (isPlain_identifier taken name), Nat.add_assoc,
                length_lines_entries depth relative _ taken' rest]

end

/-! ### A file that is new -/

open FileTree (byName)

theorem entryLines_cons (depth : Nat) (relative : String) (entry : String × FileTree)
    (rest : List (String × FileTree)) :
    entryLines excluded depth relative (entry :: rest) =
      entryLines excluded depth relative [entry] + entryLines excluded depth relative rest := by
  obtain ⟨name, d⟩ := entry
  rw [entryLines, entryLines, entryLines, Nat.add_zero]

theorem entryLines_perm {es es' : List (String × FileTree)} (h : es.Perm es') (depth : Nat)
    (relative : String) :
    entryLines excluded depth relative es = entryLines excluded depth relative es' := by
  induction h with
  | nil => rfl
  | cons entry _ ih => rw [entryLines_cons, ih, ← entryLines_cons]
  | swap first second rest =>
      rw [entryLines_cons, entryLines_cons _ _ first, Nat.add_left_comm, ← entryLines_cons,
        ← entryLines_cons]
  | trans _ _ ih ih' => exact ih.trans ih'

theorem entryLines_directory {name : String} {entry : FileTree} (h : entry.isDirectory = true)
    (hvisible : isHidden name = false) (depth : Nat) (relative : String) :
    entryLines excluded depth relative [(name, entry)] =
      lineCount excluded depth (below relative name) entry := by
  rw [entryLines, entryLines, h, hvisible, if_pos rfl, if_neg Bool.false_ne_true, Nat.add_zero]

theorem entryLines_file {name : String} (h : isExcluded excluded name = false) (content : Bytes)
    (depth : Nat) (relative : String) :
    entryLines excluded depth relative [(name, .file content)] =
      constantLines depth ("~/" ++ below relative name) := by
  rw [entryLines, entryLines, FileTree.isDirectory, h, if_neg Bool.false_ne_true,
    if_neg Bool.false_ne_true, Nat.add_zero]

mutual

theorem lineCount_sorted (depth : Nat) (relative : String) (d : FileTree) :
    lineCount excluded depth relative d.sorted = lineCount excluded depth relative d := by
  cases d with
  | file content => rfl
  | directory es =>
      rw [FileTree.sorted, lineCount, lineCount, entryLines_perm (sortBy_perm _ _),
        entryLines_sortedEntries (depth + 1) relative es]

theorem entryLines_sortedEntries (depth : Nat) (relative : String)
    (es : List (String × FileTree)) :
    entryLines excluded depth relative (FileTree.sortedEntries es) =
      entryLines excluded depth relative es := by
  match es with
  | [] => rfl
  | (name, entry) :: rest =>
      rw [FileTree.sortedEntries, entryLines, entryLines, FileTree.isDirectory_sorted,
        lineCount_sorted depth _ entry, entryLines_sortedEntries depth relative rest]

end

theorem entryLines_lt_upsert {change : Option FileTree → FileTree} {key : String} {x : FileTree}
    {depth : Nat} {relative : String}
    (h : entryLines excluded depth relative [(key, x)] <
      entryLines excluded depth relative [(key, change (some x))])
    {es : List (String × FileTree)} (hx : es.lookup key = some x) :
    entryLines excluded depth relative es <
      entryLines excluded depth relative (upsert key change es) := by
  induction es with
  | nil => cases hx
  | cons entry rest ih =>
      obtain ⟨k, y⟩ := entry
      rw [List.lookup_cons] at hx
      rw [upsert]
      by_cases hfirst : k = key
      · subst hfirst
        rw [beq_self_eq_true] at hx
        cases hx
        rw [beq_self_eq_true, if_pos rfl, entryLines_cons, entryLines_cons _ _ (k, change _)]
        exact Nat.add_lt_add_right h _
      · rw [beq_false_of_ne (Ne.symm hfirst)] at hx
        rw [beq_false_of_ne hfirst, if_neg Bool.false_ne_true, entryLines_cons,
          entryLines_cons _ _ (k, y) (upsert _ _ _)]
        exact Nat.add_lt_add_left (ih hx) _

/-- A file that is new and listed gives the links more lines. -/
theorem lineCount_lt_put {d : FileTree} {way : Place} {name : String} {content : Bytes}
    (h : d.Addable way name) (hnew : d.get? (way ++ [name]) = none)
    (hlisted : isExcluded excluded name = false) (hway : ∀ m ∈ way, isHidden m = false)
    (depth : Nat) (relative : String) :
    lineCount excluded depth relative d <
      lineCount excluded depth relative (d.put (.file content) (way ++ [name])) := by
  induction h using FileTree.Addable.induct generalizing depth relative with
  | new es h hnone =>
      rw [List.nil_append, FileTree.put_directory_singleton, upsert_of_lookup_eq_none hnone,
        lineCount, lineCount, entryLines_perm (List.perm_append_singleton _ _), entryLines_cons,
        entryLines_file hlisted]
      have hpos := LinkClass.constantLines_pos (depth + 1) ("~/" ++ below relative name)
      omega
  | present es old h hentry =>
      rw [List.nil_append, FileTree.get?_directory_cons, hentry] at hnew
      cases hnew
  | below es step rest inner h hinner hentry ih =>
      rw [List.cons_append, FileTree.get?_directory_cons, hentry] at hnew
      rw [List.cons_append, FileTree.put_directory_cons, lineCount, lineCount]
      refine Nat.add_lt_add_left (entryLines_lt_upsert ?_ hentry) _
      have hmore := ih hnew (fun m hm => hway m (List.mem_cons_of_mem _ hm)) (depth + 1)
        (below relative step)
      have hvisible := hway step List.mem_cons_self
      have hdirectory : ((FileTree.directory inner).put (.file content)
          (rest ++ [name])).isDirectory = true := FileTree.isDirectory_put (by simp)
      rw [entryLines_directory rfl hvisible, Option.getD_some,
        entryLines_directory hdirectory hvisible]
      exact hmore

theorem exists_node?_of_directory? {t d : FileTree} {s : Settings} {projectRoot : String}
    (hlinks : s.linksStaticFiles = true)
    (h : t.directory? (Path.join projectRoot s.staticFilesPath) = some d) :
    ∃ node, node? t s projectRoot = some node ∧ (node.lines 0).length =
      ((Node.scope s.linksNamespace [] []).lines 0).length +
        lineCount s.excludedExtensions 1 "" d := by
  have hnode : node? t s projectRoot = some (.scope s.linksNamespace []
      [(linkClass s.excludedExtensions (Identifier.ofName
        (rootName (Path.join projectRoot s.staticFilesPath))) "" d.sorted).toNode]) := by
    simp only [node?, links?, hlinks, h, Bool.not_true, Bool.false_eq_true, if_false,
      Option.map_some]
  refine ⟨_, hnode, ?_⟩
  rw [Node.lines_scope, Node.lines_scope]
  simp only [List.length_append, List.flatMap_cons, List.flatMap_nil, List.append_nil,
    length_lines_linkClass (.ofName _), lineCount_sorted, Nat.zero_add]
  omega

theorem exists_node?_put {t : FileTree} {s : Settings} {projectRoot : String} {place : Place}
    {name : String} {content : Bytes} (h : t.Addable place name)
    (hnew : t.get? (place ++ [name]) = none) (hlists : Lists t s projectRoot (place ++ [name])) :
    ∃ node node', node? t s projectRoot = some node ∧
      node? (t.put (.file content) (place ++ [name])) s projectRoot = some node' ∧
        (node.lines 0).length < (node'.lines 0).length := by
  obtain ⟨hlinks, root, way, last, hfind, hplace, hlisted, hvisible⟩ := hlists
  obtain ⟨rfl, hname⟩ := List.append_inj' hplace rfl
  obtain rfl : name = last := (List.cons.inj hname).1
  have hroot : t.hasDirectory root = true := FileTree.hasDirectory_of_append h.around
  obtain ⟨es, hes⟩ := FileTree.hasDirectory_iff.mp hroot
  have hbefore : t.directory? (Path.join projectRoot s.staticFilesPath) = some (.directory es) :=
    FileTree.directory?_eq_some_iff.mpr ⟨root, hfind, hroot, hes⟩
  have hafter : (t.put (.file content) (root ++ way ++ [name])).directory?
      (Path.join projectRoot s.staticFilesPath) =
        some ((FileTree.directory es).put (.file content) (way ++ [name])) := by
    rw [FileTree.directory?_eq, FileTree.find?, FileTree.filter_walk?_congr h.hasDirectory_put,
      ← FileTree.find?, hfind, Option.filter_some, hroot, if_pos rfl, Option.bind_some,
      List.append_assoc, FileTree.get?_put_append hes]
  rw [List.append_assoc, FileTree.get?_append, hes] at hnew
  have hlt : lineCount s.excludedExtensions 1 "" (.directory es) <
      lineCount s.excludedExtensions 1 ""
        ((FileTree.directory es).put (.file content) (way ++ [name])) :=
    lineCount_lt_put (h.within hes) hnew hlisted hvisible 1 ""
  obtain ⟨node, hnode, hlines⟩ := exists_node?_of_directory? hlinks hbefore
  obtain ⟨node', hnode', hlines'⟩ := exists_node?_of_directory? hlinks hafter
  exact ⟨node, node', hnode, hnode', by rw [hlines, hlines']; exact Nat.add_lt_add_left hlt _⟩

end StaticFiles

theorem length_kept_aggregateUnit (s : Settings) (members : List Node) (staticLinks : Node)
    (fields : List String) :
    (Layout.kept (aggregateUnit s members (some staticLinks) fields).finish.toList).length =
      (Layout.kept (aggregateUnit s members none fields).finish.toList).length +
        (staticLinks.lines 0).length := by
  rw [CompilationUnit.kept_finish_eq, CompilationUnit.kept_finish_eq]
  show (Emitter.lines (unitOf s []).writeOpening 0 ++
      List.flatMap _ (members ++ [staticLinks] ++ _)).length =
    (Emitter.lines (unitOf s []).writeOpening 0 ++ List.flatMap _ (members ++ [] ++ _)).length + _
  simp only [List.flatMap_append, List.length_append, List.flatMap_cons, List.flatMap_nil,
    List.append_nil]
  omega

end RouteLinks
