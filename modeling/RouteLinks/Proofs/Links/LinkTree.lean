import RouteLinks.Proofs.Files.Walk
import RouteLinks.Proofs.Links.Listing
import RouteLinks.Proofs.Text.Identifier
/-!
# The tree of links

The links to static files are classes in classes, one for each directory that is reached without a
hidden one on the way. The classes and the directories are in step: each class has the address of
its directory, a constant for each file of it that is listed and a class for each directory in it
that is not hidden. All members of a class have names of their own, which are identifiers, whatever
the names of the entries look like.
-/

namespace RouteLinks

namespace LinkClass

def name : LinkClass → String
  | .mk name _ _ _ => name

def url : LinkClass → String
  | .mk _ url _ _ => url

def constants : LinkClass → List (String × String)
  | .mk _ _ constants _ => constants

def classes : LinkClass → List LinkClass
  | .mk _ _ _ classes => classes

/-- The names of the members of a class, but for that of its own address. -/
def members (c : LinkClass) : List String := c.constants.map Prod.fst ++ c.classes.map name

mutual

def all : LinkClass → List LinkClass
  | .mk name url constants classes => .mk name url constants classes :: allOf classes

def allOf : List LinkClass → List LinkClass
  | [] => []
  | c :: rest => c.all ++ allOf rest

end

/-- Every member of a class has a name of its own that can be used, and none has that of the class
or that of its address. -/
structure IsUnambiguous (c : LinkClass) : Prop where
  members_nodup : c.members.Nodup
  name_not_mem : c.name ∉ c.members
  urlMember_not_mem : urlMember ∉ c.members
  isUsable : ∀ member ∈ c.members, Identifier.IsUsable member

end LinkClass

namespace StaticFiles

open LinkClass (urlMember allOf)

variable {excluded : List String} {relative name member : String} {taken members : List String}
  {es : List (String × FileTree)}

/-! ### Free names -/

def countAsLong (taken : List String) (name : String) : Nat :=
  taken.countP fun other => decide (name.length ≤ other.length)

/-- A name that is taken is not as long as itself with an underscore. -/
theorem countAsLong_append_lt (h : name ∈ taken) :
    countAsLong taken (name ++ "_") < countAsLong taken name := by
  have hlength : (name ++ "_").length = name.length + 1 := String.length_append name "_"
  have hmono : ∀ others, countAsLong others (name ++ "_") ≤ countAsLong others name := by
    intro others
    refine List.countP_mono_left fun other _ hother => ?_
    have := of_decide_eq_true hother
    exact decide_eq_true (by omega)
  obtain ⟨before, after, rfl⟩ := List.append_of_mem h
  have hbefore := hmono before
  have hafter := hmono after
  simp only [countAsLong, List.countP_append, List.countP_cons, hlength] at hbefore hafter ⊢
  simp only [Nat.not_succ_le_self, Nat.le_refl, decide_false, decide_true, Bool.false_eq_true,
    if_false, if_true]
  omega

/-- A name comes free at the latest when no name that is taken is as long. -/
theorem freeName_not_mem {fuel : Nat} (h : countAsLong taken name ≤ fuel) :
    freeName taken name fuel ∉ taken := by
  induction fuel generalizing name with
  | zero =>
      intro hmem
      have hpos : 0 < countAsLong taken name :=
        List.countP_pos_iff.mpr ⟨name, hmem, decide_eq_true (Nat.le_refl _)⟩
      omega
  | succ fuel ih =>
      rw [freeName]
      split
      · next htaken =>
        have hless := countAsLong_append_lt (List.contains_iff_mem.mp htaken)
        exact ih (by omega)
      · next hfree => exact fun hmem => hfree (List.contains_iff_mem.mpr hmem)

theorem identifier_not_mem (taken : List String) (name : String) :
    identifier taken name ∉ taken := freeName_not_mem List.countP_le_length

theorem isUsable_freeName (h : Identifier.IsUsable name) (taken : List String) (fuel : Nat) :
    Identifier.IsUsable (freeName taken name fuel) := by
  induction fuel generalizing name with
  | zero => exact h
  | succ fuel ih =>
      rw [freeName]
      split
      · exact ih h.append_underscore
      · exact h

/-- Names that are chosen one after the other, each of them free where it is chosen. -/
inductive Chosen : List String → List String → Prop
  | nil {taken : List String} : Chosen taken []
  | cons {taken : List String} {member : String} {rest : List String} (free : member ∉ taken)
      (usable : Identifier.IsUsable member) (others : Chosen (member :: taken) rest) :
      Chosen taken (member :: rest)

theorem chosen_identifier (h : Chosen (identifier taken name :: taken) members) :
    Chosen taken (identifier taken name :: members) :=
  .cons (identifier_not_mem taken name) (isUsable_freeName (Identifier.isUsable_ofName name) _ _) h

namespace Chosen

theorem isUsable (h : Chosen taken members) : ∀ member ∈ members, Identifier.IsUsable member := by
  induction h with
  | nil => exact List.forall_mem_nil _
  | cons _ usable _ ih => exact List.forall_mem_cons.mpr ⟨usable, ih⟩

theorem not_mem (h : Chosen taken members) (hmem : member ∈ members) : member ∉ taken := by
  induction h with
  | nil => cases hmem
  | cons free _ _ ih =>
      rcases List.mem_cons.mp hmem with rfl | hmem
      · exact free
      · exact fun htaken => ih hmem (List.mem_cons_of_mem _ htaken)

theorem nodup (h : Chosen taken members) : members.Nodup := by
  induction h with
  | nil => exact List.nodup_nil
  | cons _ _ hrest ih =>
      exact List.nodup_cons.mpr ⟨fun hmem => hrest.not_mem hmem List.mem_cons_self, ih⟩

theorem append {more : List String} (h : Chosen taken members)
    (hmore : Chosen (members.reverse ++ taken) more) : Chosen taken (members ++ more) := by
  induction h with
  | nil => exact hmore
  | cons free usable _ ih =>
      refine .cons free usable (ih ?_)
      rwa [List.reverse_cons, List.append_assoc] at hmore

end Chosen

/-! ### The entries of a directory -/

def listedFiles (excluded : List String) (es : List (String × FileTree)) : List String :=
  (es.filter fun e => !(e.2.isDirectory || isExcluded excluded e.1)).map Prod.fst

def shownDirectories (es : List (String × FileTree)) : List (String × FileTree) :=
  es.filter fun e => e.2.isDirectory && !isHidden e.1

theorem map_snd_constants : (constants excluded relative taken es).1.map Prod.snd =
    (listedFiles excluded es).map fun name => "~/" ++ below relative name := by
  induction es generalizing taken with
  | nil => rfl
  | cons entry rest ih =>
      rw [constants_cons, listedFiles, List.filter_cons]
      cases entry.2.isDirectory || isExcluded excluded entry.1 with
      | true => exact ih
      | false => exact congrArg (_ :: ·) ih

theorem chosen_constants :
    Chosen taken ((constants excluded relative taken es).1.map Prod.fst) := by
  induction es generalizing taken with
  | nil => exact .nil
  | cons entry rest ih =>
      rw [constants_cons]
      split
      · exact ih
      · exact chosen_identifier ih

theorem snd_constants : (constants excluded relative taken es).2 =
    ((constants excluded relative taken es).1.map Prod.fst).reverse ++ taken := by
  induction es generalizing taken with
  | nil => rfl
  | cons entry rest ih =>
      rw [constants_cons]
      split
      · exact ih
      · simp [ih]

theorem name_linkClass (excluded : List String) (className relative : String) (d : FileTree) :
    (linkClass excluded className relative d).name = className := by
  cases d <;> rfl

theorem forall₂_linkClasses :
    List.Forall₂ (fun e c => c = linkClass excluded c.name (below relative e.1) e.2)
      (shownDirectories es) (linkClasses excluded relative taken es) := by
  induction es generalizing taken with
  | nil => exact .nil
  | cons entry rest ih =>
      obtain ⟨name, entry⟩ := entry
      rw [linkClasses, shownDirectories, List.filter_cons]
      split
      · exact .cons (by rw [name_linkClass]) ih
      · exact ih

theorem chosen_linkClasses :
    Chosen taken ((linkClasses excluded relative taken es).map LinkClass.name) := by
  induction es generalizing taken with
  | nil => exact .nil
  | cons entry rest ih =>
      obtain ⟨name, entry⟩ := entry
      rw [linkClasses]
      split
      · rw [List.map_cons, name_linkClass]
        exact chosen_identifier ih
      · exact ih

/-- The names of a class are chosen in two passes, the second of which knows those of the first. -/
theorem isUnambiguous_linkClass (excluded : List String) (className relative : String)
    (es : List (String × FileTree)) :
    (linkClass excluded className relative (.directory es)).IsUnambiguous := by
  have hchosen : Chosen [className, urlMember]
      (linkClass excluded className relative (.directory es)).members := by
    refine chosen_constants.append ?_
    rw [← snd_constants]
    exact chosen_linkClasses
  exact
    { members_nodup := hchosen.nodup
      name_not_mem := fun hmem => hchosen.not_mem hmem (by simp [name_linkClass])
      urlMember_not_mem := fun hmem => hchosen.not_mem hmem (by simp)
      isUsable := hchosen.isUsable }

/-! ### Classes and directories in step -/

def shows (name : String) : Bool := !isHidden name

theorem below_intercalate {place : Place} (hplace : ∀ n ∈ place, Path.IsName n) (name : String) :
    below ("/".intercalate place) name = "/".intercalate (place ++ [name]) := by
  by_cases hnone : place = []
  · subst hnone
    simp [below]
  · have hsome : ("/".intercalate place).isEmpty = false := by
      rw [← Bool.not_eq_true, String.isEmpty_iff]
      exact mt (Path.intercalate_inj hplace (List.forall_mem_nil _)).mp hnone
    rw [below, hsome, String.intercalate_append_of_ne_nil hnone (List.cons_ne_nil _ _),
      String.intercalate_singleton]
    rfl

/-- What a class says of a directory that is visited. -/
structure Describes (excluded : List String) (visit : Place × List (String × FileTree))
    (c : LinkClass) : Prop where
  url : c.url = directoryUrl ("/".intercalate visit.1)
  files : c.constants.map Prod.snd =
    (listedFiles excluded visit.2).map fun name => "~/" ++ "/".intercalate (visit.1 ++ [name])
  directories : c.classes.map LinkClass.url =
    (shownDirectories visit.2).map fun e => directoryUrl ("/".intercalate (visit.1 ++ [e.1]))
  unambiguous : c.IsUnambiguous

theorem url_linkClass (excluded : List String) (className relative : String) (d : FileTree) :
    (linkClass excluded className relative d).url = directoryUrl relative := by
  cases d <;> rfl

theorem describes_linkClass {place : Place} (hplace : ∀ n ∈ place, Path.IsName n)
    (excluded : List String) (className : String) (es : List (String × FileTree)) :
    Describes excluded (place, es)
      (linkClass excluded className ("/".intercalate place) (.directory es)) where
  url := rfl
  files := map_snd_constants.trans <| List.map_congr_left fun name _ => by
    rw [below_intercalate hplace]
  directories := by
    refine map_eq_of_forall₂ forall₂_linkClasses fun e c hc => ?_
    rw [hc, url_linkClass, below_intercalate hplace]
  unambiguous := isUnambiguous_linkClass excluded className _ es

theorem forall₂_all_linkClass {d : FileTree} (h : d.IsNamed) (hd : d.isDirectory = true)
    {place : Place} (hplace : ∀ n ∈ place, Path.IsName n) (className : String) :
    List.Forall₂ (Describes excluded) (d.visited shows place)
      (linkClass excluded className ("/".intercalate place) d).all := by
  induction h generalizing place className with
  | file content => cases hd
  | @directory es names entries ih =>
      have hbelow : ∀ (rest : List (String × FileTree)) (taken : List String), rest ⊆ es →
          List.Forall₂ (Describes excluded) (FileTree.visitedBelow shows place rest)
            (allOf (linkClasses excluded ("/".intercalate place) taken rest)) := by
        intro rest
        induction rest with
        | nil => exact fun _ _ => .nil
        | cons entry rest ihrest =>
            obtain ⟨name, entry⟩ := entry
            intro taken hentries
            obtain ⟨he, hrest⟩ := List.cons_subset.mp hentries
            rw [FileTree.visitedBelow, linkClasses, shows]
            cases hhidden : isHidden name with
            | true =>
                rw [Bool.not_true, Bool.and_false]
                exact ihrest taken hrest
            | false =>
                rw [Bool.not_false, Bool.and_true, if_pos rfl]
                cases hentry : entry.isDirectory with
                | false =>
                    cases entry with
                    | file content => exact ihrest taken hrest
                    | directory _ => cases hentry
                | true =>
                    rw [if_pos rfl, below_intercalate hplace]
                    refine List.rel_append (ih _ he hentry ?_ _) (ihrest _ hrest)
                    exact List.forall_mem_append.mpr
                      ⟨hplace, List.forall_mem_singleton.mpr (names _ he)⟩
      exact .cons (describes_linkClass hplace excluded className es)
        (hbelow es _ (List.Subset.refl es))

/-! ### Links and files -/

/-- A file that has a link: no directory on the way to it is hidden, and its extension is not
excluded. -/
def IsListed (excluded : List String) (d : FileTree) (file : Place) : Prop :=
  ∃ way name, file = way ++ [name] ∧ (∃ content, d.get? file = some (.file content)) ∧
    (∀ step ∈ way, isHidden step = false) ∧ isExcluded excluded name = false

/-- A directory that has a class: neither it nor one on the way to it is hidden. -/
def IsShown (d : FileTree) (place : Place) : Prop :=
  d.hasDirectory place = true ∧ ∀ step ∈ place, isHidden step = false

/-- What a class says of the directory at a place: its address, those of the files in it that are
listed and, by their own classes, those of the directories in it. -/
structure Represents (excluded : List String) (d : FileTree) (place : Place) (c : LinkClass) :
    Prop where
  url : c.url = directoryUrl ("/".intercalate place)
  files : ∃ names : List String, names.Nodup ∧
    (∀ name, name ∈ names ↔ (∃ content, d.get? (place ++ [name]) = some (.file content)) ∧
      isExcluded excluded name = false) ∧
    c.constants.map Prod.snd = names.map fun name => "~/" ++ "/".intercalate (place ++ [name])
  directories : ∃ names : List String, names.Nodup ∧
    (∀ name, name ∈ names ↔ d.hasDirectory (place ++ [name]) = true ∧ isHidden name = false) ∧
    c.classes.map LinkClass.url =
      names.map fun name => directoryUrl ("/".intercalate (place ++ [name]))
  unambiguous : c.IsUnambiguous
  written : c.toNode = .type c.name ["public", "static", "partial"] [] [generatedMark]
    (((urlMember, c.url) :: c.constants).map (fun constant => Node.raw
      ("public const string " ++ constant.1 ++ " = " ++ Quoted.regular constant.2 ++ ";")) ++
      c.classes.map LinkClass.toNode)

/-- The classes of links to a directory: one for each directory that is shown, and in them one
constant for each file that is listed. -/
structure LinksTo (excluded : List String) (d : FileTree) (c : LinkClass) : Prop where
  directories : ∃ places : List Place, places.Nodup ∧ (∀ place, place ∈ places ↔ IsShown d place) ∧
    List.Forall₂ (Represents excluded d) places c.all
  files : ∃ files : List Place, files.Nodup ∧ (∀ file, file ∈ files ↔ IsListed excluded d file) ∧
    (c.all.flatMap LinkClass.constants).map Prod.snd =
      files.map fun file => "~/" ++ "/".intercalate file

theorem mem_listedFiles_iff : name ∈ listedFiles excluded es ↔
    (∃ content, (name, .file content) ∈ es) ∧ isExcluded excluded name = false := by
  simp only [listedFiles, List.mem_map, List.mem_filter]
  constructor
  · rintro ⟨⟨_, content | inner⟩, ⟨he, hlisted⟩, rfl⟩
    · exact ⟨⟨content, he⟩, by simpa [FileTree.isDirectory] using hlisted⟩
    · cases hlisted
  · rintro ⟨⟨content, he⟩, hexcluded⟩
    exact ⟨_, ⟨he, by simp [FileTree.isDirectory, hexcluded]⟩, rfl⟩

theorem mem_shownDirectories_iff : name ∈ (shownDirectories es).map Prod.fst ↔
    (∃ inner, (name, .directory inner) ∈ es) ∧ isHidden name = false := by
  simp only [shownDirectories, List.mem_map, List.mem_filter]
  constructor
  · rintro ⟨⟨_, content | inner⟩, ⟨he, hshown⟩, rfl⟩
    · cases hshown
    · exact ⟨⟨inner, he⟩, by simpa [FileTree.isDirectory] using hshown⟩
  · rintro ⟨⟨inner, he⟩, hhidden⟩
    exact ⟨_, ⟨he, by simp [FileTree.isDirectory, hhidden]⟩, rfl⟩

theorem toNode_eq (c : LinkClass) :
    c.toNode = .type c.name ["public", "static", "partial"] [] [generatedMark]
      (((urlMember, c.url) :: c.constants).map (fun constant => Node.raw
        ("public const string " ++ constant.1 ++ " = " ++ Quoted.regular constant.2 ++ ";")) ++
        c.classes.map LinkClass.toNode) := by
  obtain ⟨name, url, constants, classes⟩ := c
  rw [LinkClass.toNode, LinkClass.toNodes_eq]
  rfl

variable {d listed : FileTree}

/-- What a class says of a visit holds of the tree, in whatever order it is listed. -/
theorem Describes.represents {place : Place} {c : LinkClass}
    (h : Describes excluded (place, es) c) (honce : d.NamesOnce) (hlisted : d.Relisted listed)
    (hes : listed.get? place = some (.directory es)) : Represents excluded d place c := by
  have honce' : listed.NamesOnce := hlisted.namesOnce honce
  have hnames : (es.map Prod.fst).Nodup := by
    cases honce'.of_get? hes with
    | directory names _ => exact names
  constructor
  case url => exact h.url
  case files =>
    refine ⟨_, hnames.sublist (List.filter_sublist.map Prod.fst), fun name => ?_, h.files⟩
    rw [← listedFiles, mem_listedFiles_iff]
    simp only [FileTree.mem_entries_iff honce' hes, hlisted.get?_eq_file_iff honce]
  case directories =>
    refine ⟨(shownDirectories es).map Prod.fst,
      hnames.sublist (List.filter_sublist.map Prod.fst), fun name => ?_, ?_⟩
    · rw [mem_shownDirectories_iff, ← hlisted.hasDirectory_eq honce, FileTree.hasDirectory_iff]
      simp only [FileTree.mem_entries_iff honce' hes]
    · rw [List.map_map]
      exact h.directories
  case unambiguous => exact h.unambiguous
  case written => exact toNode_eq c

theorem mem_visited_shows_iff (h : d.NamesOnce) {place : Place} :
    (place, es) ∈ d.visited shows [] ↔
      d.get? place = some (.directory es) ∧ ∀ step ∈ place, isHidden step = false := by
  simp [FileTree.mem_visited_iff h, shows]

theorem linksTo_linkClass (hnamed : d.IsNamed) (honce : d.NamesOnce) (hd : d.isDirectory = true)
    (hlisted : d.Relisted listed) (className : String) :
    LinksTo excluded d (linkClass excluded className "" listed) := by
  have honce' : listed.NamesOnce := hlisted.namesOnce honce
  have hlisted' : listed.isDirectory = true := (hlisted.hasDirectory_eq honce []).trans hd
  have hstep : List.Forall₂ (Describes excluded) (listed.visited shows [])
      (linkClass excluded className "" listed).all :=
    forall₂_all_linkClass (hlisted.isNamed hnamed) hlisted' (List.forall_mem_nil _) className
  constructor
  case directories =>
    refine ⟨(listed.visited shows []).map Prod.fst, FileTree.nodup_visited honce' [], ?_, ?_⟩
    · intro place
      rw [IsShown, ← hlisted.hasDirectory_eq honce, FileTree.hasDirectory_iff, List.mem_map]
      constructor
      · rintro ⟨⟨_, es⟩, hvisit, rfl⟩
        obtain ⟨hes, hplace⟩ := (mem_visited_shows_iff honce').mp hvisit
        exact ⟨⟨es, hes⟩, hplace⟩
      · rintro ⟨⟨es, hes⟩, hplace⟩
        exact ⟨(place, es), (mem_visited_shows_iff honce').mpr ⟨hes, hplace⟩, rfl⟩
    · rw [List.forall₂_map_left_iff]
      have hvisits : ∀ visit ∈ listed.visited shows [],
          listed.get? visit.1 = some (.directory visit.2) :=
        fun visit hvisit => ((mem_visited_shows_iff honce').mp hvisit).1
      exact ((List.forall₂_and_left _ _).mpr ⟨hvisits, hstep⟩).imp fun visit c hc =>
        hc.2.represents honce hlisted hc.1
  case files =>
    refine ⟨(listed.visited shows []).flatMap fun visit =>
      (listedFiles excluded visit.2).map fun name => visit.1 ++ [name], ?_, ?_, ?_⟩
    · exact FileTree.nodup_flatMap_visited honce' [] fun es hes =>
        hes.sublist (List.filter_sublist.map Prod.fst)
    · intro file
      simp only [List.mem_flatMap, List.mem_map]
      constructor
      · rintro ⟨⟨way, es⟩, hvisit, name, hname, rfl⟩
        obtain ⟨hes, hway⟩ := (mem_visited_shows_iff honce').mp hvisit
        obtain ⟨⟨content, he⟩, hexcluded⟩ := mem_listedFiles_iff.mp hname
        have hget := (FileTree.mem_entries_iff honce' hes).mp he
        exact ⟨way, name, rfl, ⟨content, (hlisted.get?_eq_file_iff honce).mp hget⟩, hway,
          hexcluded⟩
      · rintro ⟨way, name, rfl, ⟨content, hget⟩, hway, hexcluded⟩
        obtain ⟨es, hes, he⟩ := (FileTree.get?_concat_eq_some_iff honce').mp
          ((hlisted.get?_eq_file_iff honce).mpr hget)
        exact ⟨(way, es), (mem_visited_shows_iff honce').mpr ⟨hes, hway⟩, name,
          mem_listedFiles_iff.mpr ⟨⟨content, he⟩, hexcluded⟩, rfl⟩
    · rw [List.map_flatMap, List.map_flatMap]
      refine flatMap_eq_of_forall₂ hstep fun visit c hc => ?_
      rw [hc.files, List.map_map]
      rfl

/-- The links to the static files of a project are complete, and no name in them is taken twice. -/
theorem exists_linksTo (t : FileTree) (s : Settings) (projectRoot : String)
    (hlinks : s.linksStaticFiles = true)
    (hroot : t.directory? (Path.join projectRoot s.staticFilesPath) = some d)
    (hnamed : d.IsNamed) (honce : d.NamesOnce) :
    ∃ c, links? t s projectRoot = some c ∧
      node? t s projectRoot = some (.scope s.linksNamespace [] [c.toNode]) ∧
      LinksTo s.excludedExtensions d c := by
  have hd : d.isDirectory = true := (Option.filter_eq_some_iff.mp hroot).2
  have hsome : links? t s projectRoot = some (linkClass s.excludedExtensions
      (Identifier.ofName (rootName (Path.join projectRoot s.staticFilesPath))) "" d.sorted) := by
    simp [links?, hlinks, hroot]
  refine ⟨_, hsome, ?_, linksTo_linkClass hnamed honce hd honce.relisted_sorted _⟩
  rw [node?, hsome]
  rfl

def clashingFiles : FileTree :=
  .directory [("my_lib", .file []), ("my-lib", .directory [("class", .file [])]),
    ("wwwroot", .file []), ("UrlPath", .file []), (".cache", .directory [("old.js", .file [])]),
    ("app.js.map", .file [])]

def clashingProject : FileTree := .directory [("wwwroot", clashingFiles)]

def clashingSettings : Settings := { excludedExtensions := [".map"] }

theorem isNamed_clashingFiles : clashingFiles.IsNamed := by
  refine .directory (by decide) ?_
  simp only [List.forall_mem_cons]
  exact ⟨.file _, .directory (by decide) (List.forall_mem_singleton.mpr (.file _)), .file _,
    .file _, .directory (by decide) (List.forall_mem_singleton.mpr (.file _)), .file _,
    List.forall_mem_nil _⟩

theorem namesOnce_clashingFiles : clashingFiles.NamesOnce := by
  refine .directory (by decide) ?_
  simp only [List.forall_mem_cons]
  exact ⟨.file _, .directory (by decide) (List.forall_mem_singleton.mpr (.file _)), .file _,
    .file _, .directory (by decide) (List.forall_mem_singleton.mpr (.file _)), .file _,
    List.forall_mem_nil _⟩

theorem exists_linksTo_clashing : clashingSettings.linksStaticFiles = true ∧
    clashingProject.directory? (Path.join "" clashingSettings.staticFilesPath) =
      some clashingFiles ∧
    clashingFiles.IsNamed ∧ clashingFiles.NamesOnce ∧
    ∃ c, links? clashingProject clashingSettings "" = some c ∧
      LinksTo clashingSettings.excludedExtensions clashingFiles c ∧
      c.all.map LinkClass.members =
        [["UrlPath_", "my_lib", "wwwroot_", "my_lib_"], ["@class"]] := by
  have hroot : clashingProject.directory? (Path.join "" clashingSettings.staticFilesPath) =
      some clashingFiles := rfl
  obtain ⟨c, hlinks, -, hto⟩ := exists_linksTo clashingProject clashingSettings "" rfl hroot
    isNamed_clashingFiles namesOnce_clashingFiles
  have hmembers : (links? clashingProject clashingSettings "").map
      (fun c => c.all.map LinkClass.members) =
        some [["UrlPath_", "my_lib", "wwwroot_", "my_lib_"], ["@class"]] := by decide +kernel
  rw [hlinks] at hmembers
  exact ⟨rfl, hroot, isNamed_clashingFiles, namesOnce_clashingFiles, c, hlinks, hto,
    Option.some.inj hmembers⟩

end StaticFiles

end RouteLinks
