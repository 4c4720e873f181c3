import RouteLinks.Proofs.Text.Fields
import RouteLinks.Proofs.Text.LowerCase
import RouteLinks.Settings.Lenient
/-!
# Settings, value by value

A mapping is read setting by setting, and each setting is read by the kind of its values. So the
settings that a mapping holds are what is read for each of them, and its problems are those of each,
under its key. What is stored for a value is read again as it is, if the reader of values is
faithful.
-/

namespace RouteLinks

inductive ValueKind where
  | identifier
  | dotted
  | truth
  | text
  | extensions
  deriving DecidableEq

def Setting.kind : Setting → ValueKind
  | .namingPrefix => .identifier
  | .targetNamespace | .linksNamespace => .dotted
  | .splitsFiles | .rewritesSources | .linksStaticFiles => .truth
  | .staticFilesPath => .text
  | .excludedExtensions => .extensions

namespace Setting

theorem mem_all (x : Setting) : x ∈ all := by
  cases x <;> decide

theorem otherKey_injective : Function.Injective otherKey := by
  have hall : ∀ x ∈ all, ∀ y ∈ all, x.otherKey = y.otherKey → x = y := by decide
  exact fun x y h => hall x (mem_all x) y (mem_all y) h

theorem key_injective : Function.Injective key := by
  have hall : ∀ x ∈ all, ∀ y ∈ all, x.key = y.key → x = y := by decide
  exact fun x y h => hall x (mem_all x) y (mem_all y) h

theorem key_ne_otherKey (x y : Setting) : x.key ≠ y.otherKey := by
  have hall : ∀ x ∈ all, ∀ y ∈ all, x.key ≠ y.otherKey := by decide
  exact hall x (mem_all x) y (mem_all y)

end Setting

def ValueKind.read (r : ValueReader) (k : ValueKind) (value : Document) :
    Except (List Fault) Document :=
  match k with
  | .identifier => (Settings.single (Settings.identifier? r) value).map .text
  | .dotted => (Settings.single (Settings.namespace? r) value).map .text
  | .truth => (Settings.single r.truth? value).map .bool
  | .text => (Settings.single r.text? value).map .text
  | .extensions => (Settings.extensions? r value).map fun es => .list (es.map .text)

namespace Settings

variable {r : ValueReader} {entries : List (String × Document)} {s t : Settings}

def find? (r : ValueReader) (entries : List (String × Document)) (x : Setting) :
    Option (String × Document) :=
  r.find? x.key x.otherKey entries

/-- What is stored for a setting, that of a mapping or the default. -/
def readValue (r : ValueReader) (entries : List (String × Document)) (x : Setting) :
    Except (List Problem) Document :=
  match find? r entries x with
  | some (key, value) => (x.kind.read r value).mapError (·.map (Fault.under key))
  | none => .ok (({} : Settings).valueOf x)

/-! ### A mapping is read value by value -/

section

variable {α : Type} {x : Setting} {default : α} {f : α → Document}
  {check : Document → Except (List Fault) α}

theorem readValue_eq_map (hkind : ∀ value, x.kind.read r value = (check value).map f)
    (hdefault : ({} : Settings).valueOf x = f default) :
    readValue r entries x = (read r entries x default check).map f := by
  rw [readValue, find?, read]
  rcases r.find? x.key x.otherKey entries with _ | ⟨key, value⟩
  · exact congrArg Except.ok hdefault
  · simp only [hkind]
    cases check value <;> rfl

theorem problems_map (e : Except (List Problem) α) : problems (e.map f) = problems e := by
  cases e <;> rfl

end

section

variable {ε ε' α β : Type} {e : Except ε α}

theorem map_eq_ok_iff {f : α → β} {b : β} : e.map f = .ok b ↔ ∃ a, e = .ok a ∧ f a = b := by
  cases e <;> simp [Except.map]

theorem map_eq_error_iff {f : α → β} {found : ε} : e.map f = .error found ↔ e = .error found := by
  cases e <;> simp [Except.map]

theorem bind_eq_ok_iff {f : α → Except ε β} {b : β} :
    e.bind f = .ok b ↔ ∃ a, e = .ok a ∧ f a = .ok b := by
  cases e <;> simp [Except.bind]

theorem mapError_eq_ok_iff {f : ε → ε'} {a : α} : e.mapError f = .ok a ↔ e = .ok a := by
  cases e <;> simp [Except.mapError]

end

theorem map_text_injective : Function.Injective (List.map Document.text) :=
  List.map_injective_iff.mpr fun _ _ h => Document.text.inj h

theorem readValue_cases (r : ValueReader) (entries : List (String × Document)) :
    readValue r entries .namingPrefix =
        (read r entries .namingPrefix "MVC" (single (identifier? r))).map .text ∧
      readValue r entries .targetNamespace =
        (read r entries .targetNamespace "LinkForge" (single (namespace? r))).map .text ∧
      readValue r entries .splitsFiles =
        (read r entries .splitsFiles false (single r.truth?)).map .bool ∧
      readValue r entries .rewritesSources =
        (read r entries .rewritesSources true (single r.truth?)).map .bool ∧
      readValue r entries .linksStaticFiles =
        (read r entries .linksStaticFiles true (single r.truth?)).map .bool ∧
      readValue r entries .staticFilesPath =
        (read r entries .staticFilesPath "wwwroot" (single r.text?)).map .text ∧
      readValue r entries .linksNamespace =
        (read r entries .linksNamespace "Links" (single (namespace? r))).map .text ∧
      readValue r entries .excludedExtensions =
        (read r entries .excludedExtensions [] (extensions? r)).map
          fun es => .list (es.map Document.text) := by
  refine ⟨?_, ?_, ?_, ?_, ?_, ?_, ?_, ?_⟩ <;> exact readValue_eq_map (fun _ => rfl) rfl

theorem ofEntries_eq_ok_iff :
    ofEntries r entries = .ok t ↔ ∀ x, readValue r entries x = .ok (t.valueOf x) := by
  obtain ⟨hnaming, htarget, hsplits, hrewrites, hlinks, hpath, hnamespace, hextensions⟩ :=
    readValue_cases r entries
  constructor
  · intro h x
    unfold ofEntries at h
    dsimp only at h
    split at h
    · next h₁ h₂ h₃ h₄ h₅ h₆ h₇ h₈ =>
      cases h
      cases x
      case namingPrefix => rw [hnaming, h₁]; rfl
      case targetNamespace => rw [htarget, h₂]; rfl
      case splitsFiles => rw [hsplits, h₃]; rfl
      case rewritesSources => rw [hrewrites, h₄]; rfl
      case linksStaticFiles => rw [hlinks, h₅]; rfl
      case staticFilesPath => rw [hpath, h₆]; rfl
      case linksNamespace => rw [hnamespace, h₇]; rfl
      case excludedExtensions => rw [hextensions, h₈]; rfl
    · cases h
  · intro h
    obtain ⟨_, h₁, heq₁⟩ := map_eq_ok_iff.mp (hnaming.symm.trans (h _))
    obtain ⟨_, h₂, heq₂⟩ := map_eq_ok_iff.mp (htarget.symm.trans (h _))
    obtain ⟨_, h₃, heq₃⟩ := map_eq_ok_iff.mp (hsplits.symm.trans (h _))
    obtain ⟨_, h₄, heq₄⟩ := map_eq_ok_iff.mp (hrewrites.symm.trans (h _))
    obtain ⟨_, h₅, heq₅⟩ := map_eq_ok_iff.mp (hlinks.symm.trans (h _))
    obtain ⟨_, h₆, heq₆⟩ := map_eq_ok_iff.mp (hpath.symm.trans (h _))
    obtain ⟨_, h₇, heq₇⟩ := map_eq_ok_iff.mp (hnamespace.symm.trans (h _))
    obtain ⟨_, h₈, heq₈⟩ := map_eq_ok_iff.mp (hextensions.symm.trans (h _))
    unfold ofEntries
    dsimp only
    rw [h₁, h₂, h₃, h₄, h₅, h₆, h₇, h₈, Document.text.inj heq₁, Document.text.inj heq₂,
      Document.bool.inj heq₃, Document.bool.inj heq₄, Document.bool.inj heq₅,
      Document.text.inj heq₆, Document.text.inj heq₇,
      map_text_injective (Document.list.inj heq₈)]

theorem exists_ofEntries_eq_ok (h : ∀ x, ∃ v, readValue r entries x = .ok v) :
    ∃ t, ofEntries r entries = .ok t := by
  obtain ⟨hnaming, htarget, hsplits, hrewrites, hlinks, hpath, hnamespace, hextensions⟩ :=
    readValue_cases r entries
  have hread : ∀ {α : Type} {f : α → Document} {x : Setting} {e : Except (List Problem) α},
      readValue r entries x = e.map f → ∃ a, e = .ok a := by
    intro α f x e heq
    obtain ⟨v, hv⟩ := h x
    obtain ⟨a, ha, -⟩ := map_eq_ok_iff.mp (heq.symm.trans hv)
    exact ⟨a, ha⟩
  obtain ⟨_, h₁⟩ := hread hnaming
  obtain ⟨_, h₂⟩ := hread htarget
  obtain ⟨_, h₃⟩ := hread hsplits
  obtain ⟨_, h₄⟩ := hread hrewrites
  obtain ⟨_, h₅⟩ := hread hlinks
  obtain ⟨_, h₆⟩ := hread hpath
  obtain ⟨_, h₇⟩ := hread hnamespace
  obtain ⟨_, h₈⟩ := hread hextensions
  unfold ofEntries
  dsimp only
  rw [h₁, h₂, h₃, h₄, h₅, h₆, h₇, h₈]
  exact ⟨_, rfl⟩

/-- The problems of a mapping are those of its settings, in their order. -/
theorem problems_ofEntries (r : ValueReader) (entries : List (String × Document)) :
    problems (ofEntries r entries) =
      Setting.all.flatMap fun x => problems (readValue r entries x) := by
  obtain ⟨hnaming, htarget, hsplits, hrewrites, hlinks, hpath, hnamespace, hextensions⟩ :=
    readValue_cases r entries
  simp only [Setting.all, List.flatMap_cons, List.flatMap_nil, hnaming, htarget, hsplits,
    hrewrites, hlinks, hpath, hnamespace, hextensions, problems_map]
  unfold ofEntries
  dsimp only
  split
  · next h₁ h₂ h₃ h₄ h₅ h₆ h₇ h₈ =>
    rw [h₁, h₂, h₃, h₄, h₅, h₆, h₇, h₈]
    rfl
  · simp only [problems, List.append_assoc, List.append_nil]

/-! ### Stored values are read as they are -/

theorem trim_trim (s : String) : trim (trim s) = trim s := by
  rw [trim, onChars, onChars, String.toList_ofList, Text.trim_trim]

theorem extensionOf_extensionOf (s : String) : extensionOf (extensionOf s) = extensionOf s := by
  have hlower : (extensionOf s).toList.all Unicode.isLower = true ∧
      beginsWith (extensionOf s) "." = true := by
    rw [extensionOf]
    split
    · next hdot =>
      refine ⟨Unicode.all_isLower_toLower s, ?_⟩
      rw [beginsWith, List.isPrefixOf_iff_prefix] at hdot ⊢
      obtain ⟨rest, hrest⟩ := hdot
      refine ⟨Unicode.lowerFrom ['.'] rest, ?_⟩
      rw [Unicode.toLower, String.toList_ofList, ← hrest]
      have hpoint : Unicode.lowerChar '.' = '.' := by decide
      simp [Unicode.lowerFrom, hpoint]
    · rw [beginsWith, String.toList_append, List.all_append, Unicode.all_isLower_toLower]
      exact ⟨by decide, by simp⟩
  rw [extensionOf, if_pos hlower.2, Unicode.toLower_eq_self hlower.1]

section

variable {isName : String → Bool} {complaint : String → Complaint}

theorem trimmedName?_eq_ok_iff {s v : String} :
    trimmedName? isName complaint s = .ok v ↔ isName (trim s) = true ∧ trim s = v := by
  rw [trimmedName?]
  split
  · next h => simp only [h, true_and, Except.ok.injEq]
  · next h => simp only [h, false_and, reduceCtorEq]

/-- A name is stored without the blanks around it, and so it is the name that is read again. -/
theorem trimmedName?_stored {s v : String} (h : trimmedName? isName complaint s = .ok v) :
    trimmedName? isName complaint v = .ok v := by
  obtain ⟨hname, rfl⟩ := trimmedName?_eq_ok_iff.mp h
  exact trimmedName?_eq_ok_iff.mpr ⟨(trim_trim s).symm ▸ hname, trim_trim s⟩

theorem single_eq_ok_iff {α : Type} {check : Document → Except Complaint α} {value : Document}
    {a : α} : single check value = .ok a ↔ check value = .ok a :=
  mapError_eq_ok_iff

theorem bind_trimmedName?_text (hr : r.IsFaithful) (s : String) :
    (r.text? (.text s)).bind (trimmedName? isName complaint) = trimmedName? isName complaint s := by
  rw [hr.text?_text, Except.bind]

theorem bind_trimmedName?_stored (hr : r.IsFaithful) {value : Document} {v : String}
    (h : (r.text? value).bind (trimmedName? isName complaint) = .ok v) :
    (r.text? (.text v)).bind (trimmedName? isName complaint) = .ok v := by
  obtain ⟨s, -, hs⟩ := bind_eq_ok_iff.mp h
  rw [bind_trimmedName?_text hr]
  exact trimmedName?_stored hs

end

end Settings

open Settings

variable {r : ValueReader}

/-- What is stored for a value is read as it is. -/
theorem ValueKind.read_stored (hr : r.IsFaithful) {k : ValueKind} {value v : Document}
    (h : k.read r value = .ok v) : k.read r v = .ok v := by
  cases k <;> simp only [read] at h ⊢ <;> obtain ⟨a, ha, rfl⟩ := map_eq_ok_iff.mp h
  case identifier | dotted =>
    have hagain := bind_trimmedName?_stored hr (single_eq_ok_iff.mp ha)
    exact map_eq_ok_iff.mpr ⟨a, single_eq_ok_iff.mpr hagain, rfl⟩
  case truth => exact map_eq_ok_iff.mpr ⟨a, single_eq_ok_iff.mpr (hr.truth?_bool a), rfl⟩
  case text => exact map_eq_ok_iff.mpr ⟨a, single_eq_ok_iff.mpr (hr.text?_text a), rfl⟩
  case extensions =>
    obtain ⟨ss, -, rfl⟩ := map_eq_ok_iff.mp ha
    refine map_eq_ok_iff.mpr ⟨_, map_eq_ok_iff.mpr ⟨_, hr.texts?_list _, ?_⟩, rfl⟩
    rw [List.map_map]
    exact List.map_congr_left fun s _ => extensionOf_extensionOf s

theorem Setting.read_default (hr : r.IsFaithful) (x : Setting) :
    x.kind.read r (({} : Settings).valueOf x) = .ok (({} : Settings).valueOf x) := by
  have hname : ∀ {isName : String → Bool} {complaint : String → Complaint} {s : String},
      isName (trim s) = true → trim s = s →
        (single (fun value => (r.text? value).bind (trimmedName? isName complaint))
          (.text s)).map Document.text = .ok (.text s) := by
    intro isName complaint s h htrim
    refine map_eq_ok_iff.mpr ⟨s, single_eq_ok_iff.mpr ?_, rfl⟩
    rw [bind_trimmedName?_text hr]
    exact trimmedName?_eq_ok_iff.mpr ⟨h, htrim⟩
  cases x
  case namingPrefix | targetNamespace | linksNamespace => exact hname (by decide) (by decide)
  case splitsFiles | rewritesSources | linksStaticFiles =>
    exact map_eq_ok_iff.mpr ⟨_, single_eq_ok_iff.mpr (hr.truth?_bool _), rfl⟩
  case staticFilesPath =>
    exact map_eq_ok_iff.mpr ⟨_, single_eq_ok_iff.mpr (hr.text?_text _), rfl⟩
  case excludedExtensions =>
    exact map_eq_ok_iff.mpr ⟨[], map_eq_ok_iff.mpr ⟨[], hr.texts?_list [], rfl⟩, rfl⟩

/-! ### A problem has the key of its value -/

namespace Settings

variable {entries : List (String × Document)} {x : Setting} {key : String} {value : Document}

theorem find?_eq (hr : r.IsFaithful) (entries : List (String × Document)) (x : Setting) :
    find? r entries x = ((Document.get? entries x.key).map fun value => (x.key, value)).or
      ((Document.get? entries x.otherKey).map fun value => (x.otherKey, value)) :=
  hr.find?_eq _ _ _

theorem find?_key (hr : r.IsFaithful) (h : find? r entries x = some (key, value)) :
    key = x.key ∨ key = x.otherKey := by
  rw [find?_eq hr, Option.or_eq_some_iff] at h
  rcases h with h | ⟨-, h⟩ <;> obtain ⟨v, -, hv⟩ := Option.map_eq_some_iff.mp h
  · exact .inl (Prod.mk.inj hv).1.symm
  · exact .inr (Prod.mk.inj hv).1.symm

theorem eq_of_find?_key (hr : r.IsFaithful) {y : Setting} {value' : Document}
    (h : find? r entries x = some (key, value)) (h' : find? r entries y = some (key, value')) :
    x = y := by
  rcases find?_key hr h with hx | hx <;> rcases find?_key hr h' with hy | hy
  · exact Setting.key_injective (hx.symm.trans hy)
  · exact absurd (hx.symm.trans hy) (Setting.key_ne_otherKey x y)
  · exact absurd (hy.symm.trans hx) (Setting.key_ne_otherKey y x)
  · exact Setting.otherKey_injective (hx.symm.trans hy)

theorem single_ne_error_nil {α : Type} (check : Document → Except Complaint α) (value : Document) :
    single check value ≠ .error [] := by
  rw [single]
  cases check value <;> simp [Except.mapError]

theorem read_ne_error_nil (hr : r.IsFaithful) (k : ValueKind) (value : Document) :
    k.read r value ≠ .error [] := by
  cases k with
  | identifier | dotted | truth | text =>
      exact fun h => single_ne_error_nil _ _ (map_eq_error_iff.mp h)
  | extensions =>
      intro h
      exact hr.faults_ne_nil value [] (map_eq_error_iff.mp (map_eq_error_iff.mp h)) rfl

theorem readValue_of_find? (h : find? r entries x = some (key, value)) :
    readValue r entries x = (x.kind.read r value).mapError (·.map (Fault.under key)) := by
  rw [readValue, h]

theorem problem_key (h : find? r entries x = some (key, value)) :
    ∀ p ∈ problems (readValue r entries x), p.key = some key := by
  rw [readValue_of_find? h]
  cases x.kind.read r value with
  | ok v => simp [Except.mapError, problems]
  | error faults =>
      intro p hp
      obtain ⟨f, -, rfl⟩ := List.mem_map.mp hp
      rfl

/-- Whatever else a mapping says, no problem is found with a value exactly if it can be read. -/
theorem forall_key_ne_iff (hr : r.IsFaithful) (h : find? r entries x = some (key, value)) :
    (∀ p ∈ problems (ofEntries r entries), p.key ≠ some key) ↔
      ∃ v, x.kind.read r value = .ok v := by
  rw [problems_ofEntries]
  constructor
  · intro hnone
    cases hread : x.kind.read r value with
    | ok v => exact ⟨v, rfl⟩
    | error faults =>
        obtain ⟨f, hf⟩ := List.exists_mem_of_ne_nil faults fun hnil =>
          read_ne_error_nil hr x.kind value (hnil ▸ hread)
        refine absurd rfl (hnone (f.under key) (List.mem_flatMap.mpr ⟨x, x.mem_all, ?_⟩))
        rw [readValue_of_find? h, hread]
        exact List.mem_map_of_mem hf
  · rintro ⟨v, hv⟩ p hp hkey
    obtain ⟨y, -, hp⟩ := List.mem_flatMap.mp hp
    cases hfind : find? r entries y with
    | none => simp [readValue, hfind, problems] at hp
    | some found =>
        obtain ⟨key', value'⟩ := found
        cases (problem_key hfind p hp).symm.trans hkey
        obtain rfl := eq_of_find?_key hr hfind h
        rw [readValue_of_find? h, hv] at hp
        cases hp

theorem valueOf_of_find? (hfind : find? r entries x = some (key, value))
    (h : ofEntries r entries = .ok t) : x.kind.read r value = .ok (t.valueOf x) := by
  have hx := ofEntries_eq_ok_iff.mp h x
  rw [readValue_of_find? hfind] at hx
  exact mapError_eq_ok_iff.mp hx

end Settings

/-! ### The reader of the program -/

namespace Lenient

theorem members_map_text (index : Nat) (ss : List String) :
    members index (ss.map .text) = .ok ss := by
  induction ss generalizing index with
  | nil => rfl
  | cons s rest ih => rw [List.map_cons, members, text?, ih]

theorem members_ne_error_nil (index : Nat) (items : List Document) :
    members index items ≠ .error [] := by
  induction items generalizing index with
  | nil => simp [members]
  | cons item rest ih =>
      rw [members]
      split
      · simp
      · next hrest => exact hrest ▸ ih _
      · simp
      · simp

end Lenient

theorem ValueReader.isFaithful_lenient : ValueReader.lenient.IsFaithful where
  find?_eq key otherKey entries := by
    show Lenient.find? key otherKey entries = _
    rw [Lenient.find?]
    cases Document.get? entries key <;> rfl
  text?_text _ := rfl
  truth?_bool _ := rfl
  texts?_list ss := Lenient.members_map_text 0 ss
  faults_ne_nil d faults h := by
    rintro rfl
    cases d with
    | list items => exact Lenient.members_ne_error_nil 0 items h
    | _ => cases h

end RouteLinks
