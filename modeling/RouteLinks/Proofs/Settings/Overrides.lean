import Mathlib.Data.List.Nodup
import RouteLinks.Proofs.Order
import RouteLinks.Proofs.Settings.Values
import RouteLinks.Settings.Load
/-!
# What overrides replace

Settings that have been read are written down under their second keys, the overrides are put over
them, and all is read once more. What has been read is stored in a form that is read as it is, and
an override is put under the second key of its setting whichever key it is given under, so exactly
the settings that are overridden change.
-/

namespace RouteLinks

namespace Settings

variable {r : ValueReader} {entries overrides : List (String × Document)} {s t : Settings}
  {x : Setting} {key : String}

/-! ### Keys of overrides -/

theorem overrideKey_key (x : Setting) : overrideKey x.key = x.otherKey := by
  cases x <;> decide

theorem overrideKey_of_forall_ne (h : ∀ x : Setting, x.key ≠ key) : overrideKey key = key := by
  have hnone : Setting.all.find? (·.key == key) = none :=
    List.find?_eq_none.mpr fun x _ => by simpa using h x
  rw [overrideKey, hnone]

theorem overrideKey_eq_otherKey_iff :
    overrideKey key = x.otherKey ↔ key = x.key ∨ key = x.otherKey := by
  by_cases hknown : ∃ y : Setting, y.key = key
  · obtain ⟨y, rfl⟩ := hknown
    rw [overrideKey_key, Setting.otherKey_injective.eq_iff]
    constructor
    · rintro rfl
      exact .inl rfl
    · rintro (hkey | hkey)
      · exact Setting.otherKey_injective
          ((overrideKey_key y).symm.trans ((congrArg overrideKey hkey).trans (overrideKey_key x)))
      · exact absurd hkey (Setting.key_ne_otherKey y x)
  · rw [not_exists] at hknown
    rw [overrideKey_of_forall_ne hknown]
    exact ⟨.inr, fun h => h.resolve_left fun hkey => hknown x hkey.symm⟩

theorem overrideKey_ne_key (key : String) (x : Setting) : overrideKey key ≠ x.key := by
  by_cases hknown : ∃ y : Setting, y.key = key
  · obtain ⟨y, rfl⟩ := hknown
    rw [overrideKey_key]
    exact fun h => Setting.key_ne_otherKey x y h.symm
  · rw [not_exists] at hknown
    rw [overrideKey_of_forall_ne hknown]
    exact fun h => hknown x h.symm

/-! ### Overrides -/

/-- Overrides are a mapping in which no setting stands under both of its keys. -/
structure IsOverriding (overrides : List (String × Document)) : Prop where
  nodup : (overrides.map Prod.fst).Nodup
  one_key : ∀ x : Setting, x.key ∈ overrides.map Prod.fst → x.otherKey ∉ overrides.map Prod.fst

def AreAccepted (r : ValueReader) (overrides : List (String × Document)) : Prop :=
  ∀ x key value, find? r overrides x = some (key, value) → ∃ v, x.kind.read r value = .ok v

/-- The settings `t` are `s` with the values that overrides have, as they are stored. -/
structure Replaces (r : ValueReader) (s : Settings) (overrides : List (String × Document))
    (t : Settings) : Prop where
  named : ∀ x key value, find? r overrides x = some (key, value) →
    x.kind.read r value = .ok (t.valueOf x)
  other : ∀ x, find? r overrides x = none → t.valueOf x = s.valueOf x

theorem find?_eq_some_iff_of_isOverriding (hr : r.IsFaithful) (h : IsOverriding overrides)
    {value : Document} :
    find? r overrides x = some (key, value) ↔
      (key, value) ∈ overrides ∧ (key = x.key ∨ key = x.otherKey) := by
  have hlookup : ∀ {k v}, overrides.lookup k = some v ↔ (k, v) ∈ overrides :=
    lookup_eq_some_iff_of_nodup h.nodup
  have hmem : ∀ {k v}, (k, v) ∈ overrides → k ∈ overrides.map Prod.fst :=
    fun hkv => List.mem_map_of_mem (f := Prod.fst) hkv
  rw [find?_eq hr, Document.get?, Document.get?]
  constructor
  · intro hfind
    rcases Option.or_eq_some_iff.mp hfind with hfind | ⟨-, hfind⟩ <;>
      obtain ⟨v, hv, hsame⟩ := Option.map_eq_some_iff.mp hfind <;> cases hsame
    · exact ⟨hlookup.mp hv, .inl rfl⟩
    · exact ⟨hlookup.mp hv, .inr rfl⟩
  · rintro ⟨hentry, rfl | rfl⟩
    · rw [hlookup.mpr hentry]
      rfl
    · have hnone : overrides.lookup x.key = none := by
        rw [← Option.not_isSome_iff_eq_none, lookup_isSome_iff]
        exact fun hkey => h.one_key x hkey (hmem hentry)
      rw [hnone, hlookup.mpr hentry]
      rfl

def underOtherKeys (overrides : List (String × Document)) : List (String × Document) :=
  overrides.map fun entry => (overrideKey entry.1, entry.2)

theorem nodup_underOtherKeys (h : IsOverriding overrides) :
    ((underOtherKeys overrides).map Prod.fst).Nodup := by
  have hkeys : (underOtherKeys overrides).map Prod.fst =
      (overrides.map Prod.fst).map overrideKey := by
    rw [underOtherKeys, List.map_map, List.map_map]
    rfl
  rw [hkeys]
  refine List.Nodup.map_on (fun a ha b hb hsame => ?_) h.nodup
  by_cases hknown : ∃ y : Setting, y.key = b
  · obtain ⟨y, rfl⟩ := hknown
    rw [overrideKey_key, overrideKey_eq_otherKey_iff] at hsame
    exact hsame.resolve_right fun hother => h.one_key y hb (hother ▸ ha)
  · rw [not_exists] at hknown
    by_cases hknown' : ∃ y : Setting, y.key = a
    · obtain ⟨y, rfl⟩ := hknown'
      rw [overrideKey_key, eq_comm, overrideKey_eq_otherKey_iff] at hsame
      exact (hsame.resolve_right fun hother => h.one_key y ha (hother ▸ hb)).symm
    · rw [not_exists] at hknown'
      rwa [overrideKey_of_forall_ne hknown, overrideKey_of_forall_ne hknown'] at hsame

/-- What stands under the second key of a setting is what overrides say of it. -/
theorem lookup_underOtherKeys (hr : r.IsFaithful) (h : IsOverriding overrides) (x : Setting) :
    (underOtherKeys overrides).lookup x.otherKey = (find? r overrides x).map Prod.snd := by
  apply Option.ext
  intro value
  rw [lookup_eq_some_iff_of_nodup (nodup_underOtherKeys h), Option.map_eq_some_iff, underOtherKeys,
    List.mem_map]
  constructor
  · rintro ⟨⟨key, v⟩, hentry, hsame⟩
    obtain ⟨hkey, rfl⟩ := Prod.mk.inj hsame
    exact ⟨(key, v), (find?_eq_some_iff_of_isOverriding hr h).mpr
      ⟨hentry, overrideKey_eq_otherKey_iff.mp hkey⟩, rfl⟩
  · rintro ⟨⟨key, v⟩, hfind, rfl⟩
    obtain ⟨hentry, hkey⟩ := (find?_eq_some_iff_of_isOverriding hr h).mp hfind
    exact ⟨(key, v), hentry, by rw [overrideKey_eq_otherKey_iff.mpr hkey]⟩

/-! ### Overrides over settings -/

theorem lookup_foldl_upsert {changes : List (String × Document)}
    (h : (changes.map Prod.fst).Nodup) (base : List (String × Document)) (key : String) :
    (changes.foldl (fun entries (k, value) => upsert k (fun _ => value) entries) base).lookup key =
      (changes.lookup key).or (base.lookup key) := by
  induction changes generalizing base with
  | nil => rfl
  | cons change rest ih =>
      obtain ⟨k, value⟩ := change
      rw [List.map_cons, List.nodup_cons] at h
      rw [List.foldl_cons, ih h.2, lookup_upsert, lookup_cons_eq]
      split
      · next hkey =>
        have hlater : rest.lookup key = none := by
          rw [← Option.not_isSome_iff_eq_none, lookup_isSome_iff, hkey]
          exact h.1
        rw [hlater]
        rfl
      · rfl

def overridden (s : Settings) (overrides : List (String × Document)) : List (String × Document) :=
  (underOtherKeys overrides).foldl (fun entries (k, value) => upsert k (fun _ => value) entries)
    s.toEntries

theorem withOverrides_eq (r : ValueReader) (s : Settings) (hne : overrides ≠ []) :
    s.withOverrides r overrides = ofEntries r (s.overridden overrides) := by
  have hempty : overrides.isEmpty = false := by
    rw [Bool.eq_false_iff, Ne, List.isEmpty_iff]
    exact hne
  rw [withOverrides, hempty, overridden, underOtherKeys, List.foldl_map]
  rfl

theorem map_fst_toEntries (s : Settings) :
    s.toEntries.map Prod.fst = Setting.all.map Setting.otherKey := by
  rw [toEntries, List.map_map]
  rfl

theorem lookup_toEntries (s : Settings) (x : Setting) :
    s.toEntries.lookup x.otherKey = some (s.valueOf x) := by
  have hnodup : (s.toEntries.map Prod.fst).Nodup := by
    rw [map_fst_toEntries]
    decide
  rw [lookup_eq_some_iff_of_nodup hnodup]
  exact List.mem_map_of_mem (f := fun x : Setting => (x.otherKey, s.valueOf x)) (Setting.mem_all x)

/-- A setting that is overridden is found as the override says, and any other as it was. -/
theorem find?_overridden (hr : r.IsFaithful) (h : IsOverriding overrides) (s : Settings)
    (x : Setting) :
    find? r (s.overridden overrides) x =
      some (x.otherKey, ((find? r overrides x).map Prod.snd).getD (s.valueOf x)) := by
  have hlookup := lookup_foldl_upsert (nodup_underOtherKeys h) s.toEntries
  have hkey : (underOtherKeys overrides).lookup x.key = none := by
    rw [← Option.not_isSome_iff_eq_none, lookup_isSome_iff, underOtherKeys, List.map_map]
    intro hmem
    obtain ⟨entry, -, hsame⟩ := List.mem_map.mp hmem
    exact overrideKey_ne_key entry.1 x hsame
  have hbase : s.toEntries.lookup x.key = none := by
    rw [← Option.not_isSome_iff_eq_none, lookup_isSome_iff, map_fst_toEntries]
    intro hmem
    obtain ⟨y, -, hsame⟩ := List.mem_map.mp hmem
    exact Setting.key_ne_otherKey x y hsame.symm
  rw [find?_eq hr, Document.get?, Document.get?, overridden, hlookup, hlookup, hkey, hbase,
    lookup_underOtherKeys hr h, lookup_toEntries]
  cases find? r overrides x <;> rfl

theorem read_valueOf (hr : r.IsFaithful) (h : ofEntries r entries = .ok s) (x : Setting) :
    x.kind.read r (s.valueOf x) = .ok (s.valueOf x) := by
  have hread := ofEntries_eq_ok_iff.mp h x
  rw [readValue] at hread
  split at hread
  · exact ValueKind.read_stored hr (mapError_eq_ok_iff.mp hread)
  · rw [← Except.ok.inj hread]
    exact x.read_default hr

theorem readValue_overridden (hr : r.IsFaithful) (h : IsOverriding overrides) (s : Settings)
    (x : Setting) (v : Document) :
    readValue r (s.overridden overrides) x = .ok v ↔
      x.kind.read r (((find? r overrides x).map Prod.snd).getD (s.valueOf x)) = .ok v := by
  rw [readValue_of_find? (find?_overridden hr h s x), mapError_eq_ok_iff]

theorem exists_replaces (hr : r.IsFaithful) (hs : ofEntries r entries = .ok s)
    (h : IsOverriding overrides) (haccepted : AreAccepted r overrides) :
    ∃ t, ofEntries r (s.overridden overrides) = .ok t ∧ Replaces r s overrides t := by
  have hread : ∀ x, ∃ v, readValue r (s.overridden overrides) x = .ok v := by
    intro x
    simp only [readValue_overridden hr h]
    cases hfind : find? r overrides x with
    | none => exact ⟨_, read_valueOf hr hs x⟩
    | some entry => exact haccepted x entry.1 entry.2 hfind
  obtain ⟨t, ht⟩ := exists_ofEntries_eq_ok hread
  have hvalue := fun x => (readValue_overridden hr h s x _).mp (ofEntries_eq_ok_iff.mp ht x)
  refine ⟨t, ht, fun x key value hfind => ?_, fun x hfind => ?_⟩
  · have hx := hvalue x
    rwa [hfind] at hx
  · have hx := hvalue x
    rw [hfind] at hx
    exact Except.ok.inj (hx.symm.trans (read_valueOf hr hs x))

theorem valueOf_injective : Function.Injective valueOf := by
  intro s t h
  have hvalue : ∀ x, s.valueOf x = t.valueOf x := congrFun h
  cases s
  cases t
  have h₁ := Document.text.inj (hvalue .namingPrefix)
  have h₂ := Document.text.inj (hvalue .targetNamespace)
  have h₃ := Document.bool.inj (hvalue .splitsFiles)
  have h₄ := Document.bool.inj (hvalue .rewritesSources)
  have h₅ := Document.bool.inj (hvalue .linksStaticFiles)
  have h₆ := Document.text.inj (hvalue .staticFilesPath)
  have h₇ := Document.text.inj (hvalue .linksNamespace)
  have h₈ := map_text_injective (Document.list.inj (hvalue .excludedExtensions))
  simp only at h₁ h₂ h₃ h₄ h₅ h₆ h₇ h₈
  simp only [h₁, h₂, h₃, h₄, h₅, h₆, h₇, h₈]

theorem find?_nil (hr : r.IsFaithful) (x : Setting) : find? r [] x = none := by
  rw [find?_eq hr]
  rfl

theorem Replaces.eq_of_nil (hr : r.IsFaithful) (h : Replaces r s [] t) : t = s :=
  valueOf_injective (funext fun x => h.other x (find?_nil hr x))

theorem isOverriding_nil : IsOverriding [] :=
  ⟨by simp, by simp⟩

theorem ofEntries_toEntries (hr : r.IsFaithful) (h : ofEntries r entries = .ok s) :
    ofEntries r s.toEntries = .ok s := by
  have haccepted : AreAccepted r [] := fun x key value hfind => by
    rw [find?_nil hr] at hfind
    cases hfind
  obtain ⟨t, ht, hreplaces⟩ := exists_replaces hr h isOverriding_nil haccepted
  rw [hreplaces.eq_of_nil hr] at ht
  exact ht

theorem withOverrides_nil (r : ValueReader) (s : Settings) : s.withOverrides r [] = .ok s := rfl

theorem load_of_load_nil {tree : FileTree} {root : String} {named : Option String}
    (hs : load r tree root named [] = .ok s) (ht : s.withOverrides r overrides = .ok t) :
    load r tree root named overrides = .ok t := by
  have hpresent : ∀ {present : Except SettingsError Settings},
      (present.bind fun s => (s.withOverrides r []).mapError .invalid) = .ok s →
        (present.bind fun s => (s.withOverrides r overrides).mapError .invalid) = .ok t := by
    intro present hfound
    cases present with
    | error found => cases hfound
    | ok found =>
        obtain rfl := Except.ok.inj hfound
        show (found.withOverrides r overrides).mapError _ = _
        rw [ht]
        rfl
  exact hpresent hs

/-- Overrides replace what they name. Settings that have been read can be read again from what is
written down of them, and with overrides each setting that is named has the stored form of its new
value and all others have the values they had, whatever file the settings come from. -/
theorem withOverrides_replaces (hr : r.IsFaithful) (hs : ofEntries r entries = .ok s)
    (h : IsOverriding overrides) (haccepted : AreAccepted r overrides) :
    ofEntries r s.toEntries = .ok s ∧ ∃ t, s.withOverrides r overrides = .ok t ∧
      Replaces r s overrides t ∧ ∀ tree root named, load r tree root named [] = .ok s →
        load r tree root named overrides = .ok t := by
  refine ⟨ofEntries_toEntries hr hs, ?_⟩
  obtain ⟨t, ht, hreplaces⟩ := exists_replaces hr hs h haccepted
  have hover : s.withOverrides r overrides = .ok t := by
    by_cases hne : overrides = []
    · subst hne
      rw [withOverrides_nil, hreplaces.eq_of_nil hr]
    · rw [withOverrides_eq r s hne, ht]
  exact ⟨t, hover, hreplaces, fun tree root named hload => load_of_load_nil hload hover⟩

theorem withOverrides_replaces_three :
    ofEntries .lenient [("naming_prefix", .text " Links "), ("unknown", .null)] =
        .ok { namingPrefix := "Links" } ∧
      ∃ t, withOverrides .lenient { namingPrefix := "Links" }
          [("excludedStaticFileExtensions", .list [.text "MAP"]), ("generate_static_files", .int 0),
            ("other", .null)] = .ok t ∧
        t.valueOf .namingPrefix = .text "Links" ∧
        t.valueOf .excludedExtensions = .list [.text ".map"] ∧
        t.valueOf .linksStaticFiles = .bool false := by
  have hread : ofEntries .lenient [("naming_prefix", .text " Links "), ("unknown", .null)] =
      .ok { namingPrefix := "Links" } := by rfl
  have hfound : ∀ x : Setting, find? .lenient
      [("excludedStaticFileExtensions", .list [.text "MAP"]), ("generate_static_files", .int 0),
        ("other", .null)] x = match x with
      | .excludedExtensions => some ("excludedStaticFileExtensions", .list [.text "MAP"])
      | .linksStaticFiles => some ("generate_static_files", .int 0)
      | _ => none := by
    intro x
    cases x <;> rfl
  have hover : IsOverriding [("excludedStaticFileExtensions", .list [.text "MAP"]),
      ("generate_static_files", .int 0), ("other", .null)] :=
    ⟨by decide, fun x => by cases x <;> decide⟩
  have haccepted : AreAccepted .lenient [("excludedStaticFileExtensions", .list [.text "MAP"]),
      ("generate_static_files", .int 0), ("other", .null)] := by
    intro x key value hfind
    rw [hfound] at hfind
    cases x <;> cases hfind <;> exact ⟨_, rfl⟩
  obtain ⟨-, t, ht, hreplaces, -⟩ :=
    withOverrides_replaces ValueReader.isFaithful_lenient hread hover haccepted
  refine ⟨hread, t, ht, hreplaces.other _ (hfound _), ?_, ?_⟩
  · exact Except.ok.inj (hreplaces.named .excludedExtensions _ _ (hfound _)).symm
  · exact Except.ok.inj (hreplaces.named .linksStaticFiles _ _ (hfound _)).symm

end Settings

end RouteLinks
