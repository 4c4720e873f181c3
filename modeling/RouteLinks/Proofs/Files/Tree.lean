import RouteLinks.Proofs.Files.Path
import RouteLinks.Proofs.Order
import RouteLinks.Files.Tree
/-!
# What a write changes

A write puts an entry at one place. The entries on the way there stay directories, the entries
elsewhere stay as they are, and the path that was written leads to the file from then on.
-/

namespace RouteLinks

namespace FileTree

variable {t t' : FileTree} {place way : Place} {name : String}

/-! ### Entries at places -/

theorem get?_directory_cons (es : List (String × FileTree)) (name : String) (way : Place) :
    (directory es).get? (name :: way) = (es.lookup name).bind (·.get? way) := rfl

theorem get?_append (t : FileTree) (place way : Place) :
    t.get? (place ++ way) = (t.get? place).bind (·.get? way) := by
  induction place generalizing t with
  | nil => rfl
  | cons name rest ih =>
      rw [List.cons_append, get?, get?, Option.bind_assoc]
      congr 1
      funext entry
      exact ih entry

theorem hasDirectory_iff :
    t.hasDirectory place = true ↔ ∃ es, t.get? place = some (.directory es) := by
  rw [hasDirectory]
  cases h : t.get? place with
  | none => simp
  | some entry => cases entry <;> simp [isDirectory]

theorem hasDirectory_of_get?_append (hway : way ≠ []) (h : (t.get? (place ++ way)).isSome) :
    t.hasDirectory place = true := by
  obtain ⟨name, rest, rfl⟩ := List.exists_cons_of_ne_nil hway
  rw [get?_append] at h
  rw [hasDirectory]
  cases hentry : t.get? place with
  | none => simp [hentry] at h
  | some entry =>
      cases entry with
      | directory es => rfl
      | file content => simp [hentry, get?, entries] at h

theorem hasDirectory_of_append (h : t.hasDirectory (place ++ way) = true) :
    t.hasDirectory place = true := by
  by_cases hway : way = []
  · rwa [hway, List.append_nil] at h
  · obtain ⟨es, hes⟩ := hasDirectory_iff.mp h
    exact hasDirectory_of_get?_append hway (by rw [hes]; rfl)

theorem ne_file_of_hasDirectory {content : Bytes} (h : t.hasDirectory place = true) :
    t.get? place ≠ some (.file content) := by
  intro hfile
  rw [hasDirectory, hfile] at h
  cases h

theorem hasDirectory_nil (h : t.hasDirectory place = true) : t.hasDirectory [] = true := by
  rw [← List.nil_append place] at h
  exact hasDirectory_of_append h

theorem hasDirectory_dropLast (h : t.hasDirectory place = true) :
    t.hasDirectory place.dropLast = true := by
  by_cases hplace : place = []
  · rwa [hplace] at h ⊢
  · rw [← List.dropLast_concat_getLast hplace] at h
    exact hasDirectory_of_append h

/-! ### Putting an entry -/

theorem put_directory_singleton (es : List (String × FileTree)) (entry : FileTree)
    (name : String) :
    (directory es).put entry [name] = .directory (upsert name (fun _ => entry) es) := rfl

theorem put_directory_cons (es : List (String × FileTree)) (entry : FileTree) (name : String)
    (way : Place) :
    (directory es).put entry (name :: way) =
      .directory (upsert name (fun present => (present.getD empty).put entry way) es) := rfl

theorem get?_put_append {entry : FileTree} {d : FileTree} (h : t.get? place = some d) :
    (t.put entry (place ++ way)).get? place = some (d.put entry way) := by
  induction place generalizing t with
  | nil =>
      cases h
      rfl
  | cons name rest ih =>
      cases t with
      | file content => simp [get?, entries] at h
      | directory es =>
          rw [get?] at h
          obtain ⟨x, hx, hrest⟩ := Option.bind_eq_some_iff.mp h
          rw [List.cons_append, put, get?, entries, lookup_upsert, if_pos rfl, Option.bind_some]
          have hx' : es.lookup name = some x := hx
          rw [hx']
          exact ih hrest

theorem get?_put_self {entry : FileTree} (h : t.hasDirectory place = true) :
    (t.put entry (place ++ [name])).get? (place ++ [name]) = some entry := by
  obtain ⟨es, hes⟩ := hasDirectory_iff.mp h
  rw [get?_append, get?_put_append hes, Option.bind_some, put, get?, entries, lookup_upsert,
    if_pos rfl]
  rfl

/-- An entry stays as it is where neither of two places is on the way to the other. -/
theorem get?_put_of_apart {entry : FileTree} {other : Place} (hother : ¬ place <+: other)
    (hplace : ¬ other <+: place) : (t.put entry place).get? other = t.get? other := by
  induction place generalizing t other with
  | nil => exact absurd List.nil_prefix hother
  | cons name rest ih =>
      cases other with
      | nil => exact absurd List.nil_prefix hplace
      | cons step more =>
          cases t with
          | file content => rfl
          | directory es =>
              rw [put, get?, get?, entries, entries, lookup_upsert]
              split
              · next hsame =>
                subst hsame
                have hrest : ¬ rest <+: more := fun h => hother ((List.prefix_cons_inj _).mpr h)
                have hmore : ¬ more <+: rest := fun h => hplace ((List.prefix_cons_inj _).mpr h)
                cases hx : es.lookup step with
                | some x => exact ih hrest hmore
                | none =>
                    have hempty := ih (t := empty) hrest hmore
                    obtain ⟨first, others, rfl⟩ := List.exists_cons_of_ne_nil
                      (fun h => hmore (h ▸ List.nil_prefix) : more ≠ [])
                    exact hempty
              · rfl

theorem isDirectory_put {entry : FileTree} (hway : way ≠ []) :
    (t.put entry way).isDirectory = t.isDirectory := by
  obtain ⟨name, rest, rfl⟩ := List.exists_cons_of_ne_nil hway
  cases t <;> rfl

structure Addable (t : FileTree) (place : Place) (name : String) : Prop where
  around : t.hasDirectory place = true
  free : t.hasDirectory (place ++ [name]) = false

namespace Addable

variable {other : Place} {d : FileTree} {content : Bytes}

theorem eq_directory (h : t.Addable place name) : ∃ es, t = .directory es := by
  obtain ⟨es, hes⟩ := hasDirectory_iff.mp (hasDirectory_nil h.around)
  exact ⟨es, Option.some.inj hes⟩

theorem below {step : String} {rest : Place} {es : List (String × FileTree)}
    (h : (directory es).Addable (step :: rest) name) :
    ∃ x, es.lookup step = some x ∧ x.Addable rest name := by
  obtain ⟨inner, hinner⟩ := hasDirectory_iff.mp h.around
  rw [get?_directory_cons] at hinner
  obtain ⟨x, hx, _⟩ := Option.bind_eq_some_iff.mp hinner
  refine ⟨x, hx, ?_, ?_⟩
  · have haround := h.around
    rwa [hasDirectory, get?_directory_cons, hx] at haround
  · have hfree := h.free
    rwa [List.cons_append, hasDirectory, get?_directory_cons, hx] at hfree

/-- Induction on the way to the place. In its directory there is nothing at the place or a file; in
a directory further up, the next step leads to a directory. -/
theorem induct {motive : ∀ (t : FileTree) (place : Place), t.Addable place name → Prop}
    (new : ∀ es h, es.lookup name = none → motive (.directory es) [] h)
    (present : ∀ es content h, es.lookup name = some (.file content) → motive (.directory es) [] h)
    (below : ∀ es step rest inner h hinner, es.lookup step = some (.directory inner) →
      motive (.directory inner) rest hinner → motive (.directory es) (step :: rest) h)
    (h : t.Addable place name) : motive t place h := by
  induction place generalizing t with
  | nil =>
      obtain ⟨es, rfl⟩ := h.eq_directory
      cases hentry : es.lookup name with
      | none => exact new es h hentry
      | some x =>
          cases x with
          | file content => exact present es content h hentry
          | directory inner =>
              have hfree := h.free
              rw [List.nil_append, hasDirectory, get?_directory_cons, hentry] at hfree
              cases hfree
  | cons step rest ih =>
      obtain ⟨es, rfl⟩ := h.eq_directory
      obtain ⟨x, hentry, hbelow⟩ := h.below
      obtain ⟨inner, rfl⟩ := hbelow.eq_directory
      exact below es step rest inner h hbelow hentry (ih hbelow)

theorem within (h : t.Addable (other ++ way) name) (hother : t.get? other = some d) :
    d.Addable way name := by
  have hget : ∀ more, d.get? more = t.get? (other ++ more) := by
    intro more
    rw [get?_append, hother]
    rfl
  constructor
  · rw [hasDirectory, hget]
    exact h.around
  · rw [hasDirectory, hget, ← List.append_assoc]
    exact h.free

theorem cases_of_get? (h : t.Addable place name) (hother : t.get? other = some d) :
    (∃ way, place = other ++ way) ∨ other = place ++ [name] ∨
      (¬ place ++ [name] <+: other ∧ ¬ other <+: place ++ [name]) := by
  by_cases hway : other <+: place ++ [name]
  · rcases List.prefix_concat_iff.mp hway with hsame | ⟨way, hway⟩
    · exact .inr (.inl hsame)
    · exact .inl ⟨way, hway.symm⟩
  · refine .inr (.inr ⟨?_, hway⟩)
    rintro ⟨more, hmore⟩
    have hne : more ≠ [] := by
      rintro rfl
      rw [List.append_nil] at hmore
      exact hway (hmore ▸ List.prefix_rfl)
    have hdirectory := hasDirectory_of_get?_append (t := t) hne (by rw [hmore, hother]; rfl)
    rw [h.free] at hdirectory
    cases hdirectory

theorem hasDirectory_put (h : t.Addable place name) (other : Place) :
    (t.put (.file content) (place ++ [name])).hasDirectory other = t.hasDirectory other := by
  by_cases hway : other <+: place
  · obtain ⟨way, rfl⟩ := hway
    obtain ⟨es, hes⟩ := hasDirectory_iff.mp (hasDirectory_of_append h.around)
    rw [hasDirectory, hasDirectory, List.append_assoc, get?_put_append hes, hes]
    exact isDirectory_put (by simp)
  by_cases hat : place ++ [name] <+: other
  · obtain ⟨more, rfl⟩ := hat
    have hnone : t.hasDirectory (place ++ [name] ++ more) = false := by
      rw [← Bool.not_eq_true]
      intro hmore
      have hfree := hasDirectory_of_append hmore
      rw [h.free] at hfree
      cases hfree
    rw [hnone, hasDirectory, get?_append, get?_put_self h.around, Option.bind_some]
    cases more <;> rfl
  · have hother : ¬ other <+: place ++ [name] := by
      intro hother
      rcases List.prefix_concat_iff.mp hother with rfl | hother
      · exact hat List.prefix_rfl
      · exact hway hother
    rw [hasDirectory, hasDirectory, get?_put_of_apart hat hother]

end Addable

/-! ### Walking -/

theorem walk?_append (t : FileTree) (here : Place) (steps more : List String) :
    t.walk? here (steps ++ more) = (t.walk? here steps).bind (t.walk? · more) := by
  induction steps generalizing here with
  | nil => rfl
  | cons step rest ih =>
      simp only [List.cons_append, walk?, ih]
      split
      · rfl
      · split
        · rfl
        · split <;> rfl

theorem walk?_singleton_eq_some_iff {here q : Place} (hname : name ≠ "..") :
    t.walk? here [name] = some q ↔
      t.hasDirectory here = true ∧ (t.get? (here ++ [name])).isSome ∧ q = here ++ [name] := by
  have hstep : (name == "..") = false := beq_false_of_ne hname
  simp only [walk?, hstep, Bool.false_eq_true, if_false]
  cases t.hasDirectory here <;> cases (t.get? (here ++ [name])).isSome <;> simp [eq_comm]

theorem ne_of_isFileName (h : isFileName name = true) : name ≠ ".." ∧ Path.counts name = true := by
  simp only [isFileName, Bool.and_eq_true, Bool.not_eq_true', List.contains_eq_mem,
    decide_eq_false_iff_not, List.mem_cons, not_or] at h
  obtain ⟨⟨hempty, hdot, hup, _⟩, _⟩ := h
  exact ⟨hup, by simp [Path.counts, hempty, hdot]⟩

/-- A path leads to an entry of the directory it names. -/
theorem find?_eq_some_iff {path : String} (hname : isFileName (Path.baseName path) = true)
    {q : Place} :
    t.find? path = some q ↔ ∃ place, t.walk? [] (Path.parts (Path.directory path)) = some place ∧
      t.hasDirectory place = true ∧ (t.get? (place ++ [Path.baseName path])).isSome ∧
        q = place ++ [Path.baseName path] := by
  obtain ⟨hup, hcounts⟩ := ne_of_isFileName hname
  rw [find?, Path.parts_eq_directory_baseName hcounts, walk?_append, Option.bind_eq_some_iff]
  simp only [walk?_singleton_eq_some_iff hup]

/-- Where a path leads to a directory depends on the directories alone. -/
theorem filter_walk?_congr (h : ∀ p, t'.hasDirectory p = t.hasDirectory p) (here : Place)
    (steps : List String) :
    (t'.walk? here steps).filter t'.hasDirectory = (t.walk? here steps).filter t.hasDirectory := by
  induction steps generalizing here with
  | nil => simp [walk?, Option.filter, h here]
  | cons step rest ih =>
      have hentry : ∀ u : FileTree,
          (if (u.get? (here ++ [step])).isSome then u.walk? (here ++ [step]) rest else none).filter
            u.hasDirectory = (u.walk? (here ++ [step]) rest).filter u.hasDirectory := by
        intro u
        split
        · rfl
        · next hnone =>
          have hfalse : u.hasDirectory (here ++ [step]) = false := by
            rw [hasDirectory, Option.not_isSome_iff_eq_none.mp hnone]
            rfl
          cases rest with
          | nil => simp [walk?, Option.filter, hfalse]
          | cons next more => simp [walk?, hfalse]
      rw [walk?, walk?, h here]
      split
      · rfl
      · split
        · exact ih _
        · rw [hentry, hentry, ih]

theorem directory?_eq (t : FileTree) (path : String) :
    t.directory? path = ((t.find? path).filter t.hasDirectory).bind t.get? := by
  rw [directory?]
  cases t.find? path with
  | none => rfl
  | some place =>
      cases h : t.get? place with
      | none => simp [hasDirectory, h, Option.filter]
      | some entry => cases entry <;> simp [hasDirectory, h, Option.filter, isDirectory]

theorem directory?_eq_some_iff {path : String} {d : FileTree} :
    t.directory? path = some d ↔
      ∃ place, t.find? path = some place ∧ t.hasDirectory place = true ∧ t.get? place = some d := by
  rw [directory?_eq, Option.bind_eq_some_iff]
  simp only [Option.filter_eq_some_iff, and_assoc]

theorem hasDirectory_nil_of_directory? {path : String} (h : (t.directory? path).isSome) :
    t.hasDirectory [] = true := by
  obtain ⟨d, hd⟩ := Option.isSome_iff_exists.mp h
  obtain ⟨place, _, hdirectory, _⟩ := directory?_eq_some_iff.mp hd
  exact hasDirectory_nil hdirectory

theorem read?_eq_some_iff {path : String} {content : Bytes} :
    t.read? path = some content ↔
      ∃ place, t.find? path = some place ∧ t.get? place = some (.file content) := by
  rw [read?]
  cases t.find? path with
  | none => simp
  | some place =>
      cases h : t.get? place with
      | none => simp [h]
      | some entry => cases entry <;> simp [h]

theorem holds_iff {path : String} {content : Bytes} :
    t.holds path content = true ↔
      isFileName (Path.baseName path) = true ∧ t.read? path = some content := by
  rw [holds, Bool.and_eq_true, beq_iff_eq]

/-! ### Writing -/

theorem write_eq_some {path : String} {content : Bytes}
    (h : t.write path content = (t', some ())) :
    isFileName (Path.baseName path) = true ∧ ∃ made place,
      t.makeDirectories [] (Path.parts (Path.directory path)) = (made, some place) ∧
        made.hasDirectory (place ++ [Path.baseName path]) = false ∧
          t' = made.put (.file content) (place ++ [Path.baseName path]) := by
  simp only [write] at h
  split at h
  · next made place hmade =>
    split at h
    · next hname =>
      obtain ⟨hname, hfree⟩ := Bool.and_eq_true_iff.mp hname
      obtain ⟨rfl, _⟩ := Prod.mk.inj h
      exact ⟨hname, made, place, hmade, by simpa using hfree, rfl⟩
    · cases h
  · cases h

end FileTree

end RouteLinks
