import RouteLinks.Proofs.Source.Collection
/-!
# Trees in which files are generated

Bringing a generated file to its content leaves directories directories and files files, and the
sources of every directory are what they were. Where a path led before, it leads afterwards. A path
that leads to a file can be written again, and then nothing is made on the way.
-/

namespace RouteLinks.FileTree

variable {t t' made entry d : FileTree} {place other here way : Place} {name path : String}
  {content old : Bytes} {steps : List String}

/-- A tree after a run has put something into it. -/
structure Grows (t t' : FileTree) : Prop where
  directory : ∀ place, t.hasDirectory place = true → t'.hasDirectory place = true
  file : ∀ place content, t.get? place = some (.file content) →
    ∃ content', t'.get? place = some (.file content')
  sources : ∀ place d, t.get? place = some d → ∃ d', t'.get? place = some d' ∧
    ∀ around, Source.filesIn around d'.sorted = Source.filesIn around d.sorted

namespace Grows

theorem refl (t : FileTree) : t.Grows t :=
  ⟨fun _ h => h, fun _ content h => ⟨content, h⟩, fun _ d h => ⟨d, h, fun _ => rfl⟩⟩

theorem trans (h : t.Grows made) (h' : made.Grows t') : t.Grows t' where
  directory place hplace := h'.directory place (h.directory place hplace)
  file place content hplace := by
    obtain ⟨content', hfile⟩ := h.file place content hplace
    exact h'.file place content' hfile
  sources place d hplace := by
    obtain ⟨d₁, hd₁, hsame₁⟩ := h.sources place d hplace
    obtain ⟨d₂, hd₂, hsame₂⟩ := h'.sources place d₁ hd₁
    exact ⟨d₂, hd₂, fun around => (hsame₂ around).trans (hsame₁ around)⟩

theorem isSome_get? (h : t.Grows t') (hplace : (t.get? place).isSome) : (t'.get? place).isSome := by
  obtain ⟨d, hd⟩ := Option.isSome_iff_exists.mp hplace
  obtain ⟨d', hd', _⟩ := h.sources place d hd
  rw [hd']
  rfl

theorem walk?_eq_some (h : t.Grows t') (hwalk : t.walk? here steps = some place) :
    t'.walk? here steps = some place := by
  induction steps generalizing here with
  | nil => exact hwalk
  | cons step rest ih =>
      rw [walk?] at hwalk ⊢
      cases hhere : t.hasDirectory here with
      | false => simp [hhere] at hwalk
      | true =>
          rw [hhere] at hwalk
          rw [h.directory here hhere]
          by_cases hup : step == ".."
          · simp only [Bool.not_true, Bool.false_eq_true, if_false, hup, if_true] at hwalk ⊢
            exact ih hwalk
          · simp only [Bool.not_true, Bool.false_eq_true, if_false, hup] at hwalk ⊢
            split at hwalk
            · next hpresent =>
              rw [if_pos (h.isSome_get? hpresent)]
              exact ih hwalk
            · cases hwalk

theorem isSome_directory? (h : t.Grows t') (hpath : (t.directory? path).isSome) :
    (t'.directory? path).isSome := by
  obtain ⟨d, hd⟩ := Option.isSome_iff_exists.mp hpath
  obtain ⟨place, hfind, hdirectory, hget⟩ := directory?_eq_some_iff.mp hd
  obtain ⟨d', hget', _⟩ := h.sources place d hget
  rw [directory?_eq_some_iff.mpr
    ⟨place, h.walk?_eq_some hfind, h.directory place hdirectory, hget'⟩]
  rfl

theorem find?_eq_some (h : t.Grows t') (hfind : t.find? path = some place) :
    t'.find? path = some place :=
  h.walk?_eq_some hfind

theorem isSome_read? (h : t.Grows t') (hread : (t.read? path).isSome) : (t'.read? path).isSome := by
  obtain ⟨content, hcontent⟩ := Option.isSome_iff_exists.mp hread
  obtain ⟨place, hfind, hfile⟩ := read?_eq_some_iff.mp hcontent
  obtain ⟨content', hfile'⟩ := h.file place content hfile
  rw [read?_eq_some_iff.mpr ⟨place, h.find?_eq_some hfind, hfile'⟩]
  rfl

end Grows

/-! ### One entry -/

namespace Addable

theorem hasDirectory_put_of_around (h : t.Addable place name) (hother : other <+: place) :
    (t.put entry (place ++ [name])).hasDirectory other = true := by
  obtain ⟨way, rfl⟩ := hother
  obtain ⟨es, hes⟩ := hasDirectory_iff.mp (hasDirectory_of_append h.around)
  rw [hasDirectory, List.append_assoc, get?_put_append hes]
  exact isDirectory_put (by simp)

theorem get?_put_eq_file_iff (h : t.Addable place name) (hquiet : Source.Quiet t place name entry)
    (hne : other ≠ place ++ [name]) :
    (t.put entry (place ++ [name])).get? other = some (.file content) ↔
      t.get? other = some (.file content) := by
  by_cases haround : other <+: place
  · have hbefore : t.hasDirectory other = true := by
      obtain ⟨way, rfl⟩ := haround
      exact hasDirectory_of_append h.around
    constructor <;> intro hfile
    · exact absurd hfile (ne_file_of_hasDirectory (h.hasDirectory_put_of_around haround))
    · exact absurd hfile (ne_file_of_hasDirectory hbefore)
  by_cases hat : place ++ [name] <+: other
  · obtain ⟨more, rfl⟩ := hat
    obtain ⟨step, rest, rfl⟩ := List.exists_cons_of_ne_nil
      (fun hnil => hne (by rw [hnil, List.append_nil]) : more ≠ [])
    constructor <;> intro hfile
    · rw [get?_append, get?_put_self h.around] at hfile
      cases hquiet <;> cases hfile
    · have hdirectory := hasDirectory_of_get?_append (t := t) (List.cons_ne_nil step rest)
        (by rw [hfile]; rfl)
      rw [h.free] at hdirectory
      cases hdirectory
  · have hapart : ¬ other <+: place ++ [name] := by
      intro hother
      rcases List.prefix_concat_iff.mp hother with hsame | hway
      · exact hne hsame
      · exact haround hway
    rw [get?_put_of_apart hat hapart]

theorem grows (h : t.Addable place name) (hquiet : Source.Quiet t place name entry) :
    t.Grows (t.put entry (place ++ [name])) where
  directory other hother := by
    obtain ⟨es, hes⟩ := hasDirectory_iff.mp hother
    rcases h.cases_of_get? hes with ⟨way, rfl⟩ | rfl | ⟨hat, haround⟩
    · exact h.hasDirectory_put_of_around ⟨way, rfl⟩
    · rw [h.free] at hother
      cases hother
    · rw [hasDirectory, get?_put_of_apart hat haround]
      exact hother
  file other content hfile := by
    by_cases hsame : other = place ++ [name]
    · subst hsame
      cases hquiet with
      | generated new _ => exact ⟨new, get?_put_self h.around⟩
      | directory hnone =>
          rw [hnone] at hfile
          cases hfile
    · exact ⟨content, (h.get?_put_eq_file_iff hquiet hsame).mpr hfile⟩
  sources other d hother := by
    rcases h.cases_of_get? hother with ⟨way, rfl⟩ | rfl | ⟨hat, haround⟩
    · rw [List.append_assoc]
      refine ⟨_, get?_put_append hother, ?_⟩
      exact Source.filesIn_sorted_put (h.within hother) (hquiet.within hother)
    · refine ⟨entry, get?_put_self h.around, ?_⟩
      intro around
      have hd : d.isDirectory = false := by
        have hfree := h.free
        rwa [hasDirectory, hother] at hfree
      cases hquiet with
      | generated new _ =>
          cases d with
          | file old => rfl
          | directory es => cases hd
      | directory hnone =>
          rw [hnone] at hother
          cases hother
    · exact ⟨d, by rw [get?_put_of_apart hat haround, hother], fun _ => rfl⟩

end Addable

/-! ### Directories on a way -/

/-- What comes of making the directories on a way: they are there, files are the same, and the way
leads through. -/
structure MadeWay (t made : FileTree) (here : Place) (steps : List String) (place : Place) :
    Prop where
  grows : t.Grows made
  files : ∀ other content, made.get? other = some (.file content) ↔
    t.get? other = some (.file content)
  isDirectory : made.hasDirectory place = true
  leads : made.walk? here steps = some place

theorem walk?_cons (hhere : t.hasDirectory here = true) (hup : (name == "..") = false)
    (hstep : t.hasDirectory (here ++ [name]) = true) :
    t.walk? here (name :: steps) = t.walk? (here ++ [name]) steps := by
  obtain ⟨es, hes⟩ := hasDirectory_iff.mp hstep
  simp [walk?, hhere, hup, hes]

theorem madeWay_of_makeDirectories (hhere : t.hasDirectory here = true)
    (h : t.makeDirectories here steps = (made, some place)) : t.MadeWay made here steps place := by
  induction steps generalizing t here with
  | nil =>
      cases h
      exact ⟨.refl made, fun _ _ => .rfl, hhere, rfl⟩
  | cons step rest ih =>
      rw [makeDirectories] at h
      cases hup : step == ".." with
      | true =>
          rw [hup, if_pos rfl] at h
          have hrest := ih (hasDirectory_dropLast hhere) h
          refine ⟨hrest.grows, hrest.files, hrest.isDirectory, ?_⟩
          simp only [walk?, hrest.grows.directory here hhere, hup, Bool.not_true, if_true,
            Bool.false_eq_true, if_false]
          exact hrest.leads
      | false =>
          rw [hup, if_neg Bool.false_ne_true] at h
          split at h
          · next es hes =>
            have hdirectory : t.hasDirectory (here ++ [step]) = true :=
              hasDirectory_iff.mpr ⟨es, hes⟩
            have hrest := ih hdirectory h
            refine ⟨hrest.grows, hrest.files, hrest.isDirectory, ?_⟩
            rw [walk?_cons (hrest.grows.directory _ hhere) hup (hrest.grows.directory _ hdirectory)]
            exact hrest.leads
          · cases h
          · next hnone =>
            split at h
            · cases h
            · have hadd : t.Addable here step := ⟨hhere, by rw [hasDirectory, hnone]; rfl⟩
              have hgrows : t.Grows (t.put empty (here ++ [step])) :=
                hadd.grows (.directory hnone)
              have hdirectory : (t.put empty (here ++ [step])).hasDirectory (here ++ [step]) =
                  true := hasDirectory_iff.mpr ⟨[], get?_put_self hhere⟩
              have hrest := ih hdirectory h
              have hboth := hgrows.trans hrest.grows
              refine ⟨hboth, ?_, hrest.isDirectory, ?_⟩
              · intro other content
                rw [hrest.files]
                by_cases hsame : other = here ++ [step]
                · rw [hsame, get?_put_self hhere, hnone]
                  constructor <;> intro hfile <;> cases hfile
                · exact hadd.get?_put_eq_file_iff (.directory hnone) hsame
              · rw [walk?_cons (hboth.directory _ hhere) hup (hrest.grows.directory _ hdirectory)]
                exact hrest.leads

theorem makeDirectories_eq_self (hhere : t.hasDirectory here = true)
    (hplace : t.hasDirectory place = true) (h : t.walk? here steps = some place) :
    t.makeDirectories here steps = (t, some place) := by
  induction steps generalizing here with
  | nil =>
      cases h
      rfl
  | cons step rest ih =>
      rw [makeDirectories]
      rw [walk?, hhere] at h
      cases hup : step == ".." with
      | true =>
          simp only [hup, Bool.not_true, Bool.false_eq_true, if_false, if_true] at h ⊢
          exact ih (hasDirectory_dropLast hhere) h
      | false =>
          simp only [hup, Bool.not_true, Bool.false_eq_true, if_false] at h ⊢
          split at h
          · cases hstep : t.get? (here ++ [step]) with
            | none => simp [hstep] at *
            | some entry =>
                cases entry with
                | directory es => exact ih (hasDirectory_iff.mpr ⟨es, hstep⟩) h
                | file content =>
                    have hfalse : t.hasDirectory (here ++ [step]) = false := by
                      rw [hasDirectory, hstep]
                      rfl
                    cases rest with
                    | nil =>
                        cases h
                        rw [hfalse] at hplace
                        cases hplace
                    | cons next more => simp [walk?, hfalse] at h
          · cases h

/-! ### One file -/

structure Persisted (t t' : FileTree) (path : String) (content : Bytes) : Prop where
  grows : t.Grows t'
  holds : t'.holds path content = true
  /-- The files that the path does not lead to are those that were there. -/
  elsewhere : ∀ other old, t'.find? path ≠ some other →
    (t'.get? other = some (.file old) ↔ t.get? other = some (.file old))

theorem persist_eq_some {done : Bool} (h : t.persist path content = (t', some done)) :
    (t.holds path content = true ∧ t' = t) ∨ t.write path content = (t', some ()) := by
  rw [persist] at h
  split at h
  · next hholds => exact .inl ⟨hholds, (Prod.mk.inj h).1.symm⟩
  · cases hwrite : t.write path content with
    | mk written result =>
        rw [hwrite] at h
        cases result with
        | none => cases h
        | some done =>
            obtain ⟨rfl, _⟩ := Prod.mk.inj h
            exact .inr rfl

theorem persist_eq_self_iff :
    t.persist path content = (t, some false) ↔ t.holds path content = true := by
  rw [persist]
  split
  · next hholds => simp [hholds]
  · next hholds =>
    rcases t.write path content with ⟨written, done⟩
    cases done <;> simp [hholds]

theorem persisted_of_persist (hroot : t.hasDirectory [] = true)
    (hname : Source.isHandWritten (Path.baseName path) = false) {done : Bool}
    (h : t.persist path content = (t', some done)) : t.Persisted t' path content := by
  rcases persist_eq_some h with ⟨hholds, rfl⟩ | hwrite
  · exact ⟨.refl t', hholds, fun _ _ _ => .rfl⟩
  · obtain ⟨hfileName, made, place, hmake, hfree, rfl⟩ := write_eq_some hwrite
    have hmade := madeWay_of_makeDirectories hroot hmake
    have hadd : made.Addable place (Path.baseName path) := ⟨hmade.isDirectory, hfree⟩
    have hput : made.Grows (made.put (.file content) (place ++ [Path.baseName path])) :=
      hadd.grows (.generated content hname)
    have hself : (made.put (.file content) (place ++ [Path.baseName path])).get?
        (place ++ [Path.baseName path]) = some (.file content) := get?_put_self hmade.isDirectory
    have hfind : (made.put (.file content) (place ++ [Path.baseName path])).find? path =
        some (place ++ [Path.baseName path]) := by
      refine (find?_eq_some_iff hfileName).mpr ⟨place, hput.walk?_eq_some hmade.leads,
        hput.directory place hmade.isDirectory, ?_, rfl⟩
      rw [hself]
      rfl
    refine ⟨hmade.grows.trans hput, ?_, ?_⟩
    · exact holds_iff.mpr ⟨hfileName, read?_eq_some_iff.mpr ⟨_, hfind, hself⟩⟩
    · intro other old hne
      rw [← hmade.files]
      refine hadd.get?_put_eq_file_iff (.generated content hname) ?_
      rintro rfl
      exact hne hfind

theorem put_of_persist (hroot : t.hasDirectory [] = true) (hplace : t.hasDirectory place = true)
    (hwalk : t.walk? [] (Path.parts (Path.directory path)) = some place) {done : Bool}
    (h : t.persist path content = (t', some done)) :
    t' = t ∨ t.Addable place (Path.baseName path) ∧
      t' = t.put (.file content) (place ++ [Path.baseName path]) := by
  rcases persist_eq_some h with ⟨_, hsame⟩ | hwrite
  · exact .inl hsame
  · obtain ⟨_, made, other, hmake, hfree, rfl⟩ := write_eq_some hwrite
    rw [makeDirectories_eq_self hroot hplace hwalk] at hmake
    obtain ⟨rfl, hother⟩ := Prod.mk.inj hmake
    cases hother
    exact .inr ⟨⟨hplace, hfree⟩, rfl⟩

theorem exists_persist (hname : isFileName (Path.baseName path) = true)
    (hadd : t.Addable place (Path.baseName path))
    (hwalk : t.walk? [] (Path.parts (Path.directory path)) = some place) (content : Bytes) :
    ∃ t' done, t.persist path content = (t', some done) ∧
      (t' = t ∨ t' = t.put (.file content) (place ++ [Path.baseName path])) := by
  have hroot : t.hasDirectory [] = true := hasDirectory_nil hadd.around
  rw [persist]
  split
  · exact ⟨t, false, rfl, .inl rfl⟩
  · have hwrite : t.write path content =
        (t.put (.file content) (place ++ [Path.baseName path]), some ()) := by
      simp [write, makeDirectories_eq_self hroot hadd.around hwalk, hname, hadd.free]
    rw [hwrite]
    exact ⟨_, true, rfl, .inr rfl⟩

theorem exists_addable_of_read? (hname : isFileName (Path.baseName path) = true)
    (hread : (t.read? path).isSome) : ∃ place, t.Addable place (Path.baseName path) ∧
      t.walk? [] (Path.parts (Path.directory path)) = some place ∧
        (t.get? (place ++ [Path.baseName path])).isSome := by
  obtain ⟨old, hcontent⟩ := Option.isSome_iff_exists.mp hread
  obtain ⟨q, hfind, hold⟩ := read?_eq_some_iff.mp hcontent
  obtain ⟨place, hwalk, hplace, hpresent, rfl⟩ := (find?_eq_some_iff hname).mp hfind
  have hfree : t.hasDirectory (place ++ [Path.baseName path]) = false := by
    rw [hasDirectory, hold]
    rfl
  exact ⟨place, ⟨hplace, hfree⟩, hwalk, hpresent⟩

end RouteLinks.FileTree
