import Mathlib.Data.List.Induction
import RouteLinks.Files.Path
import RouteLinks.Proofs.Text.Fields
import RouteLinks.Source.Selection
/-!
# Parts of paths

The parts of a path are those of the directory it names and then its base name. A path inside a
directory has the parts of that directory first. Generated files are told from sources by the end of
their names, which nothing that comes before can change.
-/

namespace RouteLinks

namespace Path

def counts (part : String) : Bool := !part.isEmpty && part != "."

/-! ### Parts of characters -/

theorem parts_ofList (cs : List Char) :
    parts (String.ofList cs) = ((Text.fields '/' cs).map String.ofList).filter counts := by
  rw [parts, splitAt, String.toList_ofList]
  rfl

theorem parts_append_slash (xs ys : List Char) :
    parts (String.ofList (xs ++ '/' :: ys)) =
      parts (String.ofList xs) ++ parts (String.ofList ys) := by
  rw [parts_ofList, Text.fields_append_separator, List.map_append, List.filter_append,
    ← parts_ofList, ← parts_ofList]

theorem parts_concat_slash (xs : List Char) :
    parts (String.ofList (xs ++ ['/'])) = parts (String.ofList xs) := by
  have hnone : parts (String.ofList []) = [] := by decide
  rw [parts_append_slash, hnone, List.append_nil]

theorem parts_dropEndWhile (xs : List Char) :
    parts (String.ofList (Text.dropEndWhile (· == '/') xs)) = parts (String.ofList xs) := by
  induction xs using List.reverseRecOn with
  | nil => rfl
  | append_singleton xs c ih =>
      rw [Text.dropEndWhile, List.reverse_append, List.reverse_singleton, List.singleton_append,
        List.dropWhile_cons]
      by_cases hslash : c = '/'
      · rw [hslash, if_pos (beq_self_eq_true '/'), parts_concat_slash]
        exact ih
      · simp [hslash]

theorem parts_of_not_mem {cs : List Char} (h : '/' ∉ cs) (hcounts : counts (String.ofList cs)) :
    parts (String.ofList cs) = [String.ofList cs] := by
  rw [parts_ofList, Text.fields_of_not_mem h]
  simp [hcounts]

/-! ### Directory and base name -/

theorem parts_directory {path : String} (head : List Char)
    (h : path.toList = head ++ Text.lastField '/' path.toList) :
    parts (directory path) = parts (String.ofList head) := by
  have hhead : path.toList.take (path.toList.length - (Text.lastField '/' path.toList).length) =
      head := by
    have hlength := congrArg List.length h
    rw [List.length_append] at hlength
    have hcount : path.toList.length - (Text.lastField '/' path.toList).length = head.length := by
      omega
    rw [hcount]
    conv_lhs => rw [h]
    exact List.take_left
  simp only [directory, hhead]
  split
  · rfl
  · exact parts_dropEndWhile _

theorem parts_eq_directory_baseName {path : String} (h : counts (baseName path)) :
    parts path = parts (directory path) ++ [baseName path] := by
  have hparts : parts path = parts (String.ofList path.toList) := by rw [String.ofList_toList]
  obtain ⟨hslash, hpath⟩ := Text.lastField_spec '/' path.toList
  have hlast : parts (baseName path) = [baseName path] := parts_of_not_mem hslash h
  rcases hpath with hpath | ⟨head, hpath⟩
  · rw [parts_directory [] hpath, hparts]
    conv_lhs => rw [hpath]
    exact hlast
  · have hhead : path.toList = (head ++ ['/']) ++ Text.lastField '/' path.toList := by
      rw [List.append_assoc]
      exact hpath
    rw [parts_directory _ hhead, parts_concat_slash, hparts]
    conv_lhs => rw [hpath]
    rw [parts_append_slash]
    exact congrArg _ hlast

theorem parts_join {directory path : String} (h : beginsWith path "/" = false) :
    parts (join directory path) = parts directory ++ parts path := by
  have hofList : ∀ s : String, parts (String.ofList s.toList) = parts s := by
    intro s
    rw [String.ofList_toList]
  rw [join, h, Bool.false_or]
  split
  · next hempty =>
    have hnothing : directory = "" := by simpa using hempty
    have hnone : parts "" = [] := by decide
    rw [hnothing, hnone, List.nil_append]
  · split
    · next hends =>
      obtain ⟨front, hfront⟩ := List.isSuffixOf_iff_suffix.mp hends
      have hdirectory : directory = String.ofList (front ++ ['/']) := by
        rw [← String.ofList_toList (s := directory), ← hfront]
        rfl
      rw [← hofList (directory ++ path), String.toList_append, hdirectory, String.toList_ofList,
        List.append_assoc, parts_concat_slash, ← hofList path, ← parts_append_slash]
      rfl
    · rw [← hofList (directory ++ "/" ++ path), String.toList_append, String.toList_append,
        ← hofList directory, ← hofList path, ← parts_append_slash, List.append_assoc]
      rfl

theorem toList_join (directory path : String) :
    (join directory path).toList = path.toList ∨
      ∃ front, (join directory path).toList = front ++ '/' :: path.toList := by
  rw [join]
  split
  · exact .inl rfl
  · split
    · next hends =>
      obtain ⟨front, hfront⟩ := List.isSuffixOf_iff_suffix.mp hends
      refine .inr ⟨front, ?_⟩
      rw [String.toList_append, ← hfront, List.append_assoc]
      rfl
    · refine .inr ⟨directory.toList, ?_⟩
      rw [String.toList_append, String.toList_append, List.append_assoc]
      rfl

theorem exists_toList_join (directory path : String) :
    ∃ front, (join directory path).toList = front ++ path.toList := by
  rcases toList_join directory path with h | ⟨front, h⟩
  · exact ⟨[], h⟩
  · exact ⟨front ++ ['/'], by rw [h, List.append_assoc]; rfl⟩

theorem baseName_join (directory path : String) :
    baseName (join directory path) = baseName path := by
  rcases toList_join directory path with h | ⟨front, h⟩
  · rw [baseName, h, baseName]
  · rw [baseName, h, Text.lastField_append_cons, baseName]

/-- Different paths that do not begin at the root stay different inside a directory. -/
theorem join_inj {directory path other : String} (hpath : beginsWith path "/" = false)
    (hother : beginsWith other "/" = false) (h : join directory path = join directory other) :
    path = other := by
  rw [join, join, hpath, hother, Bool.false_or] at h
  split_ifs at h
  · exact h
  · exact String.append_right_inj directory |>.mp h
  · exact String.append_right_inj (directory ++ "/") |>.mp h

/-! ### Paths of names -/

def IsName (name : String) : Prop := name ≠ "" ∧ '/' ∉ name.toList

instance (name : String) : Decidable (IsName name) := by
  unfold IsName
  infer_instance

theorem baseName_intercalate (way : List String) {name : String} (h : '/' ∉ name.toList) :
    baseName ("/".intercalate (way ++ [name])) = name := by
  by_cases hway : way = []
  · rw [hway, List.nil_append, String.intercalate_singleton, baseName, Text.lastField_of_not_mem h,
      String.ofList_toList]
  · rw [String.intercalate_append_of_ne_nil hway (List.cons_ne_nil name []),
      String.intercalate_singleton, baseName, String.toList_append, String.toList_append,
      List.append_assoc]
    exact (congrArg String.ofList (Text.lastField_append_separator h)).trans String.ofList_toList

theorem beginsWith_intercalate {names : List String} (h : ∀ name ∈ names, IsName name) :
    beginsWith ("/".intercalate names) "/" = false := by
  cases names with
  | nil => decide
  | cons name rest =>
      obtain ⟨⟨hne, hslash⟩, _⟩ := List.forall_mem_cons.mp h
      obtain ⟨c, cs, hname⟩ := List.exists_cons_of_ne_nil (mt String.toList_eq_nil_iff.mp hne)
      have hc : '/' ≠ c := by
        rintro rfl
        exact hslash (hname ▸ List.mem_cons_self)
      have hfirst : ∃ more, ("/".intercalate (name :: rest)).toList = name.toList ++ more := by
        by_cases hrest : rest = []
        · rw [hrest, String.intercalate_singleton]
          exact ⟨[], (List.append_nil _).symm⟩
        · rw [String.intercalate_cons_of_ne_nil hrest, String.toList_append, String.toList_append,
            List.append_assoc]
          exact ⟨_, rfl⟩
      obtain ⟨more, hmore⟩ := hfirst
      rw [beginsWith, hmore, hname, List.cons_append]
      show (('/' == c) && [].isPrefixOf (cs ++ more)) = false
      rw [beq_false_of_ne hc, Bool.false_and]

theorem fields_intercalate {names : List String} (hne : names ≠ [])
    (h : ∀ name ∈ names, IsName name) :
    Text.fields '/' ("/".intercalate names).toList = names.map String.toList := by
  have hslash : ∀ name ∈ names, '/' ∉ name.toList := fun name hname => (h name hname).2
  rw [String.toList_intercalate]
  exact Text.fields_intercalate (by simpa using hne) (by simpa using hslash)

theorem intercalate_inj {names others : List String} (h : ∀ name ∈ names, IsName name)
    (hothers : ∀ name ∈ others, IsName name) :
    "/".intercalate names = "/".intercalate others ↔ names = others := by
  -- No names give the empty path, which would have one field, an empty one.
  have hempty : ∀ {ns : List String}, (∀ name ∈ ns, IsName name) →
      "/".intercalate ns = "/".intercalate [] → ns = [] := by
    intro ns hns hsame
    by_contra hne
    have hfields := fields_intercalate hne hns
    rw [hsame] at hfields
    obtain ⟨name, rfl, hname⟩ := List.map_eq_singleton_iff.mp hfields.symm
    exact (hns name (List.mem_singleton_self _)).1 (String.toList_eq_nil_iff.mp hname)
  refine ⟨fun hsame => ?_, congrArg _⟩
  by_cases hnone : names = []
  · subst hnone
    exact (hempty hothers hsame.symm).symm
  by_cases hnone' : others = []
  · subst hnone'
    exact hempty h hsame
  have hfields := fields_intercalate hnone h
  rw [hsame, fields_intercalate hnone' hothers] at hfields
  exact (List.map_injective_iff.mpr (fun _ _ => String.toList_injective) hfields).symm

end Path

end RouteLinks
