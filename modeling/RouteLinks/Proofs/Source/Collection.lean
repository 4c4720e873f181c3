import RouteLinks.Proofs.Files.Walk
import RouteLinks.Proofs.Text.LowerCase
import RouteLinks.Source.Collection
/-!
# What a write does to the sources

Generated files are told from sources by the end of their names, and an empty directory holds no
source. So whatever a run puts into a tree, the sources that are read from it afterwards are those
that were read before.
-/

namespace RouteLinks

namespace Source

theorem isHandWritten_of_toList_eq {name : String} (front : List Char)
    (h : name.toList = front ++ generatedSuffix.toList) : isHandWritten name = false := by
  have hsuffix : ∀ before, Unicode.lowerFrom before generatedSuffix.toList =
      generatedSuffix.toList := Unicode.lowerFrom_eq_self (by decide)
  obtain ⟨start, hstart⟩ := Unicode.lowerFrom_append [] front generatedSuffix.toList
  rw [hsuffix] at hstart
  have hends : endsWith (Unicode.toLower name) generatedSuffix = true := by
    rw [endsWith, Unicode.toLower, String.toList_ofList, h, hstart, List.isSuffixOf_iff_suffix]
    exact List.suffix_append _ _
  rw [isHandWritten, hends]
  rfl

theorem isHandWritten_baseName {path : String} (front : List Char)
    (h : path.toList = front ++ generatedSuffix.toList) :
    isHandWritten (Path.baseName path) = false := by
  apply isHandWritten_of_toList_eq (Text.lastField '/' front)
  rw [Path.baseName, String.toList_ofList, h]
  exact Text.lastField_append (by decide)

/-! ### The sources of single entries -/

def ofEntry (place : Place) : String × FileTree → List (Place × Bytes)
  | (name, .file content) => if isHandWritten name then [(place ++ [name], content)] else []
  | (_, .directory _) => []

def inEntry (place : Place) (entry : String × FileTree) : List (Place × Bytes) :=
  if entry.2.isDirectory && !isSkippedDirectory entry.1 then
    filesIn (place ++ [entry.1]) entry.2
  else []

theorem filesAmong_eq (place : Place) (es : List (String × FileTree)) :
    filesAmong place es = es.flatMap (ofEntry place) := by
  induction es with
  | nil => rfl
  | cons entry rest ih =>
      obtain ⟨name, content | es⟩ := entry
      · rw [filesAmong, List.flatMap_cons, ofEntry, ih]
        split <;> rfl
      · exact ih

theorem filesBelow_eq (place : Place) (es : List (String × FileTree)) :
    filesBelow place es = es.flatMap (inEntry place) := by
  induction es with
  | nil => rfl
  | cons entry rest ih =>
      obtain ⟨name, entry⟩ := entry
      rw [filesBelow, List.flatMap_cons, inEntry, ih]
      split <;> rfl

theorem filesIn_sorted (place : Place) (es : List (String × FileTree)) :
    filesIn place (FileTree.directory es).sorted =
      (sortBy FileTree.byName es).flatMap (fun e => ofEntry place (FileTree.sortedEntry e)) ++
        (sortBy FileTree.byName es).flatMap fun e => inEntry place (FileTree.sortedEntry e) := by
  rw [FileTree.sorted_directory, filesIn, filesAmong_eq, filesBelow_eq, List.flatMap_map,
    List.flatMap_map]

/-- Entries of one name with the same sources, wherever they are. -/
structure Alike (a b : String × FileTree) : Prop where
  name : b.1 = a.1
  isSource : ∀ place,
    ofEntry place (FileTree.sortedEntry b) = ofEntry place (FileTree.sortedEntry a)
  holds : ∀ place, inEntry place (FileTree.sortedEntry b) = inEntry place (FileTree.sortedEntry a)

theorem Alike.refl (a : String × FileTree) : Alike a a :=
  ⟨rfl, fun _ => rfl, fun _ => rfl⟩

theorem filesIn_sorted_congr {es es' : List (String × FileTree)} (h : List.Forall₂ Alike es es')
    (place : Place) :
    filesIn place (FileTree.directory es').sorted =
      filesIn place (FileTree.directory es).sorted := by
  have hsorted : List.Forall₂ Alike (sortBy FileTree.byName es) (sortBy FileTree.byName es') := by
    apply forall₂_sortBy _ h
    intro a a' b b' ha hb
    rw [FileTree.byName, FileTree.byName, ha.name, hb.name]
  rw [filesIn_sorted, filesIn_sorted,
    flatMap_eq_of_forall₂ hsorted fun a b hab => hab.isSource place,
    flatMap_eq_of_forall₂ hsorted fun a b hab => hab.holds place]

theorem filesIn_sorted_append {entry : String × FileTree}
    (hsource : ∀ place, ofEntry place (FileTree.sortedEntry entry) = [])
    (hholds : ∀ place, inEntry place (FileTree.sortedEntry entry) = [])
    (es : List (String × FileTree)) (place : Place) :
    filesIn place (FileTree.directory (es ++ [entry])).sorted =
      filesIn place (FileTree.directory es).sorted := by
  rw [filesIn_sorted, filesIn_sorted, sortBy_append_singleton,
    flatMap_insertBy_of_eq_nil (f := fun e => ofEntry place (FileTree.sortedEntry e))
      (hsource place),
    flatMap_insertBy_of_eq_nil (f := fun e => inEntry place (FileTree.sortedEntry e))
      (hholds place)]

/-- What can be put at a place without adding a source: a generated file, or a new directory. -/
inductive Quiet (t : FileTree) (place : Place) (name : String) : FileTree → Prop where
  | generated (content : Bytes) (hname : isHandWritten name = false) :
    Quiet t place name (.file content)
  | directory (hnone : t.get? (place ++ [name]) = none) : Quiet t place name .empty

namespace Quiet

variable {t entry : FileTree} {place : Place} {name : String}

theorem ofEntry_eq_nil (h : Quiet t place name entry) (around : Place) :
    ofEntry around (FileTree.sortedEntry (name, entry)) = [] := by
  cases h with
  | generated content hname => simp [FileTree.sortedEntry, FileTree.sorted, ofEntry, hname]
  | directory => rfl

theorem inEntry_eq_nil (h : Quiet t place name entry) (around : Place) :
    inEntry around (FileTree.sortedEntry (name, entry)) = [] := by
  cases h with
  | generated content hname => rfl
  | directory =>
      rw [inEntry]
      split <;> rfl

theorem isHandWritten_eq_false (h : Quiet t place name entry)
    (hpresent : (t.get? (place ++ [name])).isSome) : isHandWritten name = false := by
  cases h with
  | generated content hname => exact hname
  | directory hnone =>
      rw [hnone] at hpresent
      cases hpresent

theorem within {other way : Place} {d : FileTree} (h : Quiet t (other ++ way) name entry)
    (hother : t.get? other = some d) : Quiet d way name entry := by
  cases h with
  | generated content hname => exact .generated content hname
  | directory hnone =>
      rw [List.append_assoc, FileTree.get?_append, hother] at hnone
      exact .directory hnone

end Quiet

theorem ofEntry_eq_nil_of_isDirectory {entry : String × FileTree}
    (h : entry.2.isDirectory = true) (place : Place) : ofEntry place entry = [] := by
  obtain ⟨name, content | es⟩ := entry
  · cases h
  · rfl

/-- What is quiet adds no source to any directory around it. -/
theorem filesIn_sorted_put {t entry : FileTree} {place : Place} {name : String}
    (h : t.Addable place name) (hquiet : Quiet t place name entry) (around : Place) :
    filesIn around (t.put entry (place ++ [name])).sorted = filesIn around t.sorted := by
  induction h using FileTree.Addable.induct generalizing around with
  | new es h hnone =>
      rw [List.nil_append, FileTree.put_directory_singleton, upsert_of_lookup_eq_none hnone]
      exact filesIn_sorted_append hquiet.ofEntry_eq_nil hquiet.inEntry_eq_nil es around
  | present es content h hentry =>
      have hpresent : ((FileTree.directory es).get? ([] ++ [name])).isSome := by
        rw [List.nil_append, FileTree.get?_directory_cons, hentry]
        rfl
      have hold : Quiet (.directory es) [] name (.file content) :=
        .generated content (hquiet.isHandWritten_eq_false hpresent)
      rw [List.nil_append, FileTree.put_directory_singleton]
      refine filesIn_sorted_congr (forall₂_upsert Alike.refl ⟨rfl, ?_, ?_⟩ hentry) around
      all_goals intro around
      · rw [hquiet.ofEntry_eq_nil, hold.ofEntry_eq_nil]
      · rw [hquiet.inEntry_eq_nil, hold.inEntry_eq_nil]
  | below es step rest inner h hinner hentry ih =>
      have hdirectory : ((FileTree.directory inner).put entry (rest ++ [name])).isDirectory =
          true := FileTree.isDirectory_put (by simp)
      have hstep : (FileTree.directory es).get? [step] = some (.directory inner) := by
        rw [FileTree.get?_directory_cons, hentry]
        rfl
      have hquiet' : Quiet (.directory es) ([step] ++ rest) name entry := hquiet
      have hfiles := ih (hquiet'.within hstep)
      rw [List.cons_append, FileTree.put_directory_cons]
      refine filesIn_sorted_congr (forall₂_upsert Alike.refl ⟨rfl, ?_, ?_⟩ hentry) around
      all_goals intro around
      · rw [ofEntry_eq_nil_of_isDirectory, ofEntry_eq_nil_of_isDirectory]
        · rfl
        · exact (FileTree.isDirectory_sorted _).trans hdirectory
      · show inEntry around
          (FileTree.sortedEntry (step, (FileTree.directory inner).put entry (rest ++ [name]))) = _
        simp only [inEntry, FileTree.sortedEntry, FileTree.isDirectory_sorted, hdirectory, hfiles]
        rfl

end Source

end RouteLinks
