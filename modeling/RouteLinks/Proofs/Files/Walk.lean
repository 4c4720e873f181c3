import Mathlib.Data.List.Nodup
import RouteLinks.Proofs.Files.Tree
import RouteLinks.Proofs.Order
/-!
# Walks through a tree

A directory lists its entries in some order, each name once. Sorting is one way to list them again,
and whatever is asked of a tree by the names on the way has the same answer then. A walk visits the
directories whose names all qualify: each of them once, and a place tells what it finds there.
-/

namespace RouteLinks

namespace FileTree

variable {t listed : FileTree}

/-! ### Entries in order -/

def sortedEntry (entry : String × FileTree) : String × FileTree := (entry.1, entry.2.sorted)

theorem sortedEntries_eq (es : List (String × FileTree)) :
    sortedEntries es = es.map sortedEntry := by
  induction es with
  | nil => rfl
  | cons entry rest ih => rw [sortedEntries, ih, List.map_cons, sortedEntry]

def byName (a b : String × FileTree) : Bool := precedes a.1 b.1

theorem sorted_directory (es : List (String × FileTree)) :
    (directory es).sorted = .directory ((sortBy byName es).map sortedEntry) := by
  rw [sorted, sortedEntries_eq, sortBy_map]
  rfl

theorem isDirectory_sorted (t : FileTree) : t.sorted.isDirectory = t.isDirectory := by
  cases t <;> rfl

/-- Every entry has a name that can be a part of a path. -/
inductive IsNamed : FileTree → Prop
  | file (content : Bytes) : IsNamed (.file content)
  | directory {es : List (String × FileTree)} (names : ∀ e ∈ es, Path.IsName e.1)
      (entries : ∀ e ∈ es, IsNamed e.2) : IsNamed (.directory es)

/-- No directory lists a name twice. -/
inductive NamesOnce : FileTree → Prop
  | file (content : Bytes) : NamesOnce (.file content)
  | directory {es : List (String × FileTree)} (names : (es.map Prod.fst).Nodup)
      (entries : ∀ e ∈ es, NamesOnce e.2) : NamesOnce (.directory es)

/-- The same tree, where each directory lists its entries in an order of its own. -/
inductive Relisted : FileTree → FileTree → Prop
  | file (content : Bytes) : Relisted (.file content) (.file content)
  | directory {es es' : List (String × FileTree)}
      (names : (es'.map Prod.fst).Perm (es.map Prod.fst))
      (entries : ∀ name x y, (name, x) ∈ es → (name, y) ∈ es' → Relisted x y) :
      Relisted (.directory es) (.directory es')

theorem NamesOnce.relisted_self (h : t.NamesOnce) : t.Relisted t := by
  induction h with
  | file content => exact .file content
  | @directory es names entries ih =>
      refine .directory (.refl _) fun name x y hx hy => ?_
      rw [← eq_of_mem_of_nodup names hx hy]
      exact ih _ hx

theorem NamesOnce.relisted_sorted (h : t.NamesOnce) : t.Relisted t.sorted := by
  induction h with
  | file content => exact .file content
  | @directory es names entries ih =>
      rw [sorted_directory]
      have hsorted : ((sortBy byName es).map sortedEntry).map Prod.fst =
          (sortBy byName es).map Prod.fst := by
        rw [List.map_map]
        rfl
      refine .directory (hsorted ▸ (sortBy_perm byName es).map Prod.fst) ?_
      intro name x y hx hy
      obtain ⟨⟨other, z⟩, hz, hentry⟩ := List.mem_map.mp hy
      obtain ⟨rfl, rfl⟩ := Prod.mk.inj hentry
      rw [← eq_of_mem_of_nodup names hx ((sortBy_perm byName es).mem_iff.mp hz)]
      exact ih _ hx

namespace Relisted

theorem of_perm {es es' : List (String × FileTree)} (honce : (FileTree.directory es).NamesOnce)
    (h : es'.Perm es) : (FileTree.directory es).Relisted (.directory es') := by
  have hself := honce.relisted_self
  cases hself with
  | directory _ entries =>
      exact .directory (h.map Prod.fst) fun name x y hx hy =>
        entries name x y hx (h.mem_iff.mp hy)

theorem exists_entry {es es' : List (String × FileTree)}
    (names : (es'.map Prod.fst).Perm (es.map Prod.fst)) {e : String × FileTree} (he : e ∈ es') :
    ∃ x, (e.1, x) ∈ es := by
  obtain ⟨⟨name, x⟩, hx, hname⟩ := List.mem_map.mp (names.mem_iff.mp (List.mem_map_of_mem he))
  exact ⟨x, hname ▸ hx⟩

theorem namesOnce (h : t.Relisted listed) (honce : t.NamesOnce) : listed.NamesOnce := by
  induction h with
  | file content => exact .file content
  | directory names _ ih =>
      cases honce with
      | directory hnodup hentries =>
          refine .directory (names.nodup_iff.mpr hnodup) fun e he => ?_
          obtain ⟨x, hx⟩ := exists_entry names he
          exact ih e.1 x e.2 hx he (hentries _ hx)

theorem isNamed (h : t.Relisted listed) (hnamed : t.IsNamed) : listed.IsNamed := by
  induction h with
  | file content => exact .file content
  | directory names _ ih =>
      cases hnamed with
      | directory hnames hentries =>
          refine .directory (fun e he => ?_) fun e he => ?_
          all_goals obtain ⟨x, hx⟩ := exists_entry names he
          · exact hnames (e.1, x) hx
          · exact ih e.1 x e.2 hx he (hentries _ hx)

/-- At each place there is the same in both, up to the order of entries. -/
theorem rel_get? (h : t.Relisted listed) (honce : t.NamesOnce) (place : Place) :
    Option.Rel Relisted (t.get? place) (listed.get? place) := by
  induction h generalizing place with
  | file content =>
      cases place with
      | nil => exact .some (.file content)
      | cons name rest => exact .none
  | @directory es es' names entries ih =>
      cases place with
      | nil => exact .some (.directory names entries)
      | cons name rest =>
          have hlisted := (Relisted.directory names entries).namesOnce honce
          cases honce with
          | directory hnodup hentries =>
              cases hlisted with
              | directory hnodup' _ =>
                  rw [get?_directory_cons, get?_directory_cons]
                  cases hx : es.lookup name with
                  | none =>
                      have hnone : es'.lookup name = none := by
                        rw [List.lookup_eq_none_iff] at hx ⊢
                        intro e he
                        obtain ⟨x, hx'⟩ := exists_entry names he
                        exact hx (e.1, x) hx'
                      rw [hnone]
                      exact .none
                  | some x =>
                      have hmem := (lookup_eq_some_iff_of_nodup hnodup).mp hx
                      obtain ⟨⟨_, y⟩, hy, rfl⟩ := List.mem_map.mp
                        (names.mem_iff.mpr (List.mem_map_of_mem hmem))
                      rw [(lookup_eq_some_iff_of_nodup hnodup').mpr hy]
                      exact ih _ x y hmem hy (hentries _ hmem) rest

theorem get?_eq_file_iff (h : t.Relisted listed) (honce : t.NamesOnce) {place : Place}
    {content : Bytes} :
    listed.get? place = some (.file content) ↔ t.get? place = some (.file content) := by
  have hrel := h.rel_get? honce place
  generalize t.get? place = found, listed.get? place = found' at hrel
  cases hrel with
  | none => simp
  | some hentry =>
      cases hentry with
      | file => exact .rfl
      | directory => simp

theorem hasDirectory_eq (h : t.Relisted listed) (honce : t.NamesOnce) (place : Place) :
    listed.hasDirectory place = t.hasDirectory place := by
  have hrel := h.rel_get? honce place
  rw [hasDirectory, hasDirectory]
  generalize t.get? place = found, listed.get? place = found' at hrel
  cases hrel with
  | none => rfl
  | some hentry => cases hentry <;> rfl

end Relisted

/-! ### Names on a way -/

theorem NamesOnce.of_get? (h : t.NamesOnce) {way : Place} {d : FileTree}
    (hget : t.get? way = some d) : d.NamesOnce := by
  induction h generalizing way with
  | file content =>
      cases way <;> cases hget
      exact .file content
  | @directory es names entries ih =>
      cases way with
      | nil =>
          cases hget
          exact .directory names entries
      | cons name rest =>
          rw [get?_directory_cons] at hget
          obtain ⟨entry, hentry, hget⟩ := Option.bind_eq_some_iff.mp hget
          exact ih _ ((lookup_eq_some_iff_of_nodup names).mp hentry) hget

theorem get?_concat_eq_some_iff (h : t.NamesOnce) {way : Place} {name : String}
    {entry : FileTree} :
    t.get? (way ++ [name]) = some entry ↔
      ∃ es, t.get? way = some (.directory es) ∧ (name, entry) ∈ es := by
  rw [get?_append]
  constructor
  · intro hget
    obtain ⟨d, hd, hentry⟩ := Option.bind_eq_some_iff.mp hget
    cases d with
    | file content => cases hentry
    | directory es =>
        obtain ⟨_, hlookup, hsame⟩ := Option.bind_eq_some_iff.mp hentry
        cases hsame
        cases h.of_get? hd with
        | directory names _ => exact ⟨es, hd, (lookup_eq_some_iff_of_nodup names).mp hlookup⟩
  · rintro ⟨es, hd, he⟩
    cases h.of_get? hd with
    | directory names _ =>
        rw [hd, Option.bind_some, get?_directory_cons,
          (lookup_eq_some_iff_of_nodup names).mpr he]
        rfl

theorem mem_entries_iff (h : t.NamesOnce) {way : Place} {es : List (String × FileTree)}
    (hes : t.get? way = some (.directory es)) {name : String} {entry : FileTree} :
    (name, entry) ∈ es ↔ t.get? (way ++ [name]) = some entry := by
  rw [get?_concat_eq_some_iff h, hes]
  simp

theorem IsNamed.isName_of_get? (h : t.IsNamed) {way : Place} (hget : (t.get? way).isSome) :
    ∀ name ∈ way, Path.IsName name := by
  induction h generalizing way with
  | file content =>
      cases way with
      | nil => exact List.forall_mem_nil _
      | cons name rest => cases hget
  | @directory es names entries ih =>
      cases way with
      | nil => exact List.forall_mem_nil _
      | cons name rest =>
          obtain ⟨found, hget⟩ := Option.isSome_iff_exists.mp hget
          rw [get?_directory_cons] at hget
          obtain ⟨entry, hentry, hfound⟩ := Option.bind_eq_some_iff.mp hget
          obtain ⟨before, after, rfl, _⟩ := List.lookup_eq_some_iff.mp hentry
          have he : (name, entry) ∈ before ++ (name, entry) :: after := by simp
          exact List.forall_mem_cons.mpr
            ⟨names _ he, ih _ he (Option.isSome_iff_exists.mpr ⟨found, hfound⟩)⟩

/-! ### Visits -/

variable {enters : String → Bool}

mutual

/-- The directories that a walk visits, each with its place and its entries, if it enters those
whose names qualify. -/
def visited (enters : String → Bool) (place : Place) :
    FileTree → List (Place × List (String × FileTree))
  | .file _ => []
  | .directory es => (place, es) :: visitedBelow enters place es

/-- The directories that a walk visits below some entries. -/
def visitedBelow (enters : String → Bool) (place : Place) :
    List (String × FileTree) → List (Place × List (String × FileTree))
  | [] => []
  | (name, entry) :: rest =>
    (if enters name then entry.visited enters (place ++ [name]) else []) ++
      visitedBelow enters place rest

end

theorem visitedBelow_eq (enters : String → Bool) (place : Place) (es : List (String × FileTree)) :
    visitedBelow enters place es =
      es.flatMap fun e => if enters e.1 then e.2.visited enters (place ++ [e.1]) else [] := by
  induction es with
  | nil => rfl
  | cons entry rest ih => rw [visitedBelow, List.flatMap_cons, ih]

/-- A walk visits the directories to which qualifying names lead. -/
theorem mem_visited_iff (h : t.NamesOnce) {place there : Place} {es : List (String × FileTree)} :
    (there, es) ∈ t.visited enters place ↔
      ∃ way, there = place ++ way ∧ t.get? way = some (.directory es) ∧
        ∀ name ∈ way, enters name = true := by
  induction h generalizing place with
  | file content =>
      constructor
      · intro hmem
        cases hmem
      · rintro ⟨way, _, hget, _⟩
        cases way <;> cases hget
  | @directory es' names entries ih =>
      rw [visited, List.mem_cons, visitedBelow_eq, List.mem_flatMap]
      constructor
      · rintro (hhere | ⟨⟨name, entry⟩, he, hmem⟩)
        · obtain ⟨rfl, rfl⟩ := Prod.mk.inj hhere
          exact ⟨[], (List.append_nil _).symm, rfl, List.forall_mem_nil _⟩
        · dsimp only at hmem
          split at hmem
          · next hname =>
            obtain ⟨way, rfl, hget, hway⟩ := (ih _ he).mp hmem
            refine ⟨name :: way, by simp, ?_, List.forall_mem_cons.mpr ⟨hname, hway⟩⟩
            rw [get?_directory_cons, (lookup_eq_some_iff_of_nodup names).mpr he]
            exact hget
          · cases hmem
      · rintro ⟨way, rfl, hget, hway⟩
        cases way with
        | nil =>
            cases hget
            exact .inl (by rw [List.append_nil])
        | cons name way =>
            obtain ⟨hname, hway⟩ := List.forall_mem_cons.mp hway
            rw [get?_directory_cons] at hget
            obtain ⟨entry, hentry, hget⟩ := Option.bind_eq_some_iff.mp hget
            have he := (lookup_eq_some_iff_of_nodup names).mp hentry
            refine .inr ⟨(name, entry), he, ?_⟩
            rw [if_pos hname]
            exact (ih _ he).mpr ⟨way, by simp, hget, hway⟩

theorem nodup_visited (h : t.NamesOnce) (place : Place) :
    ((t.visited enters place).map Prod.fst).Nodup := by
  induction h generalizing place with
  | file content => exact List.nodup_nil
  | @directory es names entries ih =>
      -- What is visited in an entry has the name of the entry next in its place.
      have hbelow : ∀ e ∈ es, ∀ there ∈ (if enters e.1 then e.2.visited enters (place ++ [e.1])
          else []).map Prod.fst, ∃ way, there = place ++ e.1 :: way := by
        intro e he there hthere
        obtain ⟨⟨_, es'⟩, hmem, rfl⟩ := List.mem_map.mp hthere
        split at hmem
        · obtain ⟨way, hway, _⟩ := (mem_visited_iff (entries e he)).mp hmem
          exact ⟨way, by rw [hway, List.append_assoc]; rfl⟩
        · cases hmem
      rw [visited, List.map_cons, visitedBelow_eq, List.map_flatMap, List.nodup_cons,
        List.nodup_flatMap]
      refine ⟨fun hmem => ?_, fun e he => ?_, ?_⟩
      · obtain ⟨e, he, hthere⟩ := List.mem_flatMap.mp hmem
        obtain ⟨way, hway⟩ := hbelow e he _ hthere
        simp at hway
      · split
        · exact ih e he _
        · exact List.nodup_nil
      · rw [List.Nodup, List.pairwise_map] at names
        refine names.imp_of_mem fun {e f} he hf hne => ?_
        intro there hthere hother
        obtain ⟨way, rfl⟩ := hbelow e he _ hthere
        obtain ⟨way', hway⟩ := hbelow f hf _ hother
        rw [List.append_cancel_left_eq, List.cons.injEq] at hway
        exact hne hway.1

theorem nodup_flatMap_visited (h : t.NamesOnce) (place : Place)
    {names : List (String × FileTree) → List String}
    (hnames : ∀ es, (es.map Prod.fst).Nodup → (names es).Nodup) :
    ((t.visited enters place).flatMap fun visit =>
      (names visit.2).map fun name => visit.1 ++ [name]).Nodup := by
  rw [List.nodup_flatMap]
  constructor
  · rintro ⟨around, es⟩ hvisit
    obtain ⟨way, _, hdirectory, _⟩ := (mem_visited_iff h).mp hvisit
    cases h.of_get? hdirectory with
    | directory hes _ =>
        refine (hnames es hes).map fun name other hsame => ?_
        exact List.singleton_injective (List.append_cancel_left hsame)
  · have hvisited : ((t.visited enters place).map Prod.fst).Nodup := nodup_visited h place
    rw [List.Nodup, List.pairwise_map] at hvisited
    refine hvisited.imp fun {v w} hne there hthere hother => hne ?_
    -- The directory around what is named tells the visits apart.
    obtain ⟨name, _, rfl⟩ := List.mem_map.mp hthere
    obtain ⟨other, _, hsame⟩ := List.mem_map.mp hother
    exact (List.append_inj' hsame rfl).1.symm

end FileTree

end RouteLinks
