import RouteLinks.Proofs.Source.Occurrences
import RouteLinks.Proofs.Symbols.Declarations
/-!
# A source is read as it is named

The promise of `SourceFile.IsRegular` is kept by the reader, whatever the bytes and whatever tree
the grammar makes of them. A declaration takes its name, its path and its place from the node that
it is and from what is around the node; that a method stands in a class which is read too is read
off the way to it, since the node of the class is passed on that way.
-/

namespace RouteLinks.Source

open SyntaxNode

variable {r : Reading} {s : Spot} {n : SyntaxNode} {u : SourceUnit}

theorem Reading.unitAt?_eq_some (h : r.unitAt? s n = some u) :
    (n.kind = "class_declaration" ∧ s.level ≠ .parts ∧
        ∃ name, nameOf? r.bytes n = some name ∧ r.classUnit (s.context r) n name = u) ∨
      s.level = .members ∧
        (n.kind = "method_declaration" ∧ r.methodUnit? (s.context r) n = some u ∨
          n.kind = "constructor_declaration" ∧ r.constructorUnit (s.context r) n = u) := by
  unfold unitAt? at h
  split at h
  · next hclass =>
    simp only [Bool.and_eq_true, beq_iff_eq, bne_iff_ne] at hclass
    exact .inl ⟨hclass.1, hclass.2, Option.map_eq_some_iff.mp h⟩
  split at h
  · cases h
  next hlevel =>
  have hmembers : s.level = .members := by simpa using hlevel
  split at h
  · next hmethod => exact .inr ⟨hmembers, .inl ⟨by simpa using hmethod, h⟩⟩
  split at h
  · next hconstructor =>
    exact .inr ⟨hmembers, .inr ⟨by simpa using hconstructor, Option.some.inj h⟩⟩
  · cases h

theorem Reading.exists_unit_eq (h : r.unitAt? s n = some u) :
    ∃ head name signature, u = r.unit (s.context r) n head name signature ∧ u.isPlaced = true := by
  rcases unitAt?_eq_some h with ⟨-, -, name, -, rfl⟩ | ⟨-, ⟨-, hmethod⟩ | ⟨-, rfl⟩⟩
  · exact ⟨_, _, _, rfl, rfl⟩
  · obtain ⟨name, -, rfl⟩ := Option.map_eq_some_iff.mp hmethod
    refine ⟨_, _, _, rfl, ?_⟩
    show ((returnType? n).map (·.text r.bytes)).isNone || ((returnType? n).map (·.start)).isSome
    cases returnType? n <;> rfl
  · exact ⟨_, _, _, rfl, rfl⟩

variable {g : Grammar} {bytes : Bytes} {filePath : String}

/-- A declaration that is read is one at a place of the tree. -/
theorem mem_read_iff : u ∈ (read g bytes filePath).units ↔
    ∃ around n s v, Leads around (g bytes) n ∧ Spot.of? bytes around = some s ∧
      Reading.unitAt? ⟨bytes, filePath⟩ s n = some v ∧
      { v with imports := (read g bytes filePath).imports } = u := by
  rw [units_read]
  simp only [List.mem_map, List.mem_filterMap, mem_occurrences_iff]
  constructor
  · rintro ⟨v, ⟨o, ho, hunit⟩, rfl⟩
    obtain ⟨s, hs, hv⟩ := Option.bind_eq_some_iff.mp hunit
    exact ⟨_, _, s, v, ho, hs, hv, rfl⟩
  · rintro ⟨around, n, s, v, hway, hs, hv, rfl⟩
    exact ⟨v, ⟨⟨around, n⟩, hway, Option.bind_eq_some_iff.mpr ⟨s, hs, hv⟩⟩, rfl⟩

theorem filePath_of_mem_read (hu : u ∈ (read g bytes filePath).units) : u.filePath = filePath := by
  obtain ⟨around, n, s, v, -, -, hv, rfl⟩ := mem_read_iff.mp hu
  obtain ⟨head, name, signature, rfl, -⟩ := Reading.exists_unit_eq hv
  rfl

theorem Reading.unitAt?_of_class {name : String} (hkind : n.kind = "class_declaration")
    (hlevel : s.level ≠ .parts) (hname : nameOf? r.bytes n = some name) :
    r.unitAt? s n = some (r.classUnit (s.context r) n name) := by
  rw [unitAt?, if_pos (by simp [hkind, hlevel]), hname]
  rfl

theorem Reading.unitAt?_of_method {name : String} (hkind : n.kind = "method_declaration")
    (hlevel : s.level = .members) (hname : nameOf? r.bytes n = some name) :
    r.unitAt? s n = some (r.unit (s.context r) n (.ofMethod (r.methodHead n)) name
      (memberSignature (n.rawText r.bytes))) := by
  simp [unitAt?, methodUnit?, hkind, hlevel, hname]

theorem Reading.unitAt?_of_constructor (hkind : n.kind = "constructor_declaration")
    (hlevel : s.level = .members) :
    r.unitAt? s n = some (r.constructorUnit (s.context r) n) := by
  simp [unitAt?, hkind, hlevel]

theorem exists_class_of_isInBody {root : SyntaxNode} {around outer : List Enclosure}
    {c body : Enclosure} {t : Spot} (hway : Leads around root n)
    (h : Spot.IsInBody r.bytes around s outer t c body) :
    Leads outer root c.parent ∧ ∃ name, nameOf? r.bytes c.parent = some name ∧
      r.unitAt? t c.parent = some (r.classUnit (t.context r) c.parent name) ∧
      (s.context r).owner.map (qualify (s.context r).scope) =
        some (r.classUnit (t.context r) c.parent name).qualifiedName := by
  obtain ⟨name, hname⟩ := Option.isSome_iff_exists.mp h.isNamed
  have hcontext : s.context r = (t.inside c.parent).context r := by
    rw [← h.spot]
    rfl
  rw [h.around_eq] at hway
  refine ⟨hway.of_concat.1.of_concat.1, name, hname,
    Reading.unitAt?_of_class h.isClass h.level hname, ?_⟩
  rw [hcontext, Spot.context_inside, hname]
  rfl

theorem read_isRegular (g : Grammar) (bytes : Bytes) (filePath : String) :
    (read g bytes filePath).IsRegular := by
  constructor
  case named =>
    intro u hu _
    obtain ⟨around, n, s, v, -, -, hv, rfl⟩ := mem_read_iff.mp hu
    obtain ⟨head, name, signature, rfl, -⟩ := Reading.exists_unit_eq hv
    rfl
  case owned =>
    intro u hu hmethod
    obtain ⟨around, n, s, v, hway, hs, hv, rfl⟩ := mem_read_iff.mp hu
    rcases Reading.unitAt?_eq_some hv with ⟨-, -, name, -, rfl⟩ | ⟨hlevel, -⟩
    · cases hmethod
    obtain ⟨outer, t, c, body, hbody⟩ := Spot.exists_isInBody hs hlevel
    obtain ⟨hclass, name, -, hunit, howner⟩ :=
      exists_class_of_isInBody (r := ⟨bytes, filePath⟩) hway hbody
    obtain ⟨head, name', signature, rfl, -⟩ := Reading.exists_unit_eq hv
    exact ⟨_, mem_read_iff.mpr ⟨outer, c.parent, t, _, hclass, hbody.stands, hunit, rfl⟩, rfl,
      howner⟩
  case placed =>
    intro u hu
    obtain ⟨around, n, s, v, -, -, hv, rfl⟩ := mem_read_iff.mp hu
    obtain ⟨head, name, signature, -, hplaced⟩ := Reading.exists_unit_eq hv
    exact hplaced

end RouteLinks.Source
