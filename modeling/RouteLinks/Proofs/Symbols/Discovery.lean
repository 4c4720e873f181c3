import RouteLinks.Proofs.Grouping
import RouteLinks.Proofs.Symbols.Identity
import RouteLinks.Proofs.Symbols.Walk
/-!
# What becomes of the candidates

A class that looks like a controller and could be one ends in one of two places: among the
controllers, or in a report that says why it is not there. A report has one of three reasons, and
each of them is a fact about the program: a declaration is broken, a declaration is sealed, or the
walk to the last base goes round. So no candidate is lost without a trace, and above a controller
there is no class that the walk comes back to.
-/

namespace RouteLinks

theorem Class.isSealed_merge (first other : Class) :
    (first.merge other).isSealed = (first.isSealed || other.isSealed) := by
  rw [Bool.eq_iff_iff, Bool.or_eq_true]
  simp only [isSealed, List.contains_iff_mem]
  exact mem_mergeUnique

/-- The report on a class that cannot be used. -/
def Class.discoveryReport (c : Class) (reason : DiscoveryObstacle) : Diagnostic :=
  { kind := .discovery, subject := c.qualifiedName, message := reason.message
    filePath := some c.filePath, line := c.startLine }

namespace Model

variable {m : Model} {files : List SourceFile} {c : Class}

/-! ### One class -/

/-- What is asked of a class before it is looked at whether it can be used. -/
structure IsEligible (m : Model) (c : Class) : Prop where
  isCandidate : m.isCandidate c = true
  isPublic : c.isPublic = true
  notStatic : c.isStatic = false
  notGeneric : c.isGeneric = false
  notExempt : c.hasAttribute "NonController" = false

/-- There is a reason for which a class cannot be used. -/
def IsObstructed (m : Model) (c : Class) : DiscoveryObstacle → Prop
  | .broken => c.hasError = true
  | .isSealed => c.isSealed = true
  | .cyclic => (m.ancestry c).isCyclic = true

theorem isEligible_of_discover_ne (h : m.discover c ≠ .other) : m.IsEligible c := by
  unfold discover at h
  split_ifs at h with hcandidate haccess hexempt
  iterate 3 exact absurd rfl h
  all_goals
    simp only [Bool.or_eq_true, Bool.not_eq_true', not_or, Bool.not_eq_true,
      Bool.not_eq_false] at hcandidate haccess hexempt
    exact ⟨hcandidate, haccess.1.1, haccess.1.2, haccess.2, hexempt⟩

theorem IsEligible.discover_cases (h : m.IsEligible c) :
    (∃ reason, m.discover c = .skipped reason ∧ m.IsObstructed c reason) ∨
      m.discover c = .controller ∧ ∀ reason, ¬ m.IsObstructed c reason := by
  simp only [discover, h.isCandidate, h.isPublic, h.notStatic, h.notGeneric, h.notExempt,
    Bool.not_true, Bool.or_false, Bool.false_eq_true, if_false]
  split_ifs with hbroken hsealed hcyclic
  · exact .inl ⟨.broken, rfl, hbroken⟩
  · exact .inl ⟨.isSealed, rfl, hsealed⟩
  · exact .inl ⟨.cyclic, rfl, hcyclic⟩
  · refine .inr ⟨rfl, fun reason => ?_⟩
    cases reason with
    | broken => exact hbroken
    | isSealed => exact hsealed
    | cyclic => exact hcyclic

theorem discover_eq_controller_iff :
    m.discover c = .controller ↔ m.IsEligible c ∧ ∀ reason, ¬ m.IsObstructed c reason := by
  constructor
  · intro hcontroller
    have heligible : m.IsEligible c := isEligible_of_discover_ne (by simp [hcontroller])
    rcases heligible.discover_cases with ⟨reason, hskipped, -⟩ | ⟨-, hnone⟩
    · simp [hcontroller] at hskipped
    · exact ⟨heligible, hnone⟩
  · rintro ⟨heligible, hnone⟩
    rcases heligible.discover_cases with ⟨reason, -, hreason⟩ | ⟨hcontroller, -⟩
    · exact absurd hreason (hnone reason)
    · exact hcontroller

theorem of_discover_eq_skipped {reason : DiscoveryObstacle} (h : m.discover c = .skipped reason) :
    m.IsEligible c ∧ m.IsObstructed c reason := by
  have heligible : m.IsEligible c := isEligible_of_discover_ne (by simp [h])
  refine ⟨heligible, ?_⟩
  rcases heligible.discover_cases with ⟨other, hother, hreason⟩ | ⟨hcontroller, -⟩
  · rw [h] at hother
    cases hother
    exact hreason
  · simp [h] at hcontroller

theorem exists_discover_eq_skipped (h : m.IsEligible c) {reason : DiscoveryObstacle}
    (hreason : m.IsObstructed c reason) : ∃ first, m.discover c = .skipped first := by
  rcases h.discover_cases with ⟨first, hfirst, -⟩ | ⟨-, hnone⟩
  · exact ⟨first, hfirst⟩
  · exact absurd hreason (hnone reason)

/-! ### The controllers -/

theorem mem_controllers : c ∈ m.controllers ↔ c ∈ m.classes ∧ m.discover c = .controller := by
  simp [controllers]

theorem isCyclic_ancestry_of_mem_controllers (hc : c ∈ m.controllers) :
    (m.ancestry c).isCyclic = false := by
  have hnone := (discover_eq_controller_iff.mp (mem_controllers.mp hc).2).2
  exact Bool.eq_false_iff.mpr (hnone .cyclic)

/-- A class with the name of a controller is that controller. -/
theorem mem_controllers_of_qualifiedName (hnodup : (m.classes.map Class.qualifiedName).Nodup)
    (hc : c ∈ m.classes) (hname : c.qualifiedName ∈ m.controllers.map Class.qualifiedName) :
    c ∈ m.controllers := by
  obtain ⟨d, hd, hsame⟩ := List.mem_map.mp hname
  rwa [← List.inj_on_of_nodup_map hnodup (mem_controllers.mp hd).1 hc hsame]

/-! ### The reports -/

theorem discoveryDiagnostic?_eq_some_iff {d : Diagnostic} : m.discoveryDiagnostic? c = some d ↔
    ∃ reason, m.discover c = .skipped reason ∧ d = c.discoveryReport reason := by
  unfold discoveryDiagnostic?
  split
  · next reason hskipped =>
    simp only [hskipped, Discovery.skipped.injEq, exists_eq_left', Option.some.injEq]
    exact eq_comm
  · next hother =>
    constructor
    · nofun
    · rintro ⟨reason, hskipped, -⟩
      exact absurd hskipped (hother reason)

theorem mem_discoveryDiagnostics {d : Diagnostic} : d ∈ m.discoveryDiagnostics ↔
    ∃ c ∈ m.classes, ∃ reason, m.discover c = .skipped reason ∧ d = c.discoveryReport reason := by
  simp only [discoveryDiagnostics, List.mem_filterMap, discoveryDiagnostic?_eq_some_iff]

def reported (m : Model) : List String := m.discoveryDiagnostics.map Diagnostic.subject

theorem reported_sublist (m : Model) :
    m.reported.Sublist (m.classes.map Class.qualifiedName) := by
  rw [reported, discoveryDiagnostics]
  induction m.classes with
  | nil => exact List.Sublist.refl _
  | cons c rest ih =>
      rw [List.filterMap_cons]
      split
      · exact ih.cons _
      · next d hd =>
        obtain ⟨reason, -, rfl⟩ := discoveryDiagnostic?_eq_some_iff.mp hd
        exact ih.cons_cons _

theorem mem_reported_iff (hnodup : (m.classes.map Class.qualifiedName).Nodup) (hc : c ∈ m.classes) :
    c.qualifiedName ∈ m.reported ↔ m.IsEligible c ∧ ∃ reason, m.IsObstructed c reason := by
  constructor
  · intro hreported
    obtain ⟨d, hd, hname⟩ := List.mem_map.mp hreported
    obtain ⟨other, hother, reason, hskipped, rfl⟩ := mem_discoveryDiagnostics.mp hd
    obtain rfl : other = c := List.inj_on_of_nodup_map hnodup hother hc hname
    obtain ⟨heligible, hreason⟩ := of_discover_eq_skipped hskipped
    exact ⟨heligible, reason, hreason⟩
  · rintro ⟨heligible, reason, hreason⟩
    obtain ⟨first, hfirst⟩ := exists_discover_eq_skipped heligible hreason
    exact List.mem_map.mpr ⟨_, mem_discoveryDiagnostics.mpr ⟨c, hc, first, hfirst, rfl⟩, rfl⟩

/-! ### All classes -/

/-- A declaration of a class has a flag. -/
def Declares (files : List SourceFile) (c : Class) (flag : Class → Bool) : Prop :=
  ∃ d ∈ declarations files,
    d.symbol.qualifiedName = c.qualifiedName ∧ flag d.symbol = true

/-- What the reasons against a class are in the program: one of its declarations is broken or
sealed, or going from base to base comes to a class twice. -/
def Hinders (files : List SourceFile) (c : Class) : DiscoveryObstacle → Prop
  | .broken => Declares files c Class.hasError
  | .isSealed => Declares files c Class.isSealed
  | .cyclic => (ofFiles files).Revisits c

theorem declares_iff {flag : Class → Bool}
    (hmerge : ∀ first other, flag (first.merge other) = (flag first || flag other))
    (hc : c ∈ (ofFiles files).classes) : Declares files c flag ↔ flag c = true := by
  obtain ⟨g, rfl, hparts⟩ := exists_merger_of_mem hc
  simp only [g.any_result hmerge, List.any_eq_true, hparts, and_assoc, Declares]

theorem hinders_iff (hc : c ∈ (ofFiles files).classes) {reason : DiscoveryObstacle} :
    Hinders files c reason ↔ (ofFiles files).IsObstructed c reason := by
  cases reason with
  | broken => exact declares_iff (fun _ _ => rfl) hc
  | isSealed => exact declares_iff Class.isSealed_merge hc
  | cyclic => exact (isCyclic_iff_revisits (nodup_ofFiles files) hc).symm

/-- Discovery divides the eligible classes in two, both in the order of the model and without
repetition: those that are hindered are reported, each for a reason that it has, and all others are
controllers. Above a controller no walk goes round. -/
structure Divides (files : List SourceFile) (m : Model) : Prop where
  controllersInOrder : m.controllers.Sublist m.classes
  reportedInOrder : m.reported.Sublist (m.classes.map Class.qualifiedName)
  controllersOnce : (m.controllers.map Class.qualifiedName).Nodup
  reportedOnce : m.reported.Nodup
  disjoint : (m.controllers.map Class.qualifiedName).Disjoint m.reported
  together : ∀ c ∈ m.classes, m.IsEligible c ↔
    c.qualifiedName ∈ m.controllers.map Class.qualifiedName ∨ c.qualifiedName ∈ m.reported
  hindered : ∀ c ∈ m.classes, m.IsEligible c →
    (c.qualifiedName ∈ m.reported ↔ ∃ reason, Hinders files c reason)
  explained : ∀ d ∈ m.discoveryDiagnostics, ∃ c ∈ m.classes, ∃ reason,
    Hinders files c reason ∧ d = c.discoveryReport reason
  acyclic : ∀ c ∈ m.controllers, ∀ b ∈ (m.ancestry c).chain, ¬ m.Revisits b

/-- The classes of every program are divided so. -/
theorem divides_ofFiles (files : List SourceFile) : Divides files (ofFiles files) := by
  have hnames := nodup_ofFiles files
  have hcontrollers : (ofFiles files).controllers.Sublist (ofFiles files).classes :=
    List.filter_sublist
  have hreported := reported_sublist (ofFiles files)
  constructor
  case controllersInOrder => exact hcontrollers
  case reportedInOrder => exact hreported
  case controllersOnce => exact hnames.sublist (hcontrollers.map _)
  case reportedOnce => exact hnames.sublist hreported
  case disjoint =>
    intro name hcontroller hreport
    obtain ⟨c, hc, rfl⟩ := List.mem_map.mp hcontroller
    obtain ⟨hclass, hdiscover⟩ := mem_controllers.mp hc
    obtain ⟨-, reason, hreason⟩ := (mem_reported_iff hnames hclass).mp hreport
    exact (discover_eq_controller_iff.mp hdiscover).2 reason hreason
  case together =>
    intro c hc
    constructor
    · intro heligible
      rcases heligible.discover_cases with ⟨reason, -, hreason⟩ | ⟨hcontroller, -⟩
      · exact .inr ((mem_reported_iff hnames hc).mpr ⟨heligible, reason, hreason⟩)
      · exact .inl (List.mem_map_of_mem (mem_controllers.mpr ⟨hc, hcontroller⟩))
    · rintro (hcontroller | hreport)
      · have hmem := mem_controllers_of_qualifiedName hnames hc hcontroller
        exact (discover_eq_controller_iff.mp (mem_controllers.mp hmem).2).1
      · exact ((mem_reported_iff hnames hc).mp hreport).1
  case hindered =>
    intro c hc heligible
    simp only [mem_reported_iff hnames hc, heligible, true_and, hinders_iff hc]
  case explained =>
    intro d hd
    obtain ⟨c, hc, reason, hskipped, rfl⟩ := mem_discoveryDiagnostics.mp hd
    exact ⟨c, hc, reason, (hinders_iff hc).mpr (of_discover_eq_skipped hskipped).2, rfl⟩
  case acyclic =>
    intro c hc b hb
    obtain ⟨before, further, hsplit⟩ := List.append_of_mem hb
    have hown := ancestry_of_mem_chain (isCyclic_ancestry_of_mem_controllers hc) hsplit
    exact not_revisits (congrArg Ancestry.isCyclic hown)

/-- Below a cycle as well as in it, no candidate is lost. -/
example :
    (ofFiles [cyclicFile]).reported = ["Home", "Shop", "ApiController"] ∧
      (ofFiles [cyclicFile]).controllers = [] := by decide

end Model

end RouteLinks
