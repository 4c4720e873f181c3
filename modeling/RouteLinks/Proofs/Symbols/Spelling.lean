import Mathlib.Data.String.Basic
import RouteLinks.Proofs.Text.Fields
import RouteLinks.Symbols.Discovery
/-!
# Ways to spell a program

An identifier may be written with the mark of a verbatim identifier, `@Home` for `Home`, and is the
same identifier. A spelling says which identifiers of a program are written in this way: those of
classes and of segments of namespaces, and those of methods. Different names stay different, and
putting names together, cutting them at dots and looking at their endings is as it was before.
-/

namespace RouteLinks

/-- A name without the marks in front of it. -/
def bareIdentifier (name : String) : String :=
  String.ofList (name.toList.dropWhile (· == '@'))

def verbatim (marks : String → Bool) (name : String) : String :=
  if marks (bareIdentifier name) then "@" ++ name else name

theorem bareIdentifier_verbatim (marks : String → Bool) (name : String) :
    bareIdentifier (verbatim marks name) = bareIdentifier name := by
  unfold verbatim
  split
  · simp [bareIdentifier]
  · rfl

theorem verbatim_injective (marks : String → Bool) : Function.Injective (verbatim marks) := by
  intro a b hsame
  have hbare : bareIdentifier a = bareIdentifier b := by
    rw [← bareIdentifier_verbatim marks a, hsame, bareIdentifier_verbatim]
  unfold verbatim at hsame
  rw [hbare] at hsame
  split at hsame
  · exact (String.append_right_inj "@").mp hsame
  · exact hsame

/-- Which identifiers of a program are written with the mark: `marksName` says it of classes and of
the segments of namespaces, `marksMethod` of methods. The types of parameters can be written in a
different way too, if only different types stay different. The name of the framework's class is no
identifier of the program. -/
structure Spelling where
  marksName : String → Bool
  marksMethod : String → Bool
  typeText : String → String
  injective_typeText : Function.Injective typeText
  empty_marksName : marksName "" = false
  framework_marksName : marksName "ControllerBase" = false

namespace Spelling

variable {s : Spelling}

/-- How a class or a segment of a namespace is written. -/
def identifier (s : Spelling) : String → String := verbatim s.marksName

def method (s : Spelling) : String → String := verbatim s.marksMethod

def name (s : Spelling) (dotted : String) : String :=
  ".".intercalate ((splitAt '.' dotted).map s.identifier)

theorem identifier_eq (s : Spelling) (x : String) :
    s.identifier x = x ∨ s.identifier x = "@" ++ x := by
  unfold identifier verbatim
  split
  · exact .inr rfl
  · exact .inl rfl

theorem identifier_empty (s : Spelling) : s.identifier "" = "" := by
  rw [identifier, verbatim, show bareIdentifier "" = "" from rfl, s.empty_marksName]
  rfl

theorem identifier_framework (s : Spelling) : s.identifier "ControllerBase" = "ControllerBase" := by
  rw [identifier, verbatim, show bareIdentifier "ControllerBase" = "ControllerBase" by decide,
    s.framework_marksName]
  rfl

theorem dot_mem_identifier_iff (s : Spelling) (x : String) :
    '.' ∈ (s.identifier x).toList ↔ '.' ∈ x.toList := by
  rcases s.identifier_eq x with h | h <;> simp [h]

end Spelling

/-! ### Dotted names -/

theorem splitAt_ne_nil (separator : Char) (dotted : String) : splitAt separator dotted ≠ [] := by
  rw [splitAt, Ne, List.map_eq_nil_iff]
  exact Text.fields_ne_nil _ _

theorem splitAt_intercalate {parts : List String} (hne : parts ≠ [])
    (h : ∀ part ∈ parts, '.' ∉ part.toList) : splitAt '.' (".".intercalate parts) = parts := by
  have hfields : Text.fields '.' (['.'].intercalate (parts.map String.toList)) =
      parts.map String.toList :=
    Text.fields_intercalate (by simpa using hne) (by simpa using h)
  rw [splitAt, String.toList_intercalate, show ".".toList = ['.'] from rfl, hfields, List.map_map]
  exact (List.map_congr_left fun part _ => String.ofList_toList).trans (List.map_id parts)

theorem intercalate_splitAt (dotted : String) : ".".intercalate (splitAt '.' dotted) = dotted := by
  rw [← String.toList_inj, String.toList_intercalate, splitAt, List.map_map]
  have hsame : String.toList ∘ String.ofList = id := funext fun cs => String.toList_ofList
  rw [hsame, List.map_id]
  exact Text.intercalate_fields '.' dotted.toList

theorem not_mem_of_mem_splitAt {dotted part : String} (h : part ∈ splitAt '.' dotted) :
    '.' ∉ part.toList := by
  obtain ⟨cs, hcs, rfl⟩ := List.mem_map.mp h
  rw [String.toList_ofList]
  exact Text.not_mem_of_mem_fields hcs

theorem splitAt_append_dot (a b : String) :
    splitAt '.' (a ++ "." ++ b) = splitAt '.' a ++ splitAt '.' b := by
  rw [splitAt, String.toList_append, String.toList_append, List.append_assoc,
    show ".".toList = ['.'] from rfl, List.singleton_append, Text.fields_append_separator,
    List.map_append]
  rfl

namespace Spelling

variable {s : Spelling}

theorem splitAt_name (s : Spelling) (dotted : String) :
    splitAt '.' (s.name dotted) = (splitAt '.' dotted).map s.identifier := by
  apply splitAt_intercalate
  · rw [Ne, List.map_eq_nil_iff]
    exact splitAt_ne_nil '.' dotted
  · rw [List.forall_mem_map]
    intro part hpart
    rw [dot_mem_identifier_iff]
    exact not_mem_of_mem_splitAt hpart

theorem name_injective (s : Spelling) : Function.Injective s.name := by
  intro a b hsame
  have hparts : (splitAt '.' a).map s.identifier = (splitAt '.' b).map s.identifier := by
    rw [← splitAt_name, hsame, splitAt_name]
  rw [← intercalate_splitAt a, (verbatim_injective s.marksName).list_map hparts,
    intercalate_splitAt]

theorem name_beq (s : Spelling) (a b : String) : (s.name a == s.name b) = (a == b) := by
  rw [Bool.eq_iff_iff, beq_iff_eq, beq_iff_eq, s.name_injective.eq_iff]

theorem name_intercalate {parts : List String} (h : ∀ part ∈ parts, '.' ∉ part.toList) :
    s.name (".".intercalate parts) = ".".intercalate (parts.map s.identifier) := by
  cases parts with
  | nil =>
      rw [name, show splitAt '.' (".".intercalate []) = [""] by decide, List.map_singleton,
        identifier_empty]
      rfl
  | cons first rest => rw [name, splitAt_intercalate (List.cons_ne_nil first rest) h]

theorem name_append_dot (s : Spelling) (a b : String) :
    s.name (a ++ "." ++ b) = s.name a ++ "." ++ s.name b := by
  rw [name, splitAt_append_dot, List.map_append, String.intercalate_append_of_ne_nil]
  · rfl
  · rw [Ne, List.map_eq_nil_iff]
    exact splitAt_ne_nil '.' a
  · rw [Ne, List.map_eq_nil_iff]
    exact splitAt_ne_nil '.' b

theorem name_of_not_mem (s : Spelling) {x : String} (h : '.' ∉ x.toList) :
    s.name x = s.identifier x := by
  have hparts : splitAt '.' x = [x] := by
    rw [splitAt, Text.fields_of_not_mem h, List.map_singleton, String.ofList_toList]
  rw [name, hparts, List.map_singleton, String.intercalate_singleton]

theorem name_empty (s : Spelling) : s.name "" = "" := by
  rw [s.name_of_not_mem (by decide), identifier_empty]

theorem isEmpty_name (s : Spelling) (dotted : String) :
    (s.name dotted).isEmpty = dotted.isEmpty := by
  rw [Bool.eq_iff_iff, String.isEmpty_iff, String.isEmpty_iff]
  constructor
  · intro hempty
    exact s.name_injective (hempty.trans s.name_empty.symm)
  · rintro rfl
    exact s.name_empty

theorem name_qualify (s : Spelling) (qualifier dotted : String) :
    s.name (qualify qualifier dotted) = qualify (s.name qualifier) (s.name dotted) := by
  unfold qualify
  rw [isEmpty_name]
  split
  · rfl
  · exact s.name_append_dot qualifier dotted

/-! ### Endings -/

def lastPart (dotted : String) : String := String.ofList (Text.lastField '.' dotted.toList)

theorem lastPart_eq (dotted : String) :
    lastPart dotted = ((splitAt '.' dotted).getLast?).getD "" := by
  rw [lastPart, Text.lastField, splitAt, List.getLast?_map,
    List.getLast?_eq_some_getLast (Text.fields_ne_nil _ _)]
  rfl

theorem lastPart_name (s : Spelling) (dotted : String) :
    lastPart (s.name dotted) = s.identifier (lastPart dotted) := by
  rw [lastPart_eq, lastPart_eq, splitAt_name, List.getLast?_map,
    List.getLast?_eq_some_getLast (splitAt_ne_nil '.' dotted)]
  rfl

theorem endsWith_lastPart {ending : String} (h : '.' ∉ ending.toList) (dotted : String) :
    endsWith (lastPart dotted) ending = endsWith dotted ending := by
  rw [Bool.eq_iff_iff, endsWith, endsWith, List.isSuffixOf_iff_suffix, List.isSuffixOf_iff_suffix,
    lastPart, String.toList_ofList]
  obtain ⟨-, hsame | ⟨front, hfront⟩⟩ := Text.lastField_spec '.' dotted.toList
  · rw [← hsame]
  · have hlast : '.' :: Text.lastField '.' dotted.toList <:+ dotted.toList := ⟨front, hfront.symm⟩
    constructor
    · intro hending
      exact hending.trans ((List.suffix_cons _ _).trans hlast)
    · intro hending
      rcases Nat.lt_or_ge (Text.lastField '.' dotted.toList).length ending.toList.length with
        hlong | hshort
      · have hdot := List.suffix_of_suffix_length_le hlast hending
          (by simpa using Nat.succ_le_of_lt hlong)
        exact absurd (hdot.mem List.mem_cons_self) h
      · exact List.suffix_of_suffix_length_le hending ((List.suffix_cons _ _).trans hlast) hshort

theorem endsWith_identifier (s : Spelling) (x : String) :
    endsWith (s.identifier x) controllerSuffix = endsWith x controllerSuffix := by
  rcases s.identifier_eq x with h | h
  · rw [h]
  · rw [h, Bool.eq_iff_iff, endsWith, endsWith, List.isSuffixOf_iff_suffix,
      List.isSuffixOf_iff_suffix, String.toList_append, show "@".toList = ['@'] from rfl,
      List.singleton_append, List.suffix_cons_iff]
    constructor
    · rintro (hwhole | hpart)
      · exact absurd (List.cons.inj hwhole).1 (by decide)
      · exact hpart
    · exact Or.inr

theorem endsWith_name (s : Spelling) (dotted : String) :
    endsWith (s.name dotted) controllerSuffix = endsWith dotted controllerSuffix := by
  have hdot : '.' ∉ controllerSuffix.toList := by decide
  rw [← endsWith_lastPart hdot, lastPart_name, endsWith_identifier, endsWith_lastPart hdot]

theorem looksLikeController_eq (dotted : String) :
    looksLikeController dotted =
      (dotted == "ControllerBase" || endsWith dotted controllerSuffix) := by
  rw [looksLikeController, Bool.eq_iff_iff]
  simp only [controllerBaseNames, Bool.or_eq_true, List.contains_iff_mem, List.mem_cons,
    List.not_mem_nil, or_false, beq_iff_eq]
  constructor
  · rintro ((rfl | hbase) | hends)
    · exact .inr (by decide)
    · exact .inl hbase
    · exact .inr hends
  · rintro (hbase | hends)
    · exact .inl (.inr hbase)
    · exact .inr hends

theorem looksLikeController_name (s : Spelling) (dotted : String) :
    looksLikeController (s.name dotted) = looksLikeController dotted := by
  have hframework : s.name "ControllerBase" = "ControllerBase" := by
    rw [s.name_of_not_mem (by decide), identifier_framework]
  have hbase : (s.name dotted == "ControllerBase") = (dotted == "ControllerBase") := by
    rw [← s.name_beq dotted, hframework]
  rw [looksLikeController_eq, looksLikeController_eq, hbase, endsWith_name]

theorem looksLikeController_lastPart_name (s : Spelling) (dotted : String) :
    looksLikeController (lastPart (s.name dotted)) = looksLikeController (lastPart dotted) := by
  have hdot : '.' ∉ (lastPart dotted).toList := by
    rw [lastPart, String.toList_ofList]
    exact (Text.lastField_spec '.' dotted.toList).1
  rw [lastPart_name, ← s.name_of_not_mem hdot, looksLikeController_name]

/-! ### Names of controllers in routes -/

theorem routeName_append_suffix {className : String}
    (hends : endsWith className controllerSuffix = true) (hne : className ≠ controllerSuffix) :
    routeName className ++ controllerSuffix = className := by
  obtain ⟨front, hfront⟩ := List.isSuffixOf_iff_suffix.mp hends
  rw [routeName, if_neg (by simpa using hne), dropEnding, if_pos hends, ← String.toList_inj,
    String.toList_append, String.toList_ofList, ← hfront, List.length_append, Nat.add_sub_cancel,
    List.take_left]

theorem routeName_of_not_endsWith {className : String}
    (hends : endsWith className controllerSuffix = false) : routeName className = className := by
  rw [routeName, dropEnding, hends]
  split <;> rfl

/-- The suffix is the name of a class only if it is so in any spelling. -/
theorem name_eq_controllerSuffix {className : String} (h : s.name className = controllerSuffix) :
    className = controllerSuffix := by
  have hparts : (splitAt '.' className).map s.identifier = [controllerSuffix] := by
    rw [← splitAt_name, h]
    decide
  obtain ⟨x, hclass, hx⟩ := List.map_eq_singleton_iff.mp hparts
  have hplain : x = controllerSuffix := by
    rcases s.identifier_eq x with hsame | hmarked
    · exact hsame.symm.trans hx
    · have hfirst := congrArg (fun name => name.toList.head?) (hmarked.symm.trans hx)
      simp [controllerSuffix] at hfirst
  rw [← intercalate_splitAt className, hclass, hplain]
  rfl

/-- A controller has its name in routes only if its class is written without the mark. -/
theorem routeName_name_eq_iff (s : Spelling) (className : String) :
    routeName (s.name className) = routeName className ↔ s.name className = className := by
  refine ⟨fun hsame => ?_, fun hsame => by rw [hsame]⟩
  have hends := s.endsWith_name className
  cases hclass : endsWith className controllerSuffix with
  | false =>
      rwa [routeName_of_not_endsWith hclass,
        routeName_of_not_endsWith (hends.trans hclass)] at hsame
  | true =>
      by_cases hsuffix : className = controllerSuffix
      · rw [hsuffix, s.name_of_not_mem (by decide)] at hsame ⊢
        rcases s.identifier_eq controllerSuffix with hplain | hmarked
        · exact hplain
        · rw [hmarked] at hsame
          exact absurd hsame (by decide)
      · have hother : s.name className ≠ controllerSuffix := mt name_eq_controllerSuffix hsuffix
        rw [← routeName_append_suffix (hends.trans hclass) hother, hsame,
          routeName_append_suffix hclass hsuffix]

end Spelling

end RouteLinks
