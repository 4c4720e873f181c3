import RouteLinks.Proofs.Source.TypeTokens
/-!
# Types as they are written

A type is written as a row of tokens with white space between them. A reader finds these tokens
however they are spaced. A text with single spaces in it keeps of the white space only where there
was some.
-/

namespace RouteLinks.Source

/-- A token with the white space before it. -/
structure SpacedToken where
  gap : List Char
  token : TypeToken
  isGap : ∀ c ∈ gap, isSpace c = true

def SpacedToken.chars (x : SpacedToken) : List Char := x.gap ++ x.token.chars

def tight (t : TypeToken) : SpacedToken := ⟨[], t, by simp⟩

def loose (t : TypeToken) : SpacedToken := ⟨[' '], t, forall_mem_of_all (by decide)⟩

/-- A type as it is written. White space stands wherever two tokens would join. -/
structure TypeText where
  spaced : List SpacedToken
  after : List Char
  isGap : ∀ c ∈ after, isSpace c = true
  apart : spaced.IsChain fun x y => x.token.joinsTo y.token = true → y.gap ≠ []

namespace TypeText

def ofSpaced (spaced : List SpacedToken)
    (apart : spaced.IsChain fun x y => x.token.joinsTo y.token = true → y.gap ≠ []) : TypeText :=
  ⟨spaced, [], by simp, apart⟩

def chars (t : TypeText) : List Char := t.spaced.flatMap SpacedToken.chars ++ t.after

def text (t : TypeText) : String := String.ofList t.chars

def tokens (t : TypeText) : List TypeToken := t.spaced.map SpacedToken.token

end TypeText

/-! ### What a reader finds -/

/-- What a reader finds in a text: after the pieces that make some tokens, the rest. -/
def Cuts (cs : List Char) (tokens : List Token) (offset : Nat) (rest : List Char) : Prop :=
  ∀ fuel, (cs ++ rest).length ≤ fuel → ∃ ps fuel', rest.length ≤ fuel' ∧
    piecesFrom offset fuel (cs ++ rest) = ps ++ piecesFrom (offset + cs.length) fuel' rest ∧
      ps.filterMap Piece.token? = tokens

namespace Cuts

variable {cs xs rest : List Char} {offset : Nat} {tokens more : List Token}

theorem nil (rest : List Char) (offset : Nat) : Cuts [] [] offset rest :=
  fun fuel hfuel => ⟨[], fuel, hfuel, rfl, rfl⟩

theorem append (hcs : Cuts cs tokens offset (xs ++ rest))
    (hxs : Cuts xs more (offset + cs.length) rest) :
    Cuts (cs ++ xs) (tokens ++ more) offset rest := by
  intro fuel hfuel
  rw [List.append_assoc] at hfuel ⊢
  obtain ⟨ps, fuel', hfuel', hpieces, htokens⟩ := hcs fuel hfuel
  obtain ⟨qs, fuel'', hfuel'', hpieces', htokens'⟩ := hxs fuel' hfuel'
  refine ⟨ps ++ qs, fuel'', hfuel'', ?_, ?_⟩
  · rw [hpieces, hpieces', List.append_assoc, List.length_append, Nat.add_assoc]
  · rw [List.filterMap_append, htokens, htokens']

theorem piece {kind : PieceKind} (hne : cs ≠ [])
    (h : firstPiece (cs ++ rest) = (kind, cs.length))
    (htokens : [Piece.mk kind offset cs].filterMap Piece.token? = tokens) :
    Cuts cs tokens offset rest := by
  have hpositive := List.length_pos_iff.mpr hne
  intro fuel hfuel
  rw [List.length_append] at hfuel
  obtain ⟨fuel, rfl⟩ : ∃ n, fuel = n + 1 := Nat.exists_eq_add_one_of_ne_zero (by omega)
  exact ⟨[⟨kind, offset, cs⟩], fuel, by omega, piecesFrom_append hne h offset fuel, htokens⟩

end Cuts

theorem cuts_gap {gap : List Char} (h : ∀ c ∈ gap, isSpace c = true) (offset : Nat)
    (rest : List Char) : Cuts (bytesOf gap) [] offset rest := by
  induction gap generalizing offset with
  | nil => exact Cuts.nil rest offset
  | cons c more ih =>
      obtain ⟨hc, hmore⟩ := List.forall_mem_cons.mp h
      have hfirst := firstPiece_space hc (bytesOf more ++ rest)
      exact (Cuts.piece (charBytes_ne_nil c) hfirst rfl).append (ih hmore _)

theorem TypeToken.cuts {t : TypeToken} {next : List Char} (h : t.Ends next) (offset : Nat) :
    ∃ x : Token, (x.kind, x.text) = t.lexeme ∧
      Cuts (bytesOf t.chars) [x] offset (bytesOf next) := by
  obtain ⟨x, hx, hlexeme⟩ := Option.map_eq_some_iff.mp (t.token?_mk offset t.chars)
  have hne : bytesOf t.chars ≠ [] := by
    obtain ⟨c, more, hchars⟩ := List.exists_cons_of_ne_nil t.chars_ne_nil
    simp [hchars, charBytes_ne_nil]
  have hfirst : firstPiece (bytesOf t.chars ++ bytesOf next) =
      (t.pieceKind, (bytesOf t.chars).length) := by
    rw [← bytesOf_append]
    exact firstPiece_append h
  exact ⟨x, hlexeme, Cuts.piece hne hfirst (by rw [List.filterMap_cons_some hx]; rfl)⟩

theorem SpacedToken.ends_chars {x y : SpacedToken}
    (h : x.token.joinsTo y.token = true → y.gap ≠ []) (rest : List Char) :
    x.token.Ends (y.chars ++ rest) := by
  rw [SpacedToken.chars, List.append_assoc]
  cases hgap : y.gap with
  | nil =>
      rw [List.nil_append]
      refine TypeToken.ends_append ?_ rest
      rw [Bool.eq_false_iff]
      exact fun hjoins => h hjoins hgap
  | cons c more =>
      exact TypeToken.ends_space (y.isGap c (by simp [hgap])) _

theorem cuts_spaced {xs : List SpacedToken}
    (h : xs.IsChain fun x y => x.token.joinsTo y.token = true → y.gap ≠ []) {after : List Char}
    (hafter : ∀ c ∈ after, isSpace c = true) (offset : Nat) :
    ∃ tokens, tokens.map (fun x => (x.kind, x.text)) = xs.map (fun x => x.token.lexeme) ∧
      Cuts (bytesOf (xs.flatMap SpacedToken.chars)) tokens offset (bytesOf after) := by
  induction xs generalizing offset with
  | nil => exact ⟨[], rfl, Cuts.nil _ offset⟩
  | cons x rest ih =>
      have hrest : rest.IsChain fun x y => x.token.joinsTo y.token = true → y.gap ≠ [] := by
        cases rest with
        | nil => exact .nil
        | cons y more => exact (List.isChain_cons_cons.mp h).2
      have hends : x.token.Ends (rest.flatMap SpacedToken.chars ++ after) := by
        cases rest with
        | cons y more =>
            rw [List.flatMap_cons, List.append_assoc]
            exact SpacedToken.ends_chars (List.isChain_cons_cons.mp h).1 _
        | nil =>
            cases after with
            | nil => exact TypeToken.ends_nil _
            | cons c more => exact TypeToken.ends_space (hafter c List.mem_cons_self) _
      obtain ⟨first, hfirst, hcuts⟩ := TypeToken.cuts hends (offset + (bytesOf x.gap).length)
      obtain ⟨tokens, htokens, hmore⟩ :=
        ih hrest (offset + (bytesOf x.gap).length + (bytesOf x.token.chars).length)
      rw [bytesOf_append] at hcuts
      refine ⟨first :: tokens, by rw [List.map_cons, List.map_cons, hfirst, htokens], ?_⟩
      rw [List.flatMap_cons, SpacedToken.chars, List.append_assoc, bytesOf_append, bytesOf_append]
      exact (cuts_gap x.isGap offset _).append (hcuts.append hmore)

namespace TypeText

/-- A reader finds the tokens of a type however they are spaced. -/
theorem lexemesOf_text (t : TypeText) : lexemesOf t.text = t.tokens.map TypeToken.lexeme := by
  obtain ⟨found, hfound, hspaced⟩ := cuts_spaced t.apart t.isGap 0
  have hafter := cuts_gap t.isGap (0 + (bytesOf (t.spaced.flatMap SpacedToken.chars)).length) []
  have hbytes : byteChars (Utf8.encode t.text) =
      bytesOf (t.spaced.flatMap SpacedToken.chars) ++ bytesOf t.after := by
    rw [byteChars_encode, text, String.toList_ofList, chars, bytesOf_append]
  rw [← List.append_nil (bytesOf t.after)] at hspaced
  have hwhole := hspaced.append hafter
  rw [← hbytes, List.append_nil] at hwhole
  obtain ⟨ps, fuel, -, hpieces, htokens⟩ := hwhole (Utf8.encode t.text).length (by
    rw [List.append_nil, byteChars, List.length_map])
  have hnone : ∀ offset, piecesFrom offset fuel [] = [] := by
    intro offset
    cases fuel <;> rfl
  rw [hnone, List.append_nil, List.append_nil] at hpieces
  rw [lexemesOf, pieces, hpieces, htokens, hfound, tokens, List.map_map]
  rfl

theorem squeeze_text (t : TypeText) : Text.squeeze t.text.toList = compact t.tokens := by
  have hgap : ∀ gap : List Char, (∀ c ∈ gap, isSpace c = true) → Text.squeeze gap = [] := by
    intro gap hspace
    rw [Text.squeeze, List.filter_eq_nil_iff]
    intro c hc
    rw [isBlank_of_isSpace (hspace c hc)]
    decide
  have hspaced : ∀ xs : List SpacedToken, Text.squeeze (xs.flatMap SpacedToken.chars) =
      compact (xs.map SpacedToken.token) := by
    intro xs
    induction xs with
    | nil => rfl
    | cons x rest ih =>
        have hchars : Text.squeeze x.token.chars = x.token.chars :=
          List.filter_eq_self.mpr fun c hc => by rw [x.token.isBlank_chars c hc]; rfl
        have hfirst := hgap x.gap x.isGap
        rw [List.flatMap_cons, SpacedToken.chars, List.map_cons, compact_cons, ← ih]
        rw [Text.squeeze] at hfirst hchars ⊢
        rw [List.filter_append, List.filter_append, hfirst, hchars, List.nil_append]
        rfl
  have hafter := hgap t.after t.isGap
  rw [text, String.toList_ofList, chars, tokens, ← hspaced]
  rw [Text.squeeze] at hafter ⊢
  rw [List.filter_append, hafter, List.append_nil]
  rfl

end TypeText

/-! ### Single spaces -/

def SpacedToken.single (x : SpacedToken) : List Char :=
  if x.gap.isEmpty then x.token.chars else ' ' :: x.token.chars

theorem words_go_ne_nil {word : List Char} (h : word ≠ []) (cs : List Char) :
    Text.words.go word cs ≠ [] := by
  have hempty : word.isEmpty = false := List.isEmpty_eq_false_iff.mpr h
  induction cs generalizing word with
  | nil =>
      rw [Text.words.go, hempty]
      exact List.cons_ne_nil _ _
  | cons c rest ih =>
      rw [Text.words.go, hempty]
      split
      · exact List.cons_ne_nil _ _
      · exact ih (List.cons_ne_nil c word) rfl

theorem words_go_blanks {gap : List Char} (h : ∀ c ∈ gap, isSpace c = true) (rest : List Char) :
    Text.words.go [] (gap ++ rest) = Text.words.go [] rest := by
  induction gap with
  | nil => rfl
  | cons c more ih =>
      obtain ⟨hc, hmore⟩ := List.forall_mem_cons.mp h
      rw [List.cons_append, Text.words.go, isBlank_of_isSpace hc]
      exact ih hmore

theorem words_go_gap {gap : List Char} (h : ∀ c ∈ gap, isSpace c = true) (hgap : gap ≠ [])
    {word : List Char} (hword : word ≠ []) (rest : List Char) :
    Text.words.go word (gap ++ rest) = word.reverse :: Text.words.go [] rest := by
  obtain ⟨c, more, rfl⟩ := List.exists_cons_of_ne_nil hgap
  obtain ⟨hc, hmore⟩ := List.forall_mem_cons.mp h
  rw [List.cons_append, Text.words.go, isBlank_of_isSpace hc,
    List.isEmpty_eq_false_iff.mpr hword, words_go_blanks hmore]
  rfl

theorem words_go_chars {cs : List Char} (h : ∀ c ∈ cs, Text.isBlank c = false)
    (word rest : List Char) :
    Text.words.go word (cs ++ rest) = Text.words.go (cs.reverse ++ word) rest := by
  induction cs generalizing word with
  | nil => rfl
  | cons c more ih =>
      obtain ⟨hc, hmore⟩ := List.forall_mem_cons.mp h
      rw [List.cons_append, Text.words.go, hc, List.reverse_cons, List.append_assoc,
        List.singleton_append]
      exact ih hmore (c :: word)

theorem intercalate_words_go (xs : List SpacedToken) {after : List Char}
    (hafter : ∀ c ∈ after, isSpace c = true) {word : List Char} (hword : word ≠ []) :
    [' '].intercalate (Text.words.go word (xs.flatMap SpacedToken.chars ++ after)) =
      word.reverse ++ xs.flatMap SpacedToken.single := by
  induction xs generalizing word with
  | nil =>
      rw [List.flatMap_nil, List.flatMap_nil, List.nil_append, List.append_nil]
      cases after with
      | nil =>
          rw [Text.words.go, List.isEmpty_eq_false_iff.mpr hword]
          exact List.intercalate_singleton
      | cons c more =>
          have hend := words_go_gap hafter (List.cons_ne_nil c more) hword []
          rw [List.append_nil] at hend
          rw [hend]
          exact List.intercalate_singleton
  | cons x rest ih =>
      have hchars := words_go_chars x.token.isBlank_chars
      have hne : x.token.chars.reverse ≠ [] := List.reverse_ne_nil_iff.mpr x.token.chars_ne_nil
      rw [List.flatMap_cons, List.flatMap_cons, SpacedToken.chars, SpacedToken.single,
        List.append_assoc, List.append_assoc]
      cases hgap : x.gap.isEmpty with
      | true =>
          rw [List.isEmpty_iff.mp hgap, List.nil_append, hchars,
            ih (List.append_ne_nil_of_left_ne_nil hne word), List.reverse_append,
            List.reverse_reverse, List.append_assoc, if_pos rfl]
      | false =>
          have hmore := ih hne
          rw [List.reverse_reverse] at hmore
          rw [words_go_gap x.isGap (List.isEmpty_eq_false_iff.mp hgap) hword, hchars,
            List.append_nil,
            List.intercalate_cons_of_ne_nil (words_go_ne_nil hne _), hmore, if_neg (by decide)]
          simp

/-- Tokens tell where the spaces between them are. -/
theorem flatMap_single_inj {xs ys : List SpacedToken}
    (h : xs.map SpacedToken.token = ys.map SpacedToken.token) :
    xs.flatMap SpacedToken.single = ys.flatMap SpacedToken.single ↔
      xs.map (·.gap.isEmpty) = ys.map (·.gap.isEmpty) := by
  induction xs generalizing ys with
  | nil =>
      cases ys with
      | nil => simp
      | cons y more => cases h
  | cons x rest ih =>
      cases ys with
      | nil => cases h
      | cons y more =>
          obtain ⟨htoken, hmore⟩ := List.cons.inj h
          obtain ⟨c, cs, hchars⟩ := List.exists_cons_of_ne_nil y.token.chars_ne_nil
          have hc : c ≠ ' ' := by
            rintro rfl
            have hblank := y.token.isBlank_chars ' ' (hchars ▸ List.mem_cons_self)
            exact absurd hblank (by decide)
          rw [List.flatMap_cons, List.flatMap_cons, List.map_cons, List.map_cons, List.cons.injEq,
            ← ih hmore, SpacedToken.single, SpacedToken.single, htoken]
          cases x.gap.isEmpty <;> cases y.gap.isEmpty <;> simp [hchars, hc, hc.symm]

namespace TypeText

/-- For every two tokens of a type in succession, whether nothing stands between them. -/
def joints (t : TypeText) : List Bool := (t.spaced.drop 1).map (·.gap.isEmpty)

theorem toList_singleSpaced_text (t : TypeText) :
    (singleSpaced t.text).toList =
      (t.spaced.take 1).flatMap (·.token.chars) ++
        (t.spaced.drop 1).flatMap SpacedToken.single := by
  have hwords : (singleSpaced t.text).toList =
      [' '].intercalate (Text.words.go [] (t.spaced.flatMap SpacedToken.chars ++ t.after)) := by
    rw [singleSpaced, String.toList_intercalate, List.map_map, text, String.toList_ofList, chars,
      Text.words]
    simp
  rw [hwords]
  cases hspaced : t.spaced with
  | nil =>
      have hnone := words_go_blanks t.isGap []
      rw [List.append_nil] at hnone
      rw [List.flatMap_nil, List.nil_append, hnone]
      rfl
  | cons x rest =>
      have hne : x.token.chars.reverse ≠ [] := List.reverse_ne_nil_iff.mpr x.token.chars_ne_nil
      rw [List.flatMap_cons, SpacedToken.chars, List.append_assoc, List.append_assoc,
        words_go_blanks x.isGap, words_go_chars x.token.isBlank_chars, List.append_nil,
        intercalate_words_go rest t.isGap hne, List.reverse_reverse]
      simp

/-- With single spaces two ways to write a type are one if there is white space between the same
tokens, whatever there is of it and whatever stands at the ends. -/
theorem singleSpaced_text_inj {t u : TypeText} (h : t.tokens = u.tokens) :
    singleSpaced t.text = singleSpaced u.text ↔ t.joints = u.joints := by
  have hfirst : (t.spaced.take 1).map SpacedToken.token =
      (u.spaced.take 1).map SpacedToken.token := by
    rw [List.map_take, List.map_take]
    exact congrArg (List.take 1) h
  have hrest : (t.spaced.drop 1).map SpacedToken.token =
      (u.spaced.drop 1).map SpacedToken.token := by
    rw [List.map_drop, List.map_drop]
    exact congrArg (List.drop 1) h
  have hchars : (t.spaced.take 1).flatMap (·.token.chars) =
      (u.spaced.take 1).flatMap (·.token.chars) := by
    have hcompact := congrArg compact hfirst
    rwa [compact, compact, List.flatMap_map, List.flatMap_map] at hcompact
  rw [← String.toList_inj, toList_singleSpaced_text, toList_singleSpaced_text, hchars,
    List.append_cancel_left_eq, flatMap_single_inj hrest]
  rfl

end TypeText

end RouteLinks.Source
