import EntityQuery.Like.Matching

/-!
# The language of a pattern

A pattern is read from left to right: the text must split into pieces, one for every
wildcard and every character of the pattern.  Matching looks at segments between runs
and takes each at its first place; that loses no text, since what may stand behind a run
may stand there with more characters before it.

Main results:

- Definition `Likes`: the texts in the language of a pattern.
- Theorem `matchesPattern_iff_likes`: the texts that match a pattern are those.
- Theorem `matchesPattern_containing_iff`: the pattern for a literal matches the texts
  that contain it.
-/

namespace EntityQuery.Like

/-! ## Languages -/

/-- The texts that split into pieces for the tokens of a pattern. -/
inductive Stands : List Token → List Char → Prop
  | done : Stands [] []
  | run (piece : List Char) {ts : List Token} {cs : List Char} (h : Stands ts cs) :
      Stands (.any :: ts) (piece ++ cs)
  | one (c : Char) {ts : List Token} {cs : List Char} (h : Stands ts cs) :
      Stands (.one :: ts) (c :: cs)
  | literal (c : Char) {ts : List Token} {cs : List Char} (h : Stands ts cs) :
      Stands (.literal c :: ts) (c :: cs)

/-- The texts in the language of a pattern.  The escape character makes the character
after it stand for itself, and stands for itself at the end of the pattern; otherwise
`%` stands for any run of characters and `_` for any one character. -/
inductive Likes (escape : Option Char) : List Char → List Char → Prop
  | done : Likes escape [] []
  | trailing {e : Char} (he : some e = escape) : Likes escape [e] [e]
  | escaped {e : Char} (c : Char) {ps cs : List Char} (he : some e = escape)
      (h : Likes escape ps cs) : Likes escape (e :: c :: ps) (c :: cs)
  | run (piece : List Char) {ps cs : List Char} (he : some '%' ≠ escape)
      (h : Likes escape ps cs) : Likes escape ('%' :: ps) (piece ++ cs)
  | one (c : Char) {ps cs : List Char} (he : some '_' ≠ escape) (h : Likes escape ps cs) :
      Likes escape ('_' :: ps) (c :: cs)
  | literal (c : Char) {ps cs : List Char} (he : some c ≠ escape) (hrun : c ≠ '%')
      (hone : c ≠ '_') (h : Likes escape ps cs) : Likes escape (c :: ps) (c :: cs)

section Tokens

variable {escape : Option Char} {c e : Char} {ps cs : List Char}

/-- At the end of a pattern the escape character stands for itself. -/
theorem tokenize_trailing (he : some e = escape) : tokenize escape [e] = [.literal e] := by
  rw [tokenize.eq_def]
  simp only [if_pos he]

theorem tokenize_escaped (he : some e = escape) :
    tokenize escape (e :: c :: ps) = .literal c :: tokenize escape ps := by
  rw [tokenize.eq_def]
  simp only [if_pos he]

theorem tokenize_run (he : some '%' ≠ escape) :
    tokenize escape ('%' :: ps) = .any :: tokenize escape ps := by
  rw [tokenize.eq_def]
  simp only [if_neg he, if_true]

theorem tokenize_one (he : some '_' ≠ escape) :
    tokenize escape ('_' :: ps) = .one :: tokenize escape ps := by
  rw [tokenize.eq_def]
  simp only [if_neg he, Char.reduceEq, if_false, if_true]

theorem tokenize_literal (he : some c ≠ escape) (hrun : c ≠ '%') (hone : c ≠ '_') :
    tokenize escape (c :: ps) = .literal c :: tokenize escape ps := by
  rw [tokenize.eq_def]
  simp only [if_neg he, if_neg hrun, if_neg hone]

/-- A text is in the language of a pattern when it splits into pieces for its tokens. -/
theorem likes_iff_stands : Likes escape ps cs ↔ Stands (tokenize escape ps) cs := by
  constructor
  · intro h
    induction h with
    | done => exact .done
    | trailing he =>
        rw [tokenize_trailing he]
        exact .literal _ .done
    | escaped c he _ ih =>
        rw [tokenize_escaped he]
        exact .literal c ih
    | run piece he _ ih =>
        rw [tokenize_run he]
        exact .run piece ih
    | one c he _ ih =>
        rw [tokenize_one he]
        exact .one c ih
    | literal c he hrun hone _ ih =>
        rw [tokenize_literal he hrun hone]
        exact .literal c ih
  · intro h
    induction ps using tokenize.induct escape generalizing cs with
    | case1 =>
        cases h
        exact .done
    | case2 e he =>
        rw [tokenize_trailing he] at h
        cases h with
        | literal _ hnil =>
            cases hnil
            exact .trailing he
    | case3 e he c ps ih =>
        rw [tokenize_escaped he] at h
        cases h with
        | literal _ hrest => exact .escaped c he (ih hrest)
    | case4 ps he ih =>
        rw [tokenize_run he] at h
        cases h with
        | run piece hrest => exact .run piece he (ih hrest)
    | case5 ps he hrun ih =>
        rw [tokenize_one he] at h
        cases h with
        | one c hrest => exact .one c he (ih hrest)
    | case6 c ps he hrun hone ih =>
        rw [tokenize_literal he hrun hone] at h
        cases h with
        | literal _ hrest => exact .literal c he hrun hone (ih hrest)

end Tokens

/-! ## Segments -/

/-- A place of one character takes that character. -/
theorem strip?_literal (d c : Char) (ps : List Place) (cs : List Char) :
    strip? (some d :: ps) (c :: cs) = if c = d then strip? ps cs else none := by
  by_cases h : c = d <;> simp [strip?, fits, h]

/-- What follows a segment is the text without as many characters. -/
theorem eq_drop_of_strip? {segment : List Place} {cs rest : List Char}
    (h : strip? segment cs = some rest) : rest = cs.drop segment.length := by
  induction segment generalizing cs with
  | nil =>
      cases h
      rfl
  | cons p ps ih =>
      cases cs with
      | nil => cases h
      | cons c cs =>
          rw [strip?] at h
          split at h
          · exact ih h
          · cases h

/-- The segments behind runs split a text, each behind any number of characters and the
last at the end. -/
def Splits : List (List Place) → List Char → Prop
  | [], cs => cs = []
  | segment :: others, cs => ∃ piece mid rest, cs = piece ++ mid ∧
      strip? segment mid = some rest ∧ Splits others rest

/-- More characters may stand behind the first run. -/
theorem Splits.append {segment : List Place} {others : List (List Place)} {cs : List Char}
    (h : Splits (segment :: others) cs) (piece : List Char) :
    Splits (segment :: others) (piece ++ cs) := by
  obtain ⟨piece', mid, rest, rfl, hstrip, hothers⟩ := h
  exact ⟨piece ++ piece', mid, rest, (List.append_assoc _ _ _).symm, hstrip, hothers⟩

/-- A text splits for tokens when it splits for the segments that they are cut into. -/
theorem stands_iff_splits {ts : List Token} {cs : List Char} :
    Stands ts cs ↔
      ∃ rest, strip? (segments ts).1 cs = some rest ∧ Splits (segments ts).2 rest := by
  induction ts generalizing cs with
  | nil =>
      constructor
      · rintro ⟨⟩
        exact ⟨[], rfl, rfl⟩
      · rintro ⟨rest, hstrip, hnil⟩
        cases hstrip
        cases hnil
        exact .done
  | cons t ts ih =>
      cases t with
      | any =>
          constructor
          · intro h
            cases h with
            | run piece hrest =>
                obtain ⟨rest, hstrip, hothers⟩ := ih.mp hrest
                exact ⟨_, rfl, piece, _, rest, rfl, hstrip, hothers⟩
          · rintro ⟨_, hstrip, piece, mid, rest, rfl, hmid, hothers⟩
            cases hstrip
            exact .run piece (ih.mpr ⟨rest, hmid, hothers⟩)
      | one =>
          constructor
          · intro h
            cases h with
            | one c hrest =>
                obtain ⟨rest, hstrip, hothers⟩ := ih.mp hrest
                exact ⟨rest, hstrip, hothers⟩
          · rintro ⟨rest, hstrip, hothers⟩
            cases cs with
            | nil => cases hstrip
            | cons c cs => exact .one c (ih.mpr ⟨rest, hstrip, hothers⟩)
      | literal d =>
          constructor
          · intro h
            cases h with
            | literal _ hrest =>
                obtain ⟨rest, hstrip, hothers⟩ := ih.mp hrest
                refine ⟨rest, ?_, hothers⟩
                rw [segments, strip?_literal, if_pos rfl]
                exact hstrip
          · rintro ⟨rest, hstrip, hothers⟩
            cases cs with
            | nil => cases hstrip
            | cons c cs =>
                rw [segments, strip?_literal] at hstrip
                split at hstrip
                · next hc =>
                    rw [hc]
                    exact .literal d (ih.mpr ⟨rest, hstrip, hothers⟩)
                · cases hstrip

/-! ## The first place of a segment -/

/-- A segment that is found stands somewhere in the text. -/
theorem exists_of_findAfter? {segment : List Place} {cs rest : List Char}
    (h : findAfter? segment cs = some rest) :
    ∃ piece mid, cs = piece ++ mid ∧ strip? segment mid = some rest := by
  induction cs with
  | nil => exact ⟨[], [], rfl, h⟩
  | cons c cs ih =>
      rw [findAfter?] at h
      rcases Option.or_eq_some_iff.mp h with hhere | ⟨-, hlater⟩
      · exact ⟨[], c :: cs, rfl, hhere⟩
      · obtain ⟨piece, mid, rfl, hmid⟩ := ih hlater
        exact ⟨c :: piece, mid, rfl, hmid⟩

/-- A segment is found at its first place, so that whatever follows it at another place
is an end of what follows it there. -/
theorem exists_findAfter? {segment : List Place} (piece : List Char) {mid rest : List Char}
    (h : strip? segment mid = some rest) :
    ∃ more, findAfter? segment (piece ++ mid) = some (more ++ rest) := by
  induction piece with
  | nil =>
      refine ⟨[], ?_⟩
      cases mid with
      | nil => exact h
      | cons c cs =>
          rw [List.nil_append, findAfter?, h]
          rfl
  | cons c piece ih =>
      rw [List.cons_append, findAfter?]
      cases hhere : strip? segment (c :: (piece ++ mid)) with
      | none => exact ih
      | some rest' =>
          have hrest := eq_drop_of_strip? h
          have hrest' := eq_drop_of_strip? hhere
          have hlength := length_strip? h
          refine ⟨rest'.take (piece.length + 1), ?_⟩
          have hdrop : rest = rest'.drop (piece.length + 1) := by
            rw [hrest, hrest', List.drop_drop, ← List.cons_append, Nat.add_comm,
              ← List.drop_drop, List.drop_left' (by simp)]
          rw [hdrop, List.take_append_drop]
          rfl

/-- A text ends with a segment when the segment stands in it with nothing behind. -/
theorem endsWith_iff {segment : List Place} {cs : List Char} :
    endsWith segment cs = true ↔ Splits [segment] cs := by
  simp only [endsWith, Bool.and_eq_true, decide_eq_true_eq, beq_iff_eq]
  constructor
  · rintro ⟨-, hstrip⟩
    exact ⟨_, _, [], (List.take_append_drop (cs.length - segment.length) cs).symm, hstrip, rfl⟩
  · rintro ⟨piece, mid, _, rfl, hstrip, rfl⟩
    have hlength := length_strip? hstrip
    rw [List.length_nil, Nat.add_zero] at hlength
    refine ⟨by rw [List.length_append]; omega, ?_⟩
    rw [List.drop_left' (by rw [List.length_append]; omega)]
    exact hstrip

/-- Taking every segment at its first place finds a split if there is one. -/
theorem matchesSegments_iff {others : List (List Place)} {cs : List Char} :
    matchesSegments others cs = true ↔ Splits others cs := by
  induction others generalizing cs with
  | nil => rw [matchesSegments, List.isEmpty_iff, Splits]
  | cons segment others ih =>
      cases others with
      | nil => rw [matchesSegments, endsWith_iff]
      | cons next others =>
          rw [matchesSegments.eq_3 _ _ _ (List.cons_ne_nil next others)]
          constructor
          · intro h
            split at h
            · next rest hfind =>
                obtain ⟨piece, mid, hcs, hmid⟩ := exists_of_findAfter? hfind
                exact ⟨piece, mid, rest, hcs, hmid, ih.mp h⟩
            · cases h
          · rintro ⟨piece, mid, rest, rfl, hmid, hothers⟩
            obtain ⟨more, hfind⟩ := exists_findAfter? piece hmid
            rw [hfind]
            exact ih.mpr (hothers.append more)

/-! ## Matching -/

/-- A text matches tokens when it splits into pieces for them. -/
theorem matchesTokens_iff_stands {ts : List Token} {cs : List Char} :
    matchesTokens ts cs = true ↔ Stands ts cs := by
  rw [stands_iff_splits, matchesTokens]
  cases hstrip : strip? (segments ts).1 cs with
  | none => simp [hstrip]
  | some rest => simp [hstrip, matchesSegments_iff]

/-- A text matches a pattern when it is in the language of the pattern. -/
theorem matchesPattern_iff_likes {text pattern : String} {escape : Option Char} :
    matchesPattern text pattern escape = true ↔ Likes escape pattern.toList text.toList := by
  rw [matchesPattern, matchesTokens_iff_stands, likes_iff_stands]

/-! ## Literals -/

/-- The tokens of characters stand for these characters. -/
theorem stands_literals_append_iff {ls cs : List Char} {ts : List Token} :
    Stands (ls.map .literal ++ ts) cs ↔ ∃ rest, cs = ls ++ rest ∧ Stands ts rest := by
  induction ls generalizing cs with
  | nil => simp
  | cons l ls ih =>
      constructor
      · intro h
        cases h with
        | literal _ hrest =>
            obtain ⟨rest, rfl, hts⟩ := ih.mp hrest
            exact ⟨rest, rfl, hts⟩
      · rintro ⟨rest, rfl, hts⟩
        exact .literal l (ih.mpr ⟨rest, rfl, hts⟩)

/-- A run on its own stands for every text. -/
theorem stands_any (cs : List Char) : Stands [.any] cs := by
  have h := Stands.run cs .done
  rwa [List.append_nil] at h

/-- Between its two runs the pattern for a literal has the characters of the literal in
lower case, whatever the escape character, as long as it is not the character of runs. -/
theorem tokenize_containing {escape : Char} (he : escape ≠ '%') (literal : String) :
    tokenize (some escape) (containing escape literal).toList =
      .any :: ((Text.lowerChars literal.toList).map .literal ++ [.any]) := by
  have hrun : some '%' ≠ some escape := fun h => he (Option.some.inj h).symm
  rw [containing, String.toList_ofList, tokenize_run hrun, tokenize_escapeLiteral,
    tokenize_run hrun, tokenize]

/-- It matches the texts that contain the literal in lower case. -/
theorem matchesPattern_containing_iff {escape : Char} (he : escape ≠ '%') (literal text : String) :
    matchesPattern text (containing escape literal) (some escape) = true ↔
      Text.lowerChars literal.toList <:+: text.toList := by
  rw [matchesPattern, matchesTokens_iff_stands, tokenize_containing he]
  generalize text.toList = cs
  constructor
  · intro h
    cases h with
    | run piece hrest =>
        obtain ⟨rest, rfl, -⟩ := stands_literals_append_iff.mp hrest
        exact ⟨piece, rest, List.append_assoc _ _ _⟩
  · rintro ⟨piece, rest, rfl⟩
    rw [List.append_assoc]
    exact .run piece (stands_literals_append_iff.mpr ⟨rest, rfl, stands_any rest⟩)

end EntityQuery.Like
