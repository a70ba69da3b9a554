import EntityQuery.Proofs.Like.Language

/-!
# Matching by a walk

A text can also be matched by walking through it and through the tokens of the pattern side
by side.  The walk remembers the last run that it has met and how far this run reaches.
When a token does not fit, the run takes one more character and the walk goes on behind it.
Earlier runs are never taken up again: what follows a run may stand further behind, but the
tokens before it need no more of the text than the walk has given them.

Main results:

- Definition `Walk.step`: one step, with every look at the text and the tokens checked.
- Theorem `Walk.Sound.step`: a step keeps what the walk knows, or answers rightly, and
  there is less left to do.
- Theorem `walk_ends_with_matchesPattern`: the walk ends, never looks outside, and answers
  whether the text is in the language of the pattern.
- Theorem `containing_matches_exactly`: the pattern for a literal.
-/

namespace EntityQuery.Like

/-! ## Walks -/

/-- A run that has been met: its place among the tokens, and the place in the text up to
which it reaches. -/
structure MetRun where
  token : Nat
  reach : Nat
deriving DecidableEq, Repr

/-- Where a walk stands in the text and among the tokens, and the last run it has met. -/
structure Walk where
  place : Nat := 0
  token : Nat := 0
  run : Option MetRun := none
deriving DecidableEq, Repr

namespace Walk

/-- What a step leads to.  A look at a place that the text or the tokens do not have is
told apart. -/
inductive Outcome where
  | next (w : Walk)
  | answer (matched : Bool)
  | outside
deriving DecidableEq, Repr

/-- The token takes the character. -/
def forward (w : Walk) : Walk :=
  { w with place := w.place + 1, token := w.token + 1 }

/-- A run is met, which takes no character yet. -/
def meet (w : Walk) : Walk :=
  { w with token := w.token + 1, run := some ⟨w.token, w.place⟩ }

/-- The walk behind a run that takes one more character. -/
def behind (r : MetRun) : Walk :=
  ⟨r.reach + 1, r.token + 1, some { r with reach := r.reach + 1 }⟩

/-- The token does not fit: the last run takes one more character, if there is a run. -/
def back (w : Walk) : Outcome :=
  match w.run with
  | none => .answer false
  | some r => .next (behind r)

/-- One step.  At the end of the text only runs may be left. -/
def step (ts : List Token) (cs : List Char) (w : Walk) : Outcome :=
  if w.place < cs.length then
    match ts[w.token]? with
    | some .one => .next w.forward
    | some (.literal d) =>
      match cs[w.place]? with
      | none => .outside
      | some c => if d = c then .next w.forward else w.back
    | some .any => .next w.meet
    | none => w.back
  else if w.token ≤ ts.length then .answer ((ts.drop w.token).all (· == .any))
  else .outside

/-- The walk ends with an answer after finitely many steps, none of which looks outside. -/
inductive Ends (ts : List Token) (cs : List Char) : Walk → Bool → Prop
  | answer {w : Walk} {matched : Bool} (h : w.step ts cs = .answer matched) :
      Ends ts cs w matched
  | next {w w' : Walk} {matched : Bool} (h : w.step ts cs = .next w')
      (hrest : Ends ts cs w' matched) : Ends ts cs w matched

end Walk

/-! ## Tokens at a place of the text -/

section Places

variable {ts : List Token} {cs : List Char} {t : Token} {i : Nat}

/-- The characters that a token takes one at a time. -/
def Token.Takes : Token → Char → Prop
  | any, _ => False
  | one, _ => True
  | literal d, c => d = c

theorem drop_eq_cons_of_getElem? {α : Type} {xs : List α} {x : α} (h : xs[i]? = some x) :
    xs.drop i = x :: xs.drop (i + 1) := by
  obtain ⟨hi, rfl⟩ := List.getElem?_eq_some_iff.mp h
  exact List.drop_eq_getElem_cons hi

/-- A token that is no run takes the character at its place. -/
theorem stands_cons_drop_iff (ht : t ≠ .any) :
    Stands (t :: ts) (cs.drop i) ↔
      ∃ c, cs[i]? = some c ∧ t.Takes c ∧ Stands ts (cs.drop (i + 1)) := by
  constructor
  · intro h
    cases hc : cs[i]? with
    | none =>
        rw [List.drop_eq_nil_iff.mpr (List.getElem?_eq_none_iff.mp hc)] at h
        cases t with
        | any => exact absurd rfl ht
        | one => cases h
        | literal d => cases h
    | some c =>
        rw [drop_eq_cons_of_getElem? hc] at h
        refine ⟨c, rfl, ?_⟩
        cases t with
        | any => exact absurd rfl ht
        | one =>
            cases h with
            | one _ hrest => exact ⟨trivial, hrest⟩
        | literal d =>
            cases h with
            | literal _ hrest => exact ⟨rfl, hrest⟩
  · rintro ⟨c, hc, htakes, hrest⟩
    rw [drop_eq_cons_of_getElem? hc]
    cases t with
    | any => exact absurd rfl ht
    | one => exact .one c hrest
    | literal d =>
        cases htakes
        exact .literal _ hrest

/-- Behind a run the text may go on at any later place. -/
theorem stands_any_drop_iff (hi : i ≤ cs.length) :
    Stands (.any :: ts) (cs.drop i) ↔ ∃ k, i ≤ k ∧ k ≤ cs.length ∧ Stands ts (cs.drop k) := by
  constructor
  · intro h
    generalize hrest : cs.drop i = rest at h
    cases h with
    | run piece hts =>
        rename_i cs'
        have hlength := congrArg List.length hrest
        rw [List.length_drop, List.length_append] at hlength
        refine ⟨i + piece.length, by omega, by omega, ?_⟩
        rw [← List.drop_drop, hrest, List.drop_left]
        exact hts
  · rintro ⟨k, hik, -, hts⟩
    have hsplit : cs.drop i = (cs.drop i).take (k - i) ++ cs.drop k := by
      have hk : cs.drop k = (cs.drop i).drop (k - i) := by
        rw [List.drop_drop, Nat.add_sub_cancel' hik]
      rw [hk, List.take_append_drop]
    rw [hsplit]
    exact .run _ hts

/-- Only runs stand for the empty text. -/
theorem stands_nil_iff : Stands ts [] ↔ ts.all (· == .any) = true := by
  induction ts with
  | nil => exact ⟨fun _ => rfl, fun _ => .done⟩
  | cons t ts ih =>
      rw [List.all_cons, Bool.and_eq_true, beq_iff_eq, ← ih]
      constructor
      · intro h
        generalize hnil : ([] : List Char) = cs at h
        cases h with
        | run piece hts =>
            obtain ⟨rfl, rfl⟩ := List.append_eq_nil_iff.mp hnil.symm
            exact ⟨rfl, hts⟩
        | one => cases hnil
        | literal => cases hnil
      · rintro ⟨rfl, hts⟩
        exact .run [] hts

end Places

/-! ## What a walk knows -/

namespace Walk

variable {ts : List Token} {cs : List Char} {w w' : Walk}

/-- The token at which the walk has started, or started again behind a run. -/
def start (w : Walk) : Nat :=
  match w.run with
  | none => 0
  | some r => r.token + 1

/-- The place of the text at which it has started from there. -/
def reach (w : Walk) : Nat :=
  match w.run with
  | none => 0
  | some r => r.reach

/-- The places at which the tokens from the start on may still stand. -/
def MayStart (w : Walk) (k : Nat) : Prop :=
  match w.run with
  | none => k = 0
  | some r => r.reach ≤ k

theorem start_of_run {r : MetRun} (hr : w.run = some r) : w.start = r.token + 1 := by
  rw [start, hr]

theorem reach_of_run {r : MetRun} (hr : w.run = some r) : w.reach = r.reach := by
  rw [reach, hr]

theorem mayStart_of_run {r : MetRun} (hr : w.run = some r) {k : Nat} :
    w.MayStart k ↔ r.reach ≤ k := by
  rw [MayStart, hr]

theorem MayStart.reach_le {k : Nat} (h : w.MayStart k) : w.reach ≤ k := by
  unfold MayStart at h
  unfold reach
  split at h
  · exact Nat.zero_le k
  · exact h

theorem mayStart_reach : w.MayStart w.reach := by
  unfold MayStart reach
  split
  · rfl
  · exact Nat.le_refl _

/-- From its start on the walk has taken as many characters as tokens.  The text matches
exactly when the tokens from the start on stand at a place that is still open.  If they
stand at such a place, the tokens that are left stand as much further behind as the walk
has come; if those stand where the walk is, all stand where it has started. -/
structure Sound (ts : List Token) (cs : List Char) (w : Walk) : Prop where
  reach_le : w.reach ≤ w.place
  place_le : w.place ≤ cs.length
  token_le : w.token ≤ ts.length
  start_le : w.start ≤ ts.length
  matched : Stands ts cs ↔
    ∃ k, w.MayStart k ∧ k ≤ cs.length ∧ Stands (ts.drop w.start) (cs.drop k)
  onward : ∀ k, w.MayStart k → k ≤ cs.length → Stands (ts.drop w.start) (cs.drop k) →
    k + (w.place - w.reach) ≤ cs.length ∧
      Stands (ts.drop w.token) (cs.drop (k + (w.place - w.reach)))
  backward : Stands (ts.drop w.token) (cs.drop w.place) →
    Stands (ts.drop w.start) (cs.drop w.reach)

/-- What is left to do: how often the last run can still grow, and the tokens that are left
in between. -/
def left (ts : List Token) (cs : List Char) (w : Walk) : Nat :=
  (match w.run with
    | none => cs.length + 1
    | some r => cs.length - r.reach) * (ts.length + 1) + (ts.length - w.token)

namespace Sound

theorem new : Sound ts cs {} where
  reach_le := Nat.le_refl 0
  place_le := Nat.zero_le _
  token_le := Nat.zero_le _
  start_le := Nat.zero_le _
  matched := by
    constructor
    · intro h
      exact ⟨0, rfl, Nat.zero_le _, h⟩
    · rintro ⟨_, rfl, -, h⟩
      exact h
  onward := by
    rintro _ rfl hk h
    exact ⟨hk, h⟩
  backward := id

/-- A token that is no run and takes its character leads on. -/
theorem forward (h : Sound ts cs w) {t : Token} {c : Char} (ht : ts[w.token]? = some t)
    (hrun : t ≠ .any) (hc : cs[w.place]? = some c) (htakes : t.Takes c) :
    Sound ts cs w.forward where
  reach_le := Nat.le_succ_of_le h.reach_le
  place_le := (List.getElem?_eq_some_iff.mp hc).1
  token_le := (List.getElem?_eq_some_iff.mp ht).1
  start_le := h.start_le
  matched := h.matched
  onward := by
    intro k hk hlength hstart
    obtain ⟨-, hthere⟩ := h.onward k hk hlength hstart
    rw [drop_eq_cons_of_getElem? ht, stands_cons_drop_iff hrun] at hthere
    obtain ⟨d, hd, -, hrest⟩ := hthere
    have hlt := (List.getElem?_eq_some_iff.mp hd).1
    have hplace : k + (w.forward.place - w.forward.reach) = k + (w.place - w.reach) + 1 := by
      have := h.reach_le
      show k + (w.place + 1 - w.reach) = _
      omega
    rw [hplace]
    exact ⟨hlt, hrest⟩
  backward := by
    intro hrest
    apply h.backward
    rw [drop_eq_cons_of_getElem? ht, stands_cons_drop_iff hrun]
    exact ⟨c, hc, htakes, hrest⟩

/-- A run that is met is the only one that has to grow from then on. -/
theorem meet (h : Sound ts cs w) (ht : ts[w.token]? = some .any) : Sound ts cs w.meet where
  reach_le := Nat.le_refl _
  place_le := h.place_le
  token_le := (List.getElem?_eq_some_iff.mp ht).1
  start_le := (List.getElem?_eq_some_iff.mp ht).1
  matched := by
    have hdrop := drop_eq_cons_of_getElem? ht
    rw [h.matched]
    constructor
    · rintro ⟨k, hk, hlength, hstart⟩
      obtain ⟨hlength', hthere⟩ := h.onward k hk hlength hstart
      rw [hdrop, stands_any_drop_iff hlength'] at hthere
      obtain ⟨j, hj, hjlength, hrest⟩ := hthere
      have := hk.reach_le
      have := h.reach_le
      exact ⟨j, by show w.place ≤ j; omega, hjlength, hrest⟩
    · rintro ⟨j, hj, hjlength, hrest⟩
      refine ⟨w.reach, mayStart_reach, Nat.le_trans h.reach_le h.place_le, h.backward ?_⟩
      rw [hdrop, stands_any_drop_iff h.place_le]
      exact ⟨j, hj, hjlength, hrest⟩
  onward := by
    intro k hk hlength hstart
    have hzero : w.meet.place - w.meet.reach = 0 := Nat.sub_self _
    rw [hzero]
    exact ⟨hlength, hstart⟩
  backward := id

/-- What is left at a place where the tokens that are left do not stand. -/
theorem not_stands_reach (h : Sound ts cs w)
    (hfits : ¬ Stands (ts.drop w.token) (cs.drop w.place)) :
    ¬ Stands (ts.drop w.start) (cs.drop w.reach) := by
  intro hstart
  obtain ⟨-, hthere⟩ :=
    h.onward w.reach mayStart_reach (Nat.le_trans h.reach_le h.place_le) hstart
  rw [Nat.add_sub_cancel' h.reach_le] at hthere
  exact hfits hthere

/-- If the tokens that are left do not stand where the walk is, the last run has to take
one more character. -/
theorem behind (h : Sound ts cs w) {r : MetRun} (hr : w.run = some r)
    (hplace : w.place < cs.length) (hfits : ¬ Stands (ts.drop w.token) (cs.drop w.place)) :
    Sound ts cs (Walk.behind r) := by
  have hstart := start_of_run hr
  have hnot := h.not_stands_reach hfits
  have hreach_le := h.reach_le
  rw [hstart, reach_of_run hr] at hnot
  rw [reach_of_run hr] at hreach_le
  have htoken : r.token + 1 ≤ ts.length := hstart ▸ h.start_le
  refine ⟨Nat.le_refl _, by show r.reach + 1 ≤ cs.length; omega, htoken, htoken, ?_, ?_, id⟩
  · rw [h.matched, hstart]
    constructor
    · rintro ⟨k, hk, hlength, hthere⟩
      refine ⟨k, ?_, hlength, hthere⟩
      have hne : k ≠ r.reach := by
        rintro rfl
        exact hnot hthere
      have := (mayStart_of_run hr).mp hk
      show r.reach + 1 ≤ k
      omega
    · rintro ⟨k, hk, hlength, hthere⟩
      exact ⟨k, (mayStart_of_run hr).mpr (Nat.le_of_succ_le hk), hlength, hthere⟩
  · intro k hk hlength hthere
    have hzero : (Walk.behind r).place - (Walk.behind r).reach = 0 := Nat.sub_self _
    rw [hzero]
    exact ⟨hlength, hthere⟩

/-- At the end of the text it matches when only runs are left. -/
theorem matched_of_end (h : Sound ts cs w) (hend : w.place = cs.length) :
    (ts.drop w.token).all (· == .any) = true ↔ Stands ts cs := by
  have hnil : cs.drop w.place = [] := by rw [hend, List.drop_length]
  rw [← stands_nil_iff, h.matched]
  constructor
  · intro hrest
    refine ⟨w.reach, mayStart_reach, Nat.le_trans h.reach_le h.place_le, h.backward ?_⟩
    rw [hnil]
    exact hrest
  · rintro ⟨k, hk, hlength, hstart⟩
    obtain ⟨hlength', hthere⟩ := h.onward k hk hlength hstart
    have hplace : k + (w.place - w.reach) = w.place := by
      have := hk.reach_le
      have := h.reach_le
      omega
    rw [hplace, hnil] at hthere
    exact hthere

end Sound

/-! ## Steps -/

/-- A token that takes its character leaves less to do. -/
theorem left_forward_lt (h : w.token < ts.length) : w.forward.left ts cs < w.left ts cs := by
  unfold left forward
  dsimp only
  omega

/-- So does a run that is met: it reaches at least as far as the one before. -/
theorem left_meet_lt (h : Sound ts cs w) (ht : w.token < ts.length) :
    w.meet.left ts cs < w.left ts cs := by
  have hreach := h.reach_le
  have hplace := h.place_le
  unfold left meet
  dsimp only
  have hgrowths : cs.length - w.place ≤
      (match w.run with
        | none => cs.length + 1
        | some r => cs.length - r.reach) := by
    split
    · omega
    · next r hr =>
        rw [reach_of_run hr] at hreach
        omega
  have := Nat.mul_le_mul_right (ts.length + 1) hgrowths
  omega

/-- So does a run that takes one more character, although more tokens are left. -/
theorem left_behind_lt {r : MetRun} (hr : w.run = some r) (hreach : r.reach < cs.length) :
    (behind r).left ts cs < w.left ts cs := by
  unfold left behind
  rw [hr]
  dsimp only
  have hgrowths : cs.length - r.reach = cs.length - (r.reach + 1) + 1 := by omega
  rw [hgrowths, Nat.add_mul]
  omega

/-- A step that goes back leads to less to do, or answers that the text does not match. -/
theorem Sound.back (h : Sound ts cs w) (hplace : w.place < cs.length)
    (hfits : ¬ Stands (ts.drop w.token) (cs.drop w.place)) :
    (∃ w', w.back = .next w' ∧ Sound ts cs w' ∧ w'.left ts cs < w.left ts cs) ∨
      ∃ matched, w.back = .answer matched ∧ (matched = true ↔ Stands ts cs) := by
  unfold Walk.back
  cases hr : w.run with
  | none =>
      refine .inr ⟨false, rfl, ?_⟩
      rw [h.matched]
      constructor
      · intro hfalse
        cases hfalse
      · rintro ⟨k, hk, -, hstart⟩
        have hzero : k = w.reach := by
          unfold MayStart at hk
          unfold reach
          rw [hr] at hk ⊢
          exact hk
        exact absurd (hzero ▸ hstart) (h.not_stands_reach hfits)
  | some r =>
      have hreach : r.reach < cs.length := by
        have := h.reach_le
        rw [reach_of_run hr] at this
        omega
      exact .inl ⟨_, rfl, h.behind hr hplace hfits, left_behind_lt hr hreach⟩

/-- A step of a sound walk leads to a sound walk with less to do, or answers whether the
text matches. -/
theorem Sound.step (h : Sound ts cs w) :
    (∃ w', w.step ts cs = .next w' ∧ Sound ts cs w' ∧ w'.left ts cs < w.left ts cs) ∨
      ∃ matched, w.step ts cs = .answer matched ∧ (matched = true ↔ Stands ts cs) := by
  unfold Walk.step
  by_cases hplace : w.place < cs.length
  · rw [if_pos hplace]
    have hc : cs[w.place]? = some cs[w.place] := List.getElem?_eq_getElem hplace
    cases ht : ts[w.token]? with
    | none =>
        -- there are characters left and no tokens
        refine h.back hplace ?_
        rw [List.drop_eq_nil_iff.mpr (List.getElem?_eq_none_iff.mp ht),
          drop_eq_cons_of_getElem? hc]
        intro hnil
        cases hnil
    | some t =>
        have htoken := (List.getElem?_eq_some_iff.mp ht).1
        cases t with
        | any => exact .inl ⟨_, rfl, h.meet ht, left_meet_lt h htoken⟩
        | one =>
            exact .inl ⟨_, rfl, h.forward ht (by decide) hc trivial, left_forward_lt htoken⟩
        | literal d =>
            rw [hc]
            dsimp only
            split
            · next hd =>
                exact .inl ⟨_, rfl, h.forward ht (by simp) hc hd, left_forward_lt htoken⟩
            · next hd =>
                refine h.back hplace ?_
                rw [drop_eq_cons_of_getElem? ht, stands_cons_drop_iff (by simp)]
                rintro ⟨c, hc', htakes, -⟩
                rw [hc, Option.some.injEq] at hc'
                exact hd (htakes.trans hc'.symm)
  · rw [if_neg hplace, if_pos h.token_le]
    have hend : w.place = cs.length := Nat.le_antisymm h.place_le (Nat.le_of_not_lt hplace)
    exact .inr ⟨_, rfl, h.matched_of_end hend⟩

/-- A sound walk ends and answers whether the text matches. -/
theorem Sound.ends (h : Sound ts cs w) :
    ∃ matched, Ends ts cs w matched ∧ (matched = true ↔ Stands ts cs) := by
  -- The induction is on what is left to do, which every step makes less.
  induction hleft : w.left ts cs using Nat.strongRecOn generalizing w with
  | ind n ih =>
      rcases h.step with ⟨w', hstep, hsound, hlt⟩ | ⟨matched, hstep, hmatched⟩
      · obtain ⟨matched, hends, hmatched⟩ := ih _ (hleft ▸ hlt) hsound rfl
        exact ⟨matched, .next hstep hends, hmatched⟩
      · exact ⟨matched, .answer hstep, hmatched⟩

/-- From the start the walk ends with what matching by segments yields. -/
theorem ends_matchesTokens (ts : List Token) (cs : List Char) :
    Ends ts cs {} (matchesTokens ts cs) := by
  obtain ⟨matched, hends, hmatched⟩ := Sound.ends (.new : Sound ts cs {})
  have heq : matched = matchesTokens ts cs := by
    rw [Bool.eq_iff_iff, hmatched, matchesTokens_iff_stands]
  exact heq ▸ hends

end Walk

/-! ## Patterns -/

/-- The walk through a text and a pattern ends, never looks outside of either, and answers
whether the text is in the language of the pattern, whatever the escape character is, if
there is one. -/
theorem walk_ends_with_matchesPattern (text pattern : String) (escape : Option Char) :
    Walk.Ends (tokenize escape pattern.toList) text.toList {}
      (matchesPattern text pattern escape) ∧
    (matchesPattern text pattern escape = true ↔ Likes escape pattern.toList text.toList) :=
  ⟨Walk.ends_matchesTokens _ _, matchesPattern_iff_likes⟩

/-- The pattern for a literal consists of the characters of the literal in lower case
between two runs, and the walk through it answers whether the text contains the literal in
lower case.  No character of the literal is a wildcard or takes its neighbour away,
whichever character but `%` escapes. -/
theorem containing_matches_exactly {escape : Char} (he : escape ≠ '%') (literal text : String) :
    tokenize (some escape) (containing escape literal).toList =
      .any :: ((Text.lower literal).toList.map .literal ++ [.any]) ∧
    Walk.Ends (tokenize (some escape) (containing escape literal).toList) text.toList {}
      (matchesPattern text (containing escape literal) (some escape)) ∧
    (matchesPattern text (containing escape literal) (some escape) = true ↔
      (Text.lower literal).toList <:+: text.toList) := by
  rw [Text.toList_lower]
  exact ⟨tokenize_containing he literal, Walk.ends_matchesTokens _ _,
    matchesPattern_containing_iff he literal text⟩

/-- An underscore that escapes itself is no wildcard, and neither is the percent sign. -/
theorem containing_matches_exactly_underscore :
    '_' ≠ '%' ∧ matchesPattern "xa_%y" (containing '_' "A_%") (some '_') = true ∧
      ¬ matchesPattern "xab%y" (containing '_' "A_%") (some '_') = true := by
  have he : '_' ≠ '%' := by decide
  obtain ⟨-, -, hsame⟩ := containing_matches_exactly he "A_%" "xa_%y"
  obtain ⟨-, -, hother⟩ := containing_matches_exactly he "A_%" "xab%y"
  refine ⟨he, hsame.mpr ?_, fun h => ?_⟩
  · decide +kernel
  · revert h
    rw [hother]
    decide +kernel

end EntityQuery.Like
