import EntityQuery.Proofs.Join.Search

/-!
# Deciding a predicate early

Two evaluators stop before everything is known.  One goes through the parts of a group and
stops at the first part that decides it.  The other one works while joins are pending and
keeps every truth value that is still possible; a search gives up when true is none of them,
and accepts when true is the only one.

Main results:

- Definition `Predicate.judge`: evaluation part by part.
- Theorem `Predicate.judge_eq_evaluate`: stopping early does not change the truth value.
- Theorem `Choice.outcomes_sound`: no truth value is forgotten while joins are pending, and
  only the right one is left when nothing is.
-/

namespace EntityQuery

/-! ## Evaluation part by part -/

namespace Predicate

mutual

/-- The truth value of a predicate.  A group is read from its first part on, up to the first
one that decides it. -/
def judge (c : Choice) : Predicate → Truth
  | const b => .ofBool b
  | all parts => judgeAll c .yes parts
  | any parts => judgeAny c .no parts
  | not part => (judge c part).not
  | test field t => t.evaluate (c.value field)

/-- All of the parts, given what the parts before them have left: the first part that is false
decides, and an undecided one is remembered. -/
def judgeAll (c : Choice) (left : Truth) : List Predicate → Truth
  | [] => left
  | part :: parts =>
    match judge c part with
    | .no => .no
    | .unknown => judgeAll c .unknown parts
    | .yes => judgeAll c left parts

/-- One of the parts at least, given what the parts before them have left: the first part that
is true decides, and an undecided one is remembered. -/
def judgeAny (c : Choice) (left : Truth) : List Predicate → Truth
  | [] => left
  | part :: parts =>
    match judge c part with
    | .yes => .yes
    | .unknown => judgeAny c .unknown parts
    | .no => judgeAny c left parts

end

variable {c : Choice} {parts : List Predicate}

/-- Reading on in a group that no part has made false yet. -/
theorem judgeAll_eq (h : ∀ part ∈ parts, part.judge c = part.evaluate c) {left : Truth}
    (hleft : left ≠ .no) :
    judgeAll c left parts = left.and (Truth.all (parts.map (evaluate c))) := by
  induction parts generalizing left with
  | nil => cases left <;> simp_all [judgeAll, Truth.all, Truth.and]
  | cons part parts ih =>
      have hrest := fun p hp => h p (List.mem_cons_of_mem part hp)
      have hall : Truth.all ((part :: parts).map (evaluate c)) =
          (part.evaluate c).and (Truth.all (parts.map (evaluate c))) := rfl
      rw [judgeAll, h part List.mem_cons_self, hall]
      cases part.evaluate c with
      | no => cases left <;> rfl
      | unknown =>
          rw [ih hrest (by decide)]
          generalize Truth.all (parts.map (evaluate c)) = rest
          cases left <;> cases rest <;> simp_all [Truth.and]
      | yes =>
          rw [ih hrest hleft]
          generalize Truth.all (parts.map (evaluate c)) = rest
          cases rest <;> rfl

/-- Reading on in an alternative that no part has made true yet. -/
theorem judgeAny_eq (h : ∀ part ∈ parts, part.judge c = part.evaluate c) {left : Truth}
    (hleft : left ≠ .yes) :
    judgeAny c left parts = left.or (Truth.any (parts.map (evaluate c))) := by
  induction parts generalizing left with
  | nil => cases left <;> simp_all [judgeAny, Truth.any, Truth.or]
  | cons part parts ih =>
      have hrest := fun p hp => h p (List.mem_cons_of_mem part hp)
      have hany : Truth.any ((part :: parts).map (evaluate c)) =
          (part.evaluate c).or (Truth.any (parts.map (evaluate c))) := rfl
      rw [judgeAny, h part List.mem_cons_self, hany]
      cases part.evaluate c with
      | yes => cases left <;> rfl
      | unknown =>
          rw [ih hrest (by decide)]
          generalize Truth.any (parts.map (evaluate c)) = rest
          cases left <;> cases rest <;> simp_all [Truth.or]
      | no =>
          rw [ih hrest hleft]
          generalize Truth.any (parts.map (evaluate c)) = rest
          cases rest <;> rfl

/-- Stopping early does not change the truth value. -/
theorem judge_eq_evaluate (c : Choice) (p : Predicate) : p.judge c = p.evaluate c := by
  induction p using Predicate.induct with
  | const b => rfl
  | all parts ih =>
      rw [judge, evaluate, evaluateEach_eq_map, judgeAll_eq ih (by decide)]
      cases Truth.all (parts.map (evaluate c)) <;> rfl
  | any parts ih =>
      rw [judge, evaluate, evaluateEach_eq_map, judgeAny_eq ih (by decide)]
      cases Truth.any (parts.map (evaluate c)) <;> rfl
  | not part ih => rw [judge, evaluate, ih]
  | test f t => rfl

end Predicate

/-! ## Deciding while joins are pending -/

/-- The truth values that a predicate can still take hold every one that it takes when the
pending joins are filled, and just the one that it takes when it reads no pending join.  So a
list of predicates is given up only if no filling makes all of them true, and accepted only if
every filling does. -/
theorem Choice.outcomes_sound (c : Choice) :
    (∀ (p : Predicate) (d : Choice), c.Extends d → p.judge d ∈ p.outcomes c) ∧
    (∀ p : Predicate, (∀ f ∈ p.fields, c.isPending f.source = false) →
      p.outcomes c = .exactly (p.judge c)) ∧
    ∀ ps : List Predicate,
      ((reachable ps c).canBeTrue = false →
        ∀ d, c.Extends d → ∃ p ∈ ps, p.judge d ≠ .yes) ∧
      ((reachable ps c).isCertain = true →
        ∀ d, c.Extends d → ∀ p ∈ ps, p.judge d = .yes) := by
  simp only [Predicate.judge_eq_evaluate]
  refine ⟨fun p d hd => p.evaluate_mem_outcomes hd, fun p hp => Predicate.outcomes_eq_exactly hp,
    fun ps => ⟨?_, fun hcertain d hd => evaluate_of_isCertain hd hcertain⟩⟩
  intro hfalse d hd
  apply Classical.byContradiction
  intro hnone
  have htrue : ∀ p ∈ ps, p.evaluate d = .yes := by simpa using hnone
  rw [canBeTrue_of_evaluate hd htrue] at hfalse
  cases hfalse

/-- An author without a translator, whose books are pending.  The first list of predicates can
no longer become true, although one of them is open; the second one is accepted with an open
part inside; and a book is filled in. -/
theorem Choice.outcomes_sound_books :
    let year (source : Source) : FieldRef := ⟨source, "year", .int⟩
    let root : Row := .mk [("year", .int 1900)] []
    let c : Choice := ⟨root, [.pending, .empty]⟩
    let d : Choice := c.choose 0 (.row (.mk [("year", .int 1950)] []))
    let late : Predicate := .test (year (.join 0)) (.compare .gt (.int 1940))
    let translated : Predicate := .not (.test (year (.join 1)) (.compare .lt (.int 2000)))
    let old : Predicate := .test (year .root) (.compare .lt (.int 1910))
    let p : Predicate := .all [late, .any [translated, .const false]]
    c.Extends d ∧ p.judge d ∈ p.outcomes c ∧ p.outcomes c = ⟨false, true, true⟩ ∧
      translated.outcomes c = .exactly (translated.judge c) ∧
      (reachable [late, translated] c).canBeTrue = false ∧
      (∃ q ∈ [late, translated], q.judge d ≠ .yes) ∧
      (reachable [old, .any [late, old]] c).isCertain = true ∧
      ∀ q ∈ [old, .any [late, old]], q.judge d = .yes := by
  intro year root c d late translated old p
  have hd : c.Extends d := Choice.extends_choose rfl _
  obtain ⟨hmem, hexact, hpruned⟩ := c.outcomes_sound
  have hgiven : (reachable [late, translated] c).canBeTrue = false := by decide +kernel
  have htaken : (reachable [old, .any [late, old]] c).isCertain = true := by decide +kernel
  exact ⟨hd, hmem p d hd, by decide +kernel, hexact translated (by simp [translated, year, c,
    Predicate.fields, Choice.isPending]), hgiven, (hpruned _).1 hgiven d hd, htaken,
    (hpruned _).2 htaken d hd⟩

end EntityQuery
