import EntityQuery.Predicate.Evaluation

/-!
# What pending joins leave open

A choice with pending joins stands for all choices that fill them.  This file relates
the truth values that a predicate can still take to the ones it takes under those
choices: none is forgotten, and as soon as nothing that the predicate reads is pending,
only one is left.

Main results:

- Theorem `evaluate_mem_outcomes`: every extension evaluates to a truth value in the set.
- Theorem `outcomes_eq_exactly`: without pending fields the set has one member.
- Theorem `evaluate_congr`: a predicate depends on the values of its fields alone.
-/

namespace EntityQuery

/-! ## Sets of truth values -/

namespace Outcomes

/-- Sets with the same members are equal. -/
theorem eq_of_mem_iff {o q : Outcomes} (h : ∀ t, t ∈ o ↔ t ∈ q) : o = q := by
  have hyes := h .yes
  have hno := h .no
  have hunknown := h .unknown
  simp only [Membership.mem, contains] at hyes hno hunknown
  rcases o with ⟨a, b, c⟩
  rcases q with ⟨a', b', c'⟩
  simp only [mk.injEq]
  exact ⟨Bool.eq_iff_iff.mpr hyes, Bool.eq_iff_iff.mpr hno, Bool.eq_iff_iff.mpr hunknown⟩

/-- Single truth values combine to a single one. -/
theorem combine_exactly (f : Truth → Truth → Truth) (a b : Truth) :
    combine f (exactly a) (exactly b) = exactly (f a b) := by
  apply eq_of_mem_iff
  intro t
  simp only [mem_combine, mem_exactly]
  constructor
  · rintro ⟨a', rfl, b', rfl, h⟩
    exact h.symm
  · rintro rfl
    exact ⟨a, rfl, b, rfl, rfl⟩

@[simp] theorem not_exactly (t : Truth) : (exactly t).not = exactly t.not := by
  cases t <;> rfl

/-- A set of which nothing but true is left. -/
theorem isCertain_iff {o : Outcomes} : o.isCertain = true ↔ o = exactly .yes := by
  simp [isCertain]

/-- A set can become true exactly when true is a member. -/
theorem canBeTrue_iff {o : Outcomes} : o.canBeTrue = true ↔ Truth.yes ∈ o :=
  Iff.rfl

variable {α : Type}

/-- Members of the sets of a list combine to a member under AND. -/
theorem all_mem_all {items : List α} {truth : α → Truth} {set : α → Outcomes}
    (h : ∀ a ∈ items, truth a ∈ set a) :
    Truth.all (items.map truth) ∈ all (items.map set) := by
  induction items with
  | nil => exact mem_exactly.mpr rfl
  | cons a items ih =>
      have hrest := ih fun b hb => h b (List.mem_cons_of_mem a hb)
      exact mem_combine.mpr ⟨_, h a List.mem_cons_self, _, hrest, rfl⟩

/-- Members of the sets of a list combine to a member under OR. -/
theorem any_mem_any {items : List α} {truth : α → Truth} {set : α → Outcomes}
    (h : ∀ a ∈ items, truth a ∈ set a) :
    Truth.any (items.map truth) ∈ any (items.map set) := by
  induction items with
  | nil => exact mem_exactly.mpr rfl
  | cons a items ih =>
      have hrest := ih fun b hb => h b (List.mem_cons_of_mem a hb)
      exact mem_combine.mpr ⟨_, h a List.mem_cons_self, _, hrest, rfl⟩

/-- Single truth values combine to a single one under AND. -/
theorem all_exactly {items : List α} {truth : α → Truth} {set : α → Outcomes}
    (h : ∀ a ∈ items, set a = exactly (truth a)) :
    all (items.map set) = exactly (Truth.all (items.map truth)) := by
  induction items with
  | nil => rfl
  | cons a items ih =>
      have hrest := ih fun b hb => h b (List.mem_cons_of_mem a hb)
      calc
        all ((a :: items).map set) = combine .and (set a) (all (items.map set)) := rfl
        _ = combine .and (exactly (truth a)) (exactly (Truth.all (items.map truth))) := by
          rw [h a List.mem_cons_self, hrest]
        _ = exactly (Truth.all ((a :: items).map truth)) := combine_exactly _ _ _

/-- Single truth values combine to a single one under OR. -/
theorem any_exactly {items : List α} {truth : α → Truth} {set : α → Outcomes}
    (h : ∀ a ∈ items, set a = exactly (truth a)) :
    any (items.map set) = exactly (Truth.any (items.map truth)) := by
  induction items with
  | nil => rfl
  | cons a items ih =>
      have hrest := ih fun b hb => h b (List.mem_cons_of_mem a hb)
      calc
        any ((a :: items).map set) = combine .or (set a) (any (items.map set)) := rfl
        _ = combine .or (exactly (truth a)) (exactly (Truth.any (items.map truth))) := by
          rw [h a List.mem_cons_self, hrest]
        _ = exactly (Truth.any ((a :: items).map truth)) := combine_exactly _ _ _

end Outcomes

/-! ## Extensions of choices -/

namespace Choice

/-- A choice that keeps what another one has chosen and may fill what is pending
there. -/
structure Extends (c d : Choice) : Prop where
  root_eq : d.root = c.root
  length_eq : d.slots.length = c.slots.length
  keeps : ∀ (id : Nat) (slot : Slot), c.slots[id]? = some slot → slot ≠ .pending →
    d.slots[id]? = some slot

namespace Extends

theorem refl (c : Choice) : c.Extends c :=
  ⟨rfl, rfl, fun _ _ h _ => h⟩

theorem trans {c d e : Choice} (h : c.Extends d) (h' : d.Extends e) : c.Extends e :=
  ⟨h'.root_eq.trans h.root_eq, h'.length_eq.trans h.length_eq,
    fun id slot hslot hne => h'.keeps id slot (h.keeps id slot hslot hne) hne⟩

/-- A row that is chosen stays chosen. -/
theorem row?_eq {c d : Choice} (h : c.Extends d) {source : Source}
    (hs : c.isPending source = false) : d.row? source = c.row? source := by
  cases source with
  | root => exact congrArg some h.root_eq
  | join id =>
      cases hslot : c.slots[id]? with
      | none =>
          have hd : d.slots[id]? = none := by
            rw [List.getElem?_eq_none_iff] at hslot ⊢
            rw [h.length_eq]
            exact hslot
          simp [row?, hslot, hd]
      | some slot =>
          have hne : slot ≠ .pending := by
            rintro rfl
            simp [isPending, hslot] at hs
          simp [row?, hslot, h.keeps id slot hslot hne]

/-- The value of a field that is not pending stays the same. -/
theorem value_eq {c d : Choice} (h : c.Extends d) {f : FieldRef}
    (hf : c.isPending f.source = false) : d.value f = c.value f := by
  simp [value, h.row?_eq hf]

end Extends

/-- Filling a pending join extends a choice. -/
theorem extends_choose {c : Choice} {id : Nat} (h : c.slots[id]? = some .pending)
    (slot : Slot) : c.Extends (c.choose id slot) := by
  refine ⟨rfl, by simp [choose], ?_⟩
  intro k s hs hne
  have hk : id ≠ k := by
    rintro rfl
    rw [h] at hs
    exact hne (Option.some.inj hs).symm
  simp [choose, List.getElem?_set_ne hk, hs]

end Choice

/-! ## Predicates -/

namespace Predicate

/-- The fields of a part of a group are fields of the group. -/
theorem mem_fieldsOfEach {parts : List Predicate} {part : Predicate} {f : FieldRef}
    (hpart : part ∈ parts) (hf : f ∈ part.fields) : f ∈ fieldsOfEach parts := by
  rw [fieldsOfEach_eq_flatMap]
  exact List.mem_flatMap.mpr ⟨part, hpart, hf⟩

/-- A predicate depends on the values of its fields alone. -/
theorem evaluate_congr {c d : Choice} {p : Predicate}
    (h : ∀ f ∈ p.fields, c.value f = d.value f) : p.evaluate c = p.evaluate d := by
  induction p using Predicate.induct with
  | const b => rfl
  | all parts ih =>
      simp only [evaluate, evaluateEach_eq_map]
      congr 1
      exact List.map_congr_left fun part hpart =>
        ih part hpart fun f hf => h f (mem_fieldsOfEach hpart hf)
  | any parts ih =>
      simp only [evaluate, evaluateEach_eq_map]
      congr 1
      exact List.map_congr_left fun part hpart =>
        ih part hpart fun f hf => h f (mem_fieldsOfEach hpart hf)
  | not part ih =>
      simp only [evaluate]
      rw [ih h]
  | test f t =>
      simp only [evaluate]
      rw [h f List.mem_cons_self]

/-- However the pending joins are filled, a predicate takes one of the truth values
that were left open. -/
theorem evaluate_mem_outcomes {c d : Choice} (h : c.Extends d) (p : Predicate) :
    p.evaluate d ∈ p.outcomes c := by
  induction p using Predicate.induct with
  | const b => exact Outcomes.mem_exactly.mpr rfl
  | all parts ih =>
      simp only [evaluate, outcomes, evaluateEach_eq_map, outcomesEach_eq_map]
      exact Outcomes.all_mem_all ih
  | any parts ih =>
      simp only [evaluate, outcomes, evaluateEach_eq_map, outcomesEach_eq_map]
      exact Outcomes.any_mem_any ih
  | not part ih =>
      have hnot : (part.evaluate d).not.not = part.evaluate d := by
        cases part.evaluate d <;> rfl
      simp only [evaluate, outcomes, Outcomes.mem_not, hnot]
      exact ih
  | test f t =>
      simp only [evaluate, outcomes]
      by_cases hf : c.isPending f.source = true
      · simp [hf]
      · have hvalue := h.value_eq (Bool.eq_false_iff.mpr hf)
        simp [hf, hvalue]

/-- When none of its fields is pending, a predicate can take its truth value only. -/
theorem outcomes_eq_exactly {c : Choice} {p : Predicate}
    (h : ∀ f ∈ p.fields, c.isPending f.source = false) :
    p.outcomes c = .exactly (p.evaluate c) := by
  induction p using Predicate.induct with
  | const b => rfl
  | all parts ih =>
      simp only [evaluate, outcomes, evaluateEach_eq_map, outcomesEach_eq_map]
      exact Outcomes.all_exactly fun part hpart =>
        ih part hpart fun f hf => h f (mem_fieldsOfEach hpart hf)
  | any parts ih =>
      simp only [evaluate, outcomes, evaluateEach_eq_map, outcomesEach_eq_map]
      exact Outcomes.any_exactly fun part hpart =>
        ih part hpart fun f hf => h f (mem_fieldsOfEach hpart hf)
  | not part ih =>
      simp only [evaluate, outcomes]
      rw [ih h, Outcomes.not_exactly]
  | test f t => simp [evaluate, outcomes, h f List.mem_cons_self]

/-- A group is true when each of its parts is. -/
theorem evaluate_all_eq_yes_iff {c : Choice} {parts : List Predicate} :
    (Predicate.all parts).evaluate c = .yes ↔ ∀ part ∈ parts, part.evaluate c = .yes := by
  simp [evaluate, evaluateEach_eq_map, Truth.all_eq_yes_iff]

/-- An alternative is true when one of its parts is. -/
theorem evaluate_any_eq_yes_iff {c : Choice} {parts : List Predicate} :
    (Predicate.any parts).evaluate c = .yes ↔ ∃ part ∈ parts, part.evaluate c = .yes := by
  simp [evaluate, evaluateEach_eq_map, Truth.any_eq_yes_iff]

end Predicate

end EntityQuery
