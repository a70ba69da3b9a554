import EntityQuery.Predicate.Evaluation
import EntityQuery.Proofs.Value.Kinds

/-!
# Tests of values

For every test, this file says of which values it is true, false or undecided, and what
it becomes when it is bound to the kind of a field.

Main results:

- Theorem `evaluate_compare`: a comparison asks for the order of two sides.
- Theorem `evaluate_isIn_eq_unknown_iff`: a membership test is undecided for nulls alone.
- Theorems `bind_compare_eq_ok_iff` and `bind_isIn_eq_ok_iff`: the comparisons that are
  bound, and what they become.
-/

namespace EntityQuery

/-! ## Truth values -/

namespace Truth

theorem not_eq_yes_iff {t : Truth} : t.not = .yes ↔ t = .no := by
  cases t <;> simp [not]

theorem ofBool_eq_yes_iff {b : Bool} : ofBool b = .yes ↔ b = true := by
  cases b <;> simp [ofBool]

theorem ofBool_eq_no_iff {b : Bool} : ofBool b = .no ↔ b = false := by
  cases b <;> simp [ofBool]

theorem ofBool_ne_unknown (b : Bool) : ofBool b ≠ .unknown := by
  cases b <;> simp [ofBool]

end Truth

namespace Test

/-! ## Tests without operands -/

variable {v : Value}

theorem evaluate_isNull : isNull.evaluate v = .ofBool v.isNull :=
  rfl

theorem evaluate_isNotNull : isNotNull.evaluate v = .ofBool (!v.isNull) :=
  rfl

theorem evaluate_isTrue : isTrue.evaluate v =
    match v with
    | .bool b => .ofBool b
    | .null => .unknown
    | _ => .no :=
  rfl

theorem evaluate_isNull_eq_yes_iff : isNull.evaluate v = .yes ↔ v = .null := by
  rw [evaluate_isNull, Truth.ofBool_eq_yes_iff, Value.isNull_iff]

theorem evaluate_isNotNull_eq_yes_iff : isNotNull.evaluate v = .yes ↔ v ≠ .null := by
  rw [evaluate_isNotNull, Truth.ofBool_eq_yes_iff, Bool.not_eq_true', ← Bool.not_eq_true,
    Value.isNull_iff]

theorem evaluate_isTrue_eq_yes_iff : isTrue.evaluate v = .yes ↔ v = .bool true := by
  cases v <;> simp [evaluate_isTrue, Truth.ofBool_eq_yes_iff]

theorem evaluate_isTrue_eq_no_iff : isTrue.evaluate v = .no ↔ v ≠ .null ∧ v ≠ .bool true := by
  cases v <;> simp [evaluate_isTrue, Truth.ofBool_eq_no_iff]

theorem evaluate_isTrue_eq_unknown_iff : isTrue.evaluate v = .unknown ↔ v = .null := by
  cases v <;> simp [evaluate_isTrue, Truth.ofBool_ne_unknown]

/-! ## Patterns -/

section Patterns

variable {pattern : String} {escape : Option Char}

/-- A pattern is matched against the text of a value, if it has one. -/
theorem evaluate_like : (like pattern escape).evaluate v =
    match v.renderText? with
    | some text => .ofBool (Like.matchesPattern (Text.lower text) pattern escape)
    | none => .unknown :=
  rfl

/-- A text matches or does not match; nothing else can be said of a value. -/
theorem evaluate_like_eq_yes_iff :
    (like pattern escape).evaluate v = .yes ↔ ∃ text, v.renderText? = some text ∧
      Like.matchesPattern (Text.lower text) pattern escape = true := by
  rw [evaluate_like]
  cases v.renderText? <;> simp [Truth.ofBool_eq_yes_iff]

theorem evaluate_like_eq_no_iff :
    (like pattern escape).evaluate v = .no ↔ ∃ text, v.renderText? = some text ∧
      ¬ Like.matchesPattern (Text.lower text) pattern escape = true := by
  rw [evaluate_like]
  cases v.renderText? <;> simp [Truth.ofBool_eq_no_iff]

/-- A value without a text is neither like a pattern nor unlike it. -/
theorem evaluate_like_eq_unknown_iff :
    (like pattern escape).evaluate v = .unknown ↔ v = .null ∨ ∃ items, v = .list items := by
  rw [← Value.renderText?_eq_none_iff, evaluate_like]
  cases v.renderText? <;> simp [Truth.ofBool_ne_unknown]

end Patterns

/-! ## Membership -/

section Membership

variable {items : List Value}

/-- A membership test of a value that is not missing asks for an equal item. -/
theorem evaluate_isIn : (compare .isIn (.list items)).evaluate v =
    if v.isNull then .unknown
    else .ofBool (items.any fun item => v.strictCompare? item == some .eq) := by
  cases v <;> rfl

/-- A membership test is true of values that are not missing and equal an item. -/
theorem evaluate_isIn_eq_yes_iff :
    (compare .isIn (.list items)).evaluate v = .yes ↔
      v ≠ .null ∧ ∃ item ∈ items, v.strictCompare? item = some .eq := by
  rw [evaluate_isIn]
  cases v <;> simp [Value.isNull, Truth.ofBool_eq_yes_iff]

/-- A membership test is false of values that are not missing and equal no item. -/
theorem evaluate_isIn_eq_no_iff :
    (compare .isIn (.list items)).evaluate v = .no ↔
      v ≠ .null ∧ ∀ item ∈ items, v.strictCompare? item ≠ some .eq := by
  rw [evaluate_isIn]
  cases v <;> simp [Value.isNull, Truth.ofBool_eq_no_iff]

/-- Membership in a list is decided for every value that is not missing. -/
theorem evaluate_isIn_eq_unknown_iff :
    (compare .isIn (.list items)).evaluate v = .unknown ↔ v = .null := by
  rw [evaluate_isIn]
  cases v <;> simp [Value.isNull, Truth.ofBool_ne_unknown]

end Membership

/-! ## Comparisons -/

section Comparisons

variable {comparison : Comparison} {operand : Value}

/-- A comparison asks for the order of two sides. -/
theorem evaluate_compare (hcomparison : comparison ≠ .isIn) :
    (compare comparison operand).evaluate v =
      match v.strictCompare? operand with
      | some o => .ofBool (comparison.accepts o)
      | none => .unknown := by
  rw [evaluate]
  unfold Comparison.evaluate
  split
  · next hmissing =>
      have hnone : v.strictCompare? operand = none := by
        rcases Bool.or_eq_true_iff.mp hmissing with h | h <;> rw [Value.isNull_iff.mp h]
        · cases operand <;> rfl
        · cases v <;> rfl
      rw [hnone]
  · cases comparison with
    | isIn => exact absurd rfl hcomparison
    | _ => rfl

/-- A comparison is true of values that are not missing and compare as it asks. -/
theorem evaluate_compare_eq_yes_iff (hcomparison : comparison ≠ .isIn) :
    (compare comparison operand).evaluate v = .yes ↔
      v ≠ .null ∧ ∃ o, v.strictCompare? operand = some o ∧ comparison.accepts o = true := by
  have hnull : ∀ o, v.strictCompare? operand = some o → v ≠ .null := by
    rintro o ho rfl
    cases operand <;> cases ho
  rw [evaluate_compare hcomparison]
  cases horder : v.strictCompare? operand with
  | none => simp
  | some o => simp [Truth.ofBool_eq_yes_iff, hnull o horder]

/-- A comparison is undecided for sides that do not compare. -/
theorem evaluate_compare_eq_unknown_iff (hcomparison : comparison ≠ .isIn) :
    (compare comparison operand).evaluate v = .unknown ↔ v.strictCompare? operand = none := by
  rw [evaluate_compare hcomparison]
  cases v.strictCompare? operand <;> simp [Truth.ofBool_ne_unknown]

/-- Comparisons that accept opposite orders have opposite truth values. -/
theorem evaluate_compare_opposite {opposite : Comparison} (hcomparison : comparison ≠ .isIn)
    (hopposite : opposite ≠ .isIn) (h : ∀ o, opposite.accepts o = !comparison.accepts o) :
    (compare opposite operand).evaluate v = ((compare comparison operand).evaluate v).not := by
  rw [evaluate_compare hcomparison, evaluate_compare hopposite]
  cases v.strictCompare? operand with
  | none => rfl
  | some o =>
      simp only [h]
      cases comparison.accepts o <;> rfl

end Comparisons

/-! ## Bound tests -/

section Binding

variable {f : FieldRef} {comparison : Comparison} {t : Test}

/-- A comparison is bound by binding its operand, unless it is an ordering of a kind
without one. -/
theorem bind_compare (hcomparison : comparison ≠ .isIn) (hv : ∀ items, v ≠ .list items) :
    (compare comparison v).bind f =
      if comparison.isOrdering && !f.kind.isOrderable then
        .error (f.mismatch "ordering comparison")
      else (f.bindOperand v).map (compare comparison) := by
  cases comparison <;> cases v <;>
    first
      | rfl
      | exact absurd rfl hcomparison
      | exact absurd rfl (hv _)

/-- A list is no operand of a comparison. -/
theorem bind_compare_list {items : List Value} (hcomparison : comparison ≠ .isIn) :
    (compare comparison (.list items)).bind f ≠ .ok t := by
  cases comparison <;> cases hkind : f.kind.isOrderable <;>
    simp_all [bind, Comparison.isOrdering]

/-- A comparison is bound when its operand is, and an ordering only for an orderable
kind. -/
theorem bind_compare_eq_ok_iff (hcomparison : comparison ≠ .isIn) :
    (compare comparison v).bind f = .ok t ↔
      (comparison.isOrdering && !f.kind.isOrderable) = false ∧
        ∃ b, bindOperand? f.kind v = some b ∧ t = compare comparison b := by
  by_cases hv : ∃ items, v = .list items
  · obtain ⟨items, rfl⟩ := hv
    simp [bind_compare_list hcomparison, Value.bindOperand?_list]
  · rw [bind_compare hcomparison fun items hitems => hv ⟨items, hitems⟩]
    constructor
    · intro h
      split at h
      · cases h
      · next hordering =>
          obtain ⟨b, hb, rfl⟩ := exists_of_map_eq_ok h
          exact ⟨Bool.eq_false_iff.mpr hordering, b, FieldRef.bindOperand_eq_ok_iff.mp hb, rfl⟩
    · rintro ⟨hordering, b, hb, rfl⟩
      rw [hordering, if_neg Bool.false_ne_true, FieldRef.bindOperand_eq_ok_iff.mpr hb]
      rfl

/-- A membership test is bound when all items of its list are. -/
theorem bind_isIn_eq_ok_iff :
    (compare .isIn v).bind f = .ok t ↔ ∃ items bs, v = .list items ∧
      f.bindItems items = .ok bs ∧ t = compare .isIn (.list bs) := by
  have hbind : ∀ items, (compare .isIn (.list items)).bind f =
      (f.bindItems items).map fun bound => compare .isIn (.list bound) := fun _ => rfl
  constructor
  · intro h
    cases v with
    | list items =>
        rw [hbind] at h
        obtain ⟨bs, hbs, rfl⟩ := exists_of_map_eq_ok h
        exact ⟨items, bs, rfl, hbs, rfl⟩
    | _ => cases h
  · rintro ⟨items, bs, rfl, hbs, rfl⟩
    rw [hbind, hbs]
    rfl

end Binding

end Test

end EntityQuery
