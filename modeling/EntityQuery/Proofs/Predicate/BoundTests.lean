import EntityQuery.Proofs.Predicate.Tests

/-!
# Bound predicates

Binding changes nothing in a predicate but the operands of its comparisons.  Bound
operands are of the kinds of their fields, so they are bound to themselves, and a
comparison with one of them is undecided for missing values alone, NaNs aside.

Main results:

- Definition `Predicate.Parallel`: predicates of one shape, compared test by test.
- Theorem `Predicate.bind_eq_ok_iff`: a predicate is bound test by test.
- Theorem `Test.bind_cases`: what a test can be bound to.
- Theorem `Predicate.binding_settles_operands`: what is known of a bound predicate.
-/

namespace EntityQuery

/-! ## Operands of a kind -/

namespace Value

/-- The value is one of a kind.  A member of an enumeration must be declared there, at
its place and under its name. -/
def Belongs (v : Value) : FieldKind → Prop
  | .enum type => ∃ member, v = enum member ∧ type.variantAt? member.ordinal = some member.name
  | kind => v.IsOf kind

variable {kind : FieldKind} {v b : Value}

theorem Belongs.isOf (h : v.Belongs kind) : v.IsOf kind := by
  cases kind with
  | enum type =>
      obtain ⟨member, rfl, -⟩ := h
      exact ⟨member, rfl⟩
  | _ => exact h

/-- An operand that is bound to a kind belongs to the kind. -/
theorem belongs_of_bindOperand? (h : bindOperand? kind v = some b) : b.Belongs kind := by
  cases kind with
  | enum type =>
      cases v with
      | enum member =>
          rw [bindOperand?, Option.ite_none_right_eq_some] at h
          obtain ⟨hdeclared, hb⟩ := h
          cases hb
          exact ⟨member, rfl, hdeclared⟩
      | _ => cases h
  | _ => exact isOf_of_bindOperand? h

/-- The values of a kind are the operands that are bound to themselves. -/
theorem bindOperand?_of_belongs (h : v.Belongs kind) : bindOperand? kind v = some v := by
  cases kind with
  | enum type =>
      obtain ⟨member, rfl, hdeclared⟩ := h
      rw [bindOperand?, if_pos hdeclared]
  | _ =>
      obtain ⟨x, rfl⟩ := h
      rfl

end Value

namespace FieldRef

variable {f : FieldRef} {items bs : List Value}

/-- The items that are bound belong to the kind of the field. -/
theorem belongs_of_bindItems (h : f.bindItems items = .ok bs) : ∀ b ∈ bs, b.Belongs f.kind := by
  rw [bindItems_eq_collect] at h
  intro b hb
  obtain ⟨v, -, hv⟩ := (matched_collect h).back b hb
  exact Value.belongs_of_bindOperand? (bindOperand_eq_ok_iff.mp hv)

/-- Items of the kind of the field are bound to themselves. -/
theorem bindItems_of_belongs (h : ∀ v ∈ items, v.Belongs f.kind) : f.bindItems items = .ok items := by
  rw [bindItems_eq_collect]
  exact collect_eq_self fun v hv =>
    bindOperand_eq_ok_iff.mpr (Value.bindOperand?_of_belongs (h v hv))

end FieldRef

/-! ## Bound tests -/

namespace Test

/-- Two tests that differ in their operands at most. -/
inductive SameOperator : Test → Test → Prop
  | compare (comparison : Comparison) (v b : Value) :
    SameOperator (.compare comparison v) (.compare comparison b)
  | refl (t : Test) : SameOperator t t

/-- The operands of a test.  A membership test has the items of its list. -/
def operands : Test → List Value
  | compare .isIn (.list items) => items
  | compare _ operand => [operand]
  | _ => []

/-- The operands of a test belong to the kind of its field. -/
def Native (f : FieldRef) : Test → Prop
  | compare .isIn operand => ∃ items, operand = .list items ∧ ∀ v ∈ items, v.Belongs f.kind
  | compare _ operand => operand.Belongs f.kind
  | _ => True

variable {f : FieldRef} {t t' : Test}

theorem native_compare {comparison : Comparison} {v : Value} (hcomparison : comparison ≠ .isIn) :
    (compare comparison v).Native f ↔ v.Belongs f.kind := by
  cases comparison <;> first | exact Iff.rfl | exact absurd rfl hcomparison

theorem operands_compare {comparison : Comparison} {v : Value} (hcomparison : comparison ≠ .isIn) :
    (compare comparison v).operands = [v] := by
  cases comparison <;> first | rfl | exact absurd rfl hcomparison

/-- A test is bound by binding the operand of a comparison or the items of a membership
test; every other test stays as it is. -/
theorem bind_cases (h : t.bind f = .ok t') :
    (∃ comparison v b, comparison ≠ .isIn ∧ (comparison.isOrdering && !f.kind.isOrderable) = false ∧
      bindOperand? f.kind v = some b ∧ t = compare comparison v ∧ t' = compare comparison b) ∨
    (∃ items bs, f.bindItems items = .ok bs ∧
      t = compare .isIn (.list items) ∧ t' = compare .isIn (.list bs)) ∨
    (t' = t ∧ ∀ comparison v, t ≠ compare comparison v) := by
  cases t with
  | compare comparison v =>
      by_cases hcomparison : comparison = .isIn
      · subst hcomparison
        obtain ⟨items, bs, rfl, hbs, rfl⟩ := bind_isIn_eq_ok_iff.mp h
        exact .inr (.inl ⟨items, bs, hbs, rfl, rfl⟩)
      · obtain ⟨hordering, b, hb, rfl⟩ := (bind_compare_eq_ok_iff hcomparison).mp h
        exact .inl ⟨comparison, v, b, hcomparison, hordering, hb, rfl, rfl⟩
  | isTrue =>
      have heq : t' = isTrue := by
        rw [bind] at h
        split at h
        · exact (Except.ok.inj h).symm
        · cases h
      exact .inr (.inr ⟨heq, by simp⟩)
  | _ => exact .inr (.inr ⟨(Except.ok.inj h).symm, by simp⟩)

/-- A bound test asks what the test asked. -/
theorem sameOperator_of_bind (h : t.bind f = .ok t') : t.SameOperator t' := by
  rcases bind_cases h with ⟨_, _, _, -, -, -, rfl, rfl⟩ | ⟨_, _, -, rfl, rfl⟩ | ⟨rfl, -⟩
  · exact .compare _ _ _
  · exact .compare _ _ _
  · exact .refl _

/-- The operands of a bound test are the bound operands of the test. -/
theorem operands_of_bind (h : t.bind f = .ok t') :
    List.Forall₂ (fun v b => bindOperand? f.kind v = some b) t.operands t'.operands := by
  rcases bind_cases h with ⟨_, _, _, hcomparison, -, hb, rfl, rfl⟩ | ⟨_, _, hbs, rfl, rfl⟩ |
    ⟨rfl, hne⟩
  · rw [operands_compare hcomparison, operands_compare hcomparison]
    exact .cons hb .nil
  · rw [FieldRef.bindItems_eq_collect, collect_eq_ok_iff_forall₂] at hbs
    exact hbs.imp fun _ _ => FieldRef.bindOperand_eq_ok_iff.mp
  · cases t' with
    | compare comparison v => exact absurd rfl (hne comparison v)
    | _ => exact .nil

/-- The operands of a bound test belong to the kind of its field. -/
theorem native_of_bind (h : t.bind f = .ok t') : t'.Native f := by
  rcases bind_cases h with ⟨_, _, _, hcomparison, -, hb, -, rfl⟩ | ⟨_, bs, hbs, -, rfl⟩ | ⟨rfl, hne⟩
  · exact (native_compare hcomparison).mpr (Value.belongs_of_bindOperand? hb)
  · exact ⟨bs, rfl, FieldRef.belongs_of_bindItems hbs⟩
  · cases t' with
    | compare comparison v => exact absurd rfl (hne comparison v)
    | _ => trivial

/-- A test that is bound and has operands of the kind of its field is left as it is. -/
theorem eq_of_bind_of_native (h : t.bind f = .ok t') (hnative : t.Native f) : t' = t := by
  rcases bind_cases h with ⟨_, v, b, hcomparison, -, hb, rfl, rfl⟩ |
    ⟨items, bs, hbs, rfl, rfl⟩ | ⟨rfl, -⟩
  · rw [native_compare hcomparison] at hnative
    rw [Value.bindOperand?_of_belongs hnative] at hb
    cases hb
    rfl
  · obtain ⟨_, hlist, hbelongs⟩ := hnative
    cases hlist
    rw [FieldRef.bindItems_of_belongs hbelongs] at hbs
    cases hbs
    rfl
  · rfl

/-- A bound test is bound to itself. -/
theorem bind_of_bind (h : t.bind f = .ok t') : t'.bind f = .ok t' := by
  rcases bind_cases h with ⟨_, v, b, hcomparison, hordering, hb, rfl, rfl⟩ |
    ⟨items, bs, hbs, rfl, rfl⟩ | ⟨rfl, -⟩
  · have hself := Value.bindOperand?_of_belongs (Value.belongs_of_bindOperand? hb)
    exact (bind_compare_eq_ok_iff hcomparison).mpr ⟨hordering, b, hself, rfl⟩
  · have hself := FieldRef.bindItems_of_belongs (FieldRef.belongs_of_bindItems hbs)
    exact bind_isIn_eq_ok_iff.mpr ⟨bs, bs, rfl, hself, rfl⟩
  · exact h

/-- A comparison with operands of the kind of its field is undecided for nulls alone, when
the other values are of the kind, too, and there are no NaNs. -/
theorem evaluate_eq_unknown_iff_of_native {comparison : Comparison} {operand v : Value}
    (hnative : (compare comparison operand).Native f)
    (hoperands : ∀ b ∈ (compare comparison operand).operands, b.isNaN = false)
    (hv : v ≠ .null → v.IsOf f.kind ∧ v.isNaN = false) :
    (compare comparison operand).evaluate v = .unknown ↔ v = .null := by
  by_cases hcomparison : comparison = .isIn
  · subst hcomparison
    obtain ⟨items, rfl, -⟩ := hnative
    exact evaluate_isIn_eq_unknown_iff
  · rw [native_compare hcomparison] at hnative
    rw [operands_compare hcomparison, List.forall_mem_singleton] at hoperands
    rw [evaluate_compare_eq_unknown_iff hcomparison]
    exact Value.strictCompare?_eq_none_iff hnative.isOf hoperands hv

/-- What is known of a test of a field and the test that it is bound to. -/
structure Bound (f : FieldRef) (t t' : Test) : Prop where
  sameOperator : t.SameOperator t'
  operands : List.Forall₂ (fun v b => bindOperand? f.kind v = some b) t.operands t'.operands
  native : t'.Native f
  undecided_iff : ∀ comparison operand, t' = compare comparison operand →
    (∀ b ∈ t'.operands, b.isNaN = false) →
    ∀ c : Choice, (c.value f = .null ∨ (c.value f).IsOf f.kind ∧ (c.value f).isNaN = false) →
      ((Predicate.test f t').evaluate c = .unknown ↔ c.value f = .null)
  kept : t.Native f → ∀ c : Choice,
    (Predicate.test f t').evaluate c = (Predicate.test f t).evaluate c

theorem bound_of_bind (h : t.bind f = .ok t') : Bound f t t' where
  sameOperator := sameOperator_of_bind h
  operands := operands_of_bind h
  native := native_of_bind h
  undecided_iff := by
    rintro comparison operand rfl hoperands c hvalue
    rw [Predicate.evaluate]
    exact evaluate_eq_unknown_iff_of_native (native_of_bind h) hoperands hvalue.resolve_left
  kept := by
    intro hnative c
    rw [eq_of_bind_of_native h hnative]

end Test

/-! ## Parallel predicates -/

namespace Predicate

/-- Predicates of one shape over the same fields, whose tests are related to each other. -/
inductive Parallel (related : FieldRef → Test → Test → Prop) : Predicate → Predicate → Prop
  | const (b : Bool) : Parallel related (const b) (const b)
  | all {ps qs : List Predicate} (h : List.Forall₂ (Parallel related) ps qs) :
    Parallel related (all ps) (all qs)
  | any {ps qs : List Predicate} (h : List.Forall₂ (Parallel related) ps qs) :
    Parallel related (any ps) (any qs)
  | not {p q : Predicate} (h : Parallel related p q) : Parallel related (not p) (not q)
  | test {f : FieldRef} {t t' : Test} (h : related f t t') :
    Parallel related (test f t) (test f t')

variable {related related' : FieldRef → Test → Test → Prop} {p q : Predicate}

theorem Parallel.mono (h : Parallel related p q)
    (himp : ∀ f t t', related f t t' → related' f t t') : Parallel related' p q := by
  induction p using Predicate.induct generalizing q with
  | const b =>
      cases h
      exact .const b
  | all parts ih =>
      cases h with
      | all h => exact .all (forall₂_imp_of_mem (fun part hpart _ => ih part hpart) h)
  | any parts ih =>
      cases h with
      | any h => exact .any (forall₂_imp_of_mem (fun part hpart _ => ih part hpart) h)
  | not part ih =>
      cases h with
      | not h => exact .not (ih h)
  | test f t =>
      cases h with
      | test h => exact .test (himp f t _ h)

/-! ## Bound predicates -/

/-- The parts of a group are bound part by part. -/
theorem bindEach_eq_ok_iff {parts qs : List Predicate}
    (ih : ∀ part ∈ parts, ∀ q, part.bind = .ok q ↔ Parallel related part q) :
    bindEach parts = .ok qs ↔ List.Forall₂ (Parallel related) parts qs := by
  rw [bindEach_eq_collect, collect_eq_ok_iff_forall₂]
  constructor
  · exact forall₂_imp_of_mem fun part hpart q => (ih part hpart q).mp
  · exact forall₂_imp_of_mem fun part hpart q => (ih part hpart q).mpr

/-- A predicate is bound test by test. -/
theorem bind_eq_ok_iff :
    p.bind = .ok q ↔ Parallel (fun f t t' => t.bind f = .ok t') p q := by
  -- A group is bound as a whole or not at all, so its parts are settled before the group is.
  induction p using Predicate.induct generalizing q with
  | const b =>
      constructor
      · intro h
        cases h
        exact .const b
      · intro h
        cases h
        rfl
  | all parts ih =>
      rw [bind, map_eq_ok_iff]
      constructor
      · rintro ⟨qs, hqs, rfl⟩
        exact .all ((bindEach_eq_ok_iff fun part hpart _ => ih part hpart).mp hqs)
      · intro h
        cases h with
        | all hqs => exact ⟨_, (bindEach_eq_ok_iff fun part hpart _ => ih part hpart).mpr hqs, rfl⟩
  | any parts ih =>
      rw [bind, map_eq_ok_iff]
      constructor
      · rintro ⟨qs, hqs, rfl⟩
        exact .any ((bindEach_eq_ok_iff fun part hpart _ => ih part hpart).mp hqs)
      · intro h
        cases h with
        | any hqs => exact ⟨_, (bindEach_eq_ok_iff fun part hpart _ => ih part hpart).mpr hqs, rfl⟩
  | not part ih =>
      rw [bind, map_eq_ok_iff]
      constructor
      · rintro ⟨q, hq, rfl⟩
        exact .not (ih.mp hq)
      · intro h
        cases h with
        | not h => exact ⟨_, ih.mpr h, rfl⟩
  | test f t =>
      rw [bind, map_eq_ok_iff]
      constructor
      · rintro ⟨t', ht, rfl⟩
        exact .test ht
      · intro h
        cases h with
        | test h => exact ⟨_, h, rfl⟩

/-- Bound parts are bound to themselves when each of them is. -/
theorem bindEach_of_bindEach {parts qs : List Predicate}
    (ih : ∀ part ∈ parts, ∀ q, part.bind = .ok q → q.bind = .ok q)
    (h : bindEach parts = .ok qs) : bindEach qs = .ok qs := by
  rw [bindEach_eq_collect] at h ⊢
  apply collect_eq_self
  intro q hq
  obtain ⟨part, hpart, hbind⟩ := (matched_collect h).back q hq
  exact ih part hpart q hbind

/-- A bound predicate is bound to itself. -/
theorem bind_of_bind (h : p.bind = .ok q) : q.bind = .ok q := by
  induction p using Predicate.induct generalizing q with
  | const b =>
      cases h
      rfl
  | all parts ih =>
      obtain ⟨qs, hqs, rfl⟩ := exists_of_map_eq_ok h
      rw [bind, bindEach_of_bindEach (fun part hpart _ => ih part hpart) hqs]
      rfl
  | any parts ih =>
      obtain ⟨qs, hqs, rfl⟩ := exists_of_map_eq_ok h
      rw [bind, bindEach_of_bindEach (fun part hpart _ => ih part hpart) hqs]
      rfl
  | not part ih =>
      obtain ⟨q, hq, rfl⟩ := exists_of_map_eq_ok h
      rw [bind, ih hq]
      rfl
  | test f t =>
      obtain ⟨t', ht, rfl⟩ := exists_of_map_eq_ok h
      rw [bind, Test.bind_of_bind ht]
      rfl

/-- Binding keeps the shape of a predicate, its fields and what its tests ask.  All
operands are of the kinds of their fields afterwards, and binding again changes nothing.
A comparison is then undecided for nulls alone, among the values of the kind and without
NaNs, and a test whose operands were of the kind before keeps its truth value. -/
theorem binding_settles_operands (h : p.bind = .ok q) :
    q.bind = .ok q ∧ Parallel Test.Bound p q :=
  ⟨bind_of_bind h, (bind_eq_ok_iff.mp h).mono fun _ _ _ => Test.bound_of_bind⟩

/-- A number in a text and an integer for a float are bound inside a nested predicate. -/
theorem binding_settles_operands_books :
    let pages : FieldRef := ⟨.root, "pages", .int⟩
    let rating : FieldRef := ⟨.join 0, "rating", .float⟩
    let p := not (any [test pages (.compare .gte (.text " 40 ")),
      all [test rating (.compare .isIn (.list [.int 3, .float (.ofInt 4)])), test rating .isNull]])
    let q := not (any [test pages (.compare .gte (.int 40)),
      all [test rating (.compare .isIn (.list [.float (.ofInt 3), .float (.ofInt 4)])),
        test rating .isNull]])
    p.bind = .ok q ∧ q.bind = .ok q ∧ Parallel Test.Bound p q := by
  intro pages rating p q
  have hbind : p.bind = .ok q := rfl
  exact ⟨hbind, binding_settles_operands hbind⟩

end Predicate

end EntityQuery
