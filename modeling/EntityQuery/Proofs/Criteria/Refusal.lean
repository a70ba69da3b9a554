import EntityQuery.Proofs.Criteria.Meaning
import EntityQuery.Proofs.Criteria.Probe
import EntityQuery.Proofs.Value.Kinds

/-!
# Criteria that are refused

A criterion is refused in two places.  Compilation refuses a value that coercion does not
let through for one of the sibling fields, and binding refuses what is left: an operator
that the kind of a field does not have, and a value of no form that the kind takes.

Main results:

- Definition `Criterion.RefusedBy`: the kinds whose fields cannot be asked a criterion.
- Theorem `exists_bind_error_iff_of_probe`: what binding refuses of a criterion.
- Theorem `exists_blamed_of_probe`: the mismatch blames a field that refuses.
- Theorem `FirstRejectedAt.compile_eq`: the fault of the first value coercion rejects.
-/

namespace EntityQuery

/-! ## What a criterion asks of a kind -/

/-- Whether the operator asks for a truth value. -/
def Operator.testsTruth : Operator → Bool
  | isTrue | isFalse => true
  | _ => false

/-- Whether the operator asks which side is smaller. -/
def Operator.isOrdering : Operator → Bool
  | lesserThan | lesserEquals | greaterThan | greaterEquals => true
  | _ => false

namespace Criterion

/-- The values that columns are compared with: the first one, or all for membership. -/
def used (c : Criterion) : List RawValue :=
  match c.operator with
  | .equals | .notEqual | .lesserThan | .lesserEquals | .greaterThan | .greaterEquals =>
    c.values.take 1
  | .isIn | .notIn => c.values
  | _ => []

/-- Fields of the kind cannot be asked the criterion: only truth values are true or false,
they are not ordered, and a value that is compared must have a form that the kind takes. -/
def RefusedBy (c : Criterion) (kind : FieldKind) : Prop :=
  (c.operator.testsTruth = true ∧ kind ≠ .bool) ∨
    (c.operator.isOrdering = true ∧ kind = .bool) ∨
    (kind.coercion = .passthrough ∧ ∃ raw ∈ c.used, ¬ kind.Takes raw)

/-- The field is one of the sibling fields at the end of the criterion's path. -/
def Names {E : Type} (schema : Schema E) (root : E) (c : Criterion) (f : Field) : Prop :=
  ∃ path rs, Path.ofColumn? c.column = some path ∧ schema.follow root path.hops = .ok rs ∧
    f.name ∈ path.fields ∧ (schema.entity (lastEntity root rs)).field? f.name = some f

end Criterion

/-! ## Mismatches -/

/-- The mismatch is about the field. -/
def KindMismatch.Blames (m : KindMismatch) (name : String) (kind : FieldKind) : Prop :=
  m.field = name ∧ m.kind = kind

section Field

variable {f : FieldRef} {m : KindMismatch}

/-- An operand is refused when it is none of the field's kind. -/
theorem FieldRef.exists_bindOperand_error_iff {v : Value} :
    (∃ m, f.bindOperand v = .error m) ↔ bindOperand? f.kind v = none := by
  unfold bindOperand
  cases bindOperand? f.kind v <;> simp

theorem FieldRef.blames_of_bindOperand {v : Value} (h : f.bindOperand v = .error m) :
    m.Blames f.name f.kind := by
  unfold bindOperand at h
  split at h
  · cases h
  · cases h
    exact ⟨rfl, rfl⟩

/-- A mapped result is at fault when the result is. -/
theorem map_eq_error_iff {ε α β : Type} {x : Except ε α} {g : α → β} {e : ε} :
    x.map g = .error e ↔ x = .error e := by
  cases x <;> simp [Except.map]

/-- A test that cannot be bound blames its field. -/
theorem Test.blames_of_bind {t : Test} (h : t.bind f = .error m) : m.Blames f.name f.kind := by
  cases t with
  | compare comparison operand =>
      unfold bind at h
      dsimp only at h
      split at h
      · cases h
        exact ⟨rfl, rfl⟩
      · split at h
        · rw [map_eq_error_iff, FieldRef.bindItems_eq_collect] at h
          obtain ⟨item, -, hitem⟩ := exists_mem_of_collect_error h
          exact FieldRef.blames_of_bindOperand hitem
        · cases h
          exact ⟨rfl, rfl⟩
        · cases h
          exact ⟨rfl, rfl⟩
        · rw [map_eq_error_iff] at h
          exact FieldRef.blames_of_bindOperand h
  | isTrue =>
      unfold bind at h
      dsimp only at h
      split at h
      · cases h
      · cases h
        exact ⟨rfl, rfl⟩
  | _ => cases h

end Field

/-- A predicate that cannot be bound blames a field that it reads. -/
theorem Predicate.exists_blamed_field {p : Predicate} {m : KindMismatch}
    (h : p.bind = .error m) : ∃ f ∈ p.fields, m.Blames f.name f.kind := by
  have hgroup : ∀ parts : List Predicate,
      (∀ part ∈ parts, part.bind = .error m → ∃ f ∈ part.fields, m.Blames f.name f.kind) →
      bindEach parts = .error m → ∃ f ∈ fieldsOfEach parts, m.Blames f.name f.kind := by
    intro parts ih hparts
    rw [bindEach_eq_collect] at hparts
    obtain ⟨part, hpart, hfault⟩ := exists_mem_of_collect_error hparts
    obtain ⟨f, hf, hblames⟩ := ih part hpart hfault
    exact ⟨f, mem_fieldsOfEach hpart hf, hblames⟩
  induction p using Predicate.induct with
  | const b => cases h
  | all parts ih =>
      rw [bind, map_eq_error_iff] at h
      exact hgroup parts ih h
  | any parts ih =>
      rw [bind, map_eq_error_iff] at h
      exact hgroup parts ih h
  | not part ih =>
      rw [bind, map_eq_error_iff] at h
      exact ih h
  | test f t =>
      rw [bind, map_eq_error_iff] at h
      exact ⟨f, List.mem_cons_self, Test.blames_of_bind h⟩

/-! ## Binding the predicates of a field -/

namespace Criterion

variable {c : Criterion} {f : FieldRef} {escape : Char} {ps : List Predicate} {p : Predicate}

/-- A comparison cannot be bound when it is an ordering of truth values, or when the kind
takes its value in no form. -/
theorem compareFirst_error_iff {comparison : Comparison} (hcomparison : comparison ≠ .isIn)
    (h : (c.compareFirst f comparison).map ([·]) = .ok ps) :
    (∃ p ∈ ps, ∃ m, p.bind = .error m) ↔ (comparison.isOrdering = true ∧ f.kind = .bool) ∨
      (f.kind.coercion = .passthrough ∧ ∃ raw ∈ c.values.take 1, ¬ f.kind.Takes raw) := by
  obtain ⟨p, hp, rfl⟩ := exists_of_map_eq_ok h
  obtain ⟨raw, raws, v, hvalues, hv, rfl⟩ := exists_of_compareFirst hp
  have hcoerce := operand_eq_ok_iff.mp hv
  have horderable : f.kind.isOrderable = false ↔ f.kind = .bool := by
    cases f.kind <;> simp [FieldKind.isOrderable]
  have hoperand := (FieldRef.exists_bindOperand_error_iff (f := f)).trans
    (bindOperand?_eq_none_iff_of_coerce hcoerce)
  simp only [List.mem_singleton, exists_eq_left, Predicate.bind, map_eq_error_iff,
    Test.bind_compare hcomparison (ne_list_of_coerce hcoerce), hvalues, List.take_succ_cons,
    List.take_zero]
  by_cases hordering : (comparison.isOrdering && !f.kind.isOrderable) = true
  · rw [if_pos hordering]
    simp only [Bool.and_eq_true, Bool.not_eq_true', horderable] at hordering
    exact iff_of_true ⟨_, rfl⟩ (Or.inl hordering)
  · rw [if_neg hordering]
    simp only [Bool.and_eq_true, Bool.not_eq_true', horderable] at hordering
    simp [map_eq_error_iff, hoperand, hordering]

/-- A membership test cannot be bound when the kind takes one of the values in no form. -/
theorem membership_error_iff (h : c.membership f = .ok p) :
    (∃ m, p.bind = .error m) ↔
      f.kind.coercion = .passthrough ∧ ∃ raw ∈ c.values, ¬ f.kind.Takes raw := by
  obtain ⟨vs, hvs, rfl⟩ := exists_of_map_eq_ok h
  have hbind : (∃ m, (Predicate.test f (.compare .isIn (Value.uniqueList vs))).bind = .error m) ↔
      ∃ m, f.bindItems (vs.foldl Value.addUnique []) = .error m := by
    simp [Predicate.bind, Value.uniqueList, Test.bind, Comparison.isOrdering, map_eq_error_iff]
  have hunique : (∃ m, f.bindItems (vs.foldl Value.addUnique []) = .error m) ↔
      ∃ v ∈ vs, bindOperand? f.kind v = none := by
    rw [FieldRef.bindItems_eq_collect, exists_collect_error_iff,
      ← Value.exists_unbound_unique_iff]
    simp only [FieldRef.exists_bindOperand_error_iff]
  have hcoerced : (∃ v ∈ vs, bindOperand? f.kind v = none) ↔
      ∃ raw ∈ c.values, f.kind.coercion = .passthrough ∧ ¬ f.kind.Takes raw := by
    rw [operands_eq_collect] at hvs
    exact ((matched_collect hvs).exists_iff fun raw v hv =>
      (bindOperand?_eq_none_iff_of_coerce (operand_eq_ok_iff.mp hv)).symm).symm
  rw [hbind, hunique, hcoerced]
  constructor
  · rintro ⟨raw, hraw, hkind, htakes⟩
    exact ⟨hkind, raw, hraw, htakes⟩
  · rintro ⟨hkind, raw, hraw, htakes⟩
    exact ⟨raw, hraw, hkind, htakes⟩

/-- A field refuses a criterion exactly when one of the predicates cannot be bound. -/
theorem exists_bind_error_iff_refusedBy (h : c.predicatesFor escape f = .ok ps) :
    (∃ p ∈ ps, ∃ m, p.bind = .error m) ↔ c.RefusedBy f.kind := by
  have htext : ∀ (raws : List RawValue) (test : RawValue → Predicate),
      (∀ raw, (test raw).bind = .ok (test raw)) →
      ¬ ∃ p ∈ raws.map test, ∃ m, p.bind = .error m := by
    rintro raws test htest ⟨p, hp, m, hm⟩
    obtain ⟨raw, -, rfl⟩ := List.mem_map.mp hp
    rw [htest] at hm
    cases hm
  have htruth : (∃ m, (Predicate.test f .isTrue).bind = .error m) ↔ f.kind ≠ .bool := by
    cases hkind : f.kind <;> simp [Predicate.bind, Test.bind, hkind, Except.map]
  have hnot : ∀ p : Predicate, (∃ m, p.not.bind = .error m) ↔ ∃ m, p.bind = .error m := by
    intro p
    simp only [Predicate.bind, map_eq_error_iff]
  obtain ⟨column, operator, values⟩ := c
  unfold RefusedBy used
  cases operator <;>
    simp only [Operator.testsTruth, Operator.isOrdering, Bool.false_eq_true, false_and, true_and,
      false_or, or_false, List.not_mem_nil, and_false, exists_false, iff_false]
  case contain | containWithWildcard | notContain | notContainWithWildcard =>
    cases h
    exact htext _ _ fun _ => rfl
  case isIn =>
    obtain ⟨p, hp, rfl⟩ := exists_of_map_eq_ok h
    simpa using membership_error_iff hp
  case notIn =>
    obtain ⟨p, hp, rfl⟩ := exists_of_map_eq_ok h
    simpa [hnot] using membership_error_iff hp
  case isTrue =>
    cases h
    simpa using htruth
  case isFalse =>
    cases h
    simpa [hnot] using htruth
  case isNull | notNull =>
    cases h
    simp [Predicate.bind, Test.bind, Except.map]
  all_goals simpa [Comparison.isOrdering] using compareFirst_error_iff (by decide) h

/-- An operator that has its values fails as the coercion of the values that it uses. -/
theorem predicatesFor_eq_error_iff
    (hvalues : ¬ (c.operator.requiresValues && c.values.isEmpty) = true)
    {fault : CriterionError} :
    c.predicatesFor escape f = .error fault ↔ operands f c.used = .error fault := by
  have hfirst : ∀ comparison, c.values ≠ [] →
      (c.compareFirst f comparison = .error fault ↔
        operands f (c.values.take 1) = .error fault) := by
    intro comparison hne
    unfold compareFirst
    cases hvalues : c.values with
    | nil => exact absurd hvalues hne
    | cons raw raws =>
        simp only [map_eq_error_iff, List.take_succ_cons, List.take_zero, operands]
        cases operand f raw <;> simp [Except.map]
  obtain ⟨column, operator, values⟩ := c
  unfold used predicatesFor
  cases operator <;> simp only [map_eq_error_iff, operands, reduceCtorEq, membership]
  all_goals
    apply hfirst
    rintro rfl
    exact hvalues rfl

end Criterion

/-! ## Sibling fields -/

section Siblings

variable {E : Type} {schema : Schema E} {escape : Char} {s : Scope E} {root : E} {c : Criterion}

/-- The predicates of a criterion on one of its sibling fields. -/
def Scope.branch (schema : Schema E) (escape : Char) (s : Scope E) (c : Criterion)
    (source : Source) (name : String) : Except CriterionError (List Predicate) :=
  match s.field schema source name with
  | .error e => .error (.name e)
  | .ok field => c.predicatesFor escape field

/-- The predicates on the sibling fields are collected. -/
theorem Scope.branches_eq_collect (source : Source) (names : List String) :
    s.branches schema escape c source names =
      (collect (s.branch schema escape c source) names).map List.flatten := by
  induction names with
  | nil => rfl
  | cons name names ih =>
      rw [branches, collect, branch, ih]
      cases s.field schema source name with
      | error e => rfl
      | ok field =>
          dsimp only
          cases c.predicatesFor escape field with
          | error e => rfl
          | ok predicates =>
              dsimp only
              cases collect (s.branch schema escape c source) names <;> simp [Except.map]

/-- The predicates on a sibling field that the entity has. -/
theorem Scope.branch_of_field? {name : String} {f : Field}
    (h : (schema.entity root).field? name = some f) :
    (Scope.new root).branch schema escape c .root name =
      c.predicatesFor escape ⟨.root, f.name, f.kind⟩ := by
  have hroot : (Scope.new root).entityAt .root = root := rfl
  simp only [branch, field, hroot, h]

namespace Criterion

/-- What a criterion looks for is one of its predicates on the sibling fields. -/
theorem exists_parts_of_probe {q : Probe E} (h : c.probe schema escape root = .ok q) :
    ∃ parts, q.test = .any parts ∧
      (∀ f, c.Names schema root f → ∃ ps,
        c.predicatesFor escape ⟨.root, f.name, f.kind⟩ = .ok ps ∧ ∀ p ∈ ps, p ∈ parts) ∧
      ∀ p ∈ parts, ∃ f ps, c.Names schema root f ∧
        c.predicatesFor escape ⟨.root, f.name, f.kind⟩ = .ok ps ∧ p ∈ ps := by
  obtain ⟨path, rs, parts, hpath, hfollow, hparts, rfl⟩ := exists_of_probe h
  rw [Scope.branches_eq_collect] at hparts
  obtain ⟨pss, hpss, rfl⟩ := exists_of_map_eq_ok hparts
  have hmatched := matched_collect hpss
  refine ⟨_, rfl, ?_, ?_⟩
  · rintro f ⟨path', rs', hpath', hfollow', hmem, hf⟩
    rw [hpath, Option.some.injEq] at hpath'
    subst hpath'
    rw [hfollow, Except.ok.injEq] at hfollow'
    subst hfollow'
    obtain ⟨ps, hps, hbranch⟩ := hmatched.forth f.name hmem
    rw [Scope.branch_of_field? hf] at hbranch
    exact ⟨ps, hbranch, fun p hp => List.mem_flatten.mpr ⟨ps, hps, hp⟩⟩
  · intro p hp
    obtain ⟨ps, hps, hmem⟩ := List.mem_flatten.mp hp
    obtain ⟨name, hname, hbranch⟩ := hmatched.back ps hps
    cases hf : (schema.entity (lastEntity root rs)).field? name with
    | none =>
        have hroot : (Scope.new (lastEntity root rs)).entityAt .root = lastEntity root rs := rfl
        simp [Scope.branch, Scope.field, hroot, hf] at hbranch
    | some f =>
        rw [Scope.branch_of_field? hf] at hbranch
        obtain rfl := Entity.name_of_field? hf
        exact ⟨f, ps, ⟨path, rs, hpath, hfollow, hname, hf⟩, hbranch, hmem⟩

/-! ## Binding -/

/-- One of the sibling fields refuses the criterion. -/
def RefusedAt (schema : Schema E) (root : E) (c : Criterion) (f : Field) : Prop :=
  c.Names schema root f ∧ c.RefusedBy f.kind

/-- What a criterion looks for cannot be bound exactly when a sibling field refuses the
criterion. -/
theorem exists_bind_error_iff_of_probe {q : Probe E} (h : c.probe schema escape root = .ok q) :
    (∃ m, q.bind = .error m) ↔ ∃ f, c.RefusedAt schema root f := by
  obtain ⟨parts, htest, hnamed, hparts⟩ := exists_parts_of_probe h
  have hbind : (∃ m, q.bind = .error m) ↔ ∃ p ∈ parts, ∃ m, p.bind = .error m := by
    simp only [Probe.bind, htest, Predicate.bind, map_eq_error_iff,
      Predicate.bindEach_eq_collect, exists_collect_error_iff]
  rw [hbind]
  constructor
  · rintro ⟨p, hp, hm⟩
    obtain ⟨f, ps, hf, hps, hmem⟩ := hparts p hp
    exact ⟨f, hf, (exists_bind_error_iff_refusedBy hps).mp ⟨p, hmem, hm⟩⟩
  · rintro ⟨f, hf, hrefused⟩
    obtain ⟨ps, hps, hsubset⟩ := hnamed f hf
    obtain ⟨p, hp, hm⟩ := (exists_bind_error_iff_refusedBy hps).mpr hrefused
    exact ⟨p, hsubset p hp, hm⟩

/-- The mismatch blames a sibling field that refuses the criterion. -/
theorem exists_blamed_of_probe {q : Probe E} {m : KindMismatch}
    (h : c.probe schema escape root = .ok q) (hm : q.bind = .error m) :
    ∃ f, c.RefusedAt schema root f ∧ m.Blames f.name f.kind := by
  obtain ⟨parts, htest, -, hparts⟩ := exists_parts_of_probe h
  simp only [Probe.bind, htest, Predicate.bind, map_eq_error_iff,
    Predicate.bindEach_eq_collect] at hm
  obtain ⟨p, hp, hfault⟩ := exists_mem_of_collect_error hm
  obtain ⟨f, ps, hf, hps, hmem⟩ := hparts p hp
  obtain ⟨g, hg, hblames⟩ := Predicate.exists_blamed_field hfault
  rw [fields_of_predicatesFor hps hmem, List.mem_singleton] at hg
  subst hg
  exact ⟨f, ⟨hf, (exists_bind_error_iff_refusedBy hps).mp ⟨p, hmem, m, hfault⟩⟩, hblames⟩

/-! ## Compilation -/

/-- Coercion rejects a value that the criterion uses, for one of its sibling fields. -/
structure RejectedAt (schema : Schema E) (root : E) (c : Criterion) (f : Field)
    (raw : RawValue) (cause : CoercionError) : Prop where
  names : c.Names schema root f
  mem_used : raw ∈ c.used
  coerce_eq : coerce f.kind raw = .error cause

/-- Coercion rejects a value for a sibling field, and neither the fields before it nor the
values before it are at fault. -/
def FirstRejectedAt (schema : Schema E) (root : E) (c : Criterion) (f : Field)
    (raw : RawValue) (cause : CoercionError) : Prop :=
  ∃ path rs before after us vs, Path.ofColumn? c.column = some path ∧
    schema.follow root path.hops = .ok rs ∧ path.fields = before ++ f.name :: after ∧
    (schema.entity (lastEntity root rs)).field? f.name = some f ∧
    (∀ name ∈ before, ∃ g, (schema.entity (lastEntity root rs)).field? name = some g ∧
      ∀ raw ∈ c.used, ∃ v, coerce g.kind raw = .ok v) ∧
    c.used = us ++ raw :: vs ∧ (∀ u ∈ us, ∃ v, coerce f.kind u = .ok v) ∧
    coerce f.kind raw = .error cause

/-- A criterion that uses a value has one. -/
theorem values_of_mem_used {raw : RawValue} (h : raw ∈ c.used) :
    ¬ (c.operator.requiresValues && c.values.isEmpty) = true := by
  obtain ⟨column, operator, values⟩ := c
  cases values with
  | nil => cases operator <;> cases h
  | cons value values => simp

theorem operand_of_coerce_error {f : FieldRef} {raw : RawValue} {cause : CoercionError}
    (h : coerce f.kind raw = .error cause) :
    operand f raw = .error (.invalidValue f.name cause) := by
  rw [operand, h]
  rfl

/-- A value that coercion rejects stops compilation. -/
theorem RejectedAt.exists_compile_error {f : Field} {raw : RawValue} {cause : CoercionError}
    (h : c.RejectedAt schema s.root f raw cause) :
    ∃ fault, (s.compile schema escape c).1 = .error fault := by
  cases hprobe : c.probe schema escape s.root with
  | error fault => exact ⟨fault, Scope.compile_of_probe_error hprobe⟩
  | ok q =>
      obtain ⟨parts, -, hnamed, -⟩ := exists_parts_of_probe hprobe
      obtain ⟨ps, hps, -⟩ := hnamed f h.names
      obtain ⟨fault, hfault⟩ :
          ∃ fault, operands ⟨.root, f.name, f.kind⟩ c.used = .error fault := by
        rw [operands_eq_collect, exists_collect_error_iff]
        exact ⟨raw, h.mem_used, _, operand_of_coerce_error h.coerce_eq⟩
      rw [← predicatesFor_eq_error_iff (values_of_mem_used h.mem_used), hps] at hfault
      cases hfault

/-- Fields whose kinds coerce all values that a criterion uses have predicates. -/
theorem exists_predicatesFor {f : FieldRef}
    (hvalues : ¬ (c.operator.requiresValues && c.values.isEmpty) = true)
    (h : ∀ raw ∈ c.used, ∃ v, coerce f.kind raw = .ok v) :
    ∃ ps, c.predicatesFor escape f = .ok ps := by
  cases hps : c.predicatesFor escape f with
  | ok ps => exact ⟨ps, rfl⟩
  | error fault =>
      rw [predicatesFor_eq_error_iff hvalues, operands_eq_collect] at hps
      obtain ⟨raw, hraw, hfault⟩ := exists_mem_of_collect_error hps
      obtain ⟨v, hv⟩ := h raw hraw
      rw [operand_eq_ok_iff.mpr hv] at hfault
      cases hfault

/-- The fault of the first value that coercion rejects is the fault of the criterion. -/
theorem FirstRejectedAt.probe_eq {f : Field} {raw : RawValue} {cause : CoercionError}
    (h : c.FirstRejectedAt schema root f raw cause) :
    c.probe schema escape root = .error (.invalidValue f.name cause) := by
  obtain ⟨path, rs, before, after, us, vs, hpath, hfollow, hfields, hf, hbefore, hused, hus,
    hcause⟩ := h
  have hmem : raw ∈ c.used := by
    rw [hused]
    simp
  have hvalues := values_of_mem_used hmem
  have hfault : c.predicatesFor escape ⟨.root, f.name, f.kind⟩ =
      .error (.invalidValue f.name cause) := by
    rw [predicatesFor_eq_error_iff hvalues, operands_eq_collect, hused]
    apply collect_of_first_error
    · intro u hu
      obtain ⟨v, hv⟩ := hus u hu
      exact ⟨v, operand_eq_ok_iff.mpr hv⟩
    · exact operand_of_coerce_error hcause
  have hbranches : (Scope.new (lastEntity root rs)).branches schema escape c .root path.fields =
      .error (.invalidValue f.name cause) := by
    rw [Scope.branches_eq_collect, map_eq_error_iff, hfields]
    apply collect_of_first_error
    · intro name hname
      obtain ⟨g, hg, hcoerced⟩ := hbefore name hname
      rw [Scope.branch_of_field? hg]
      exact exists_predicatesFor hvalues hcoerced
    · rw [Scope.branch_of_field? hf, hfault]
  rw [probe, if_neg hvalues, hpath]
  simp only [hfollow, hbranches]
  rfl

/-- A value that coercion rejects first is the fault that compilation stops with. -/
theorem FirstRejectedAt.compile_eq {f : Field} {raw : RawValue} {cause : CoercionError}
    (h : c.FirstRejectedAt schema s.root f raw cause) :
    (s.compile schema escape c).1 = .error (.invalidValue f.name cause) :=
  Scope.compile_of_probe_error h.probe_eq

end Criterion

end Siblings

end EntityQuery
