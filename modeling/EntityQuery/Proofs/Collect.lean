import EntityQuery.Predicate.Binding
import EntityQuery.Compilation
import EntityQuery.Proofs.Counterparts
import Mathlib.Data.List.Forall2

/-!
# Results of a list

Criteria are compiled and operands are bound one after another, up to the first fault.
Success means success for every member, and the results are the counterparts of the
members.

Main results:

- Definition `collect`: the results of a function on a list, or the first fault.
- Theorem `matched_collect`: results are counterparts.
- Theorem `collect_eq_ok_iff_forall₂`: they stand at the places of the members.
- Theorem `exists_collect`: there are results when every member has one.
- Theorem `collect_of_first_error`: otherwise the fault is the first one.
- Theorems `operands_eq_collect`, `bindItems_eq_collect`, `bindEach_eq_collect`: the
  functions that work in this way.
-/

namespace EntityQuery

variable {ε α β : Type}

/-- A result that is mapped comes from a result. -/
theorem exists_of_map_eq_ok {x : Except ε α} {f : α → β} {b : β} (h : x.map f = .ok b) :
    ∃ a, x = .ok a ∧ f a = b := by
  cases x with
  | error e => cases h
  | ok a =>
      cases h
      exact ⟨a, rfl, rfl⟩

theorem map_eq_ok_iff {x : Except ε α} {f : α → β} {b : β} :
    x.map f = .ok b ↔ ∃ a, x = .ok a ∧ f a = b := by
  constructor
  · exact exists_of_map_eq_ok
  · rintro ⟨a, rfl, rfl⟩
    rfl

/-- The results of a function on a list, or the first fault. -/
def collect (f : α → Except ε β) : List α → Except ε (List β)
  | [] => .ok []
  | a :: as =>
    match f a with
    | .error e => .error e
    | .ok b => (collect f as).map (b :: ·)

variable {f : α → Except ε β} {a : α} {b : β} {as : List α} {bs : List β}

theorem collect_cons (ha : f a = .ok b) (has : collect f as = .ok bs) :
    collect f (a :: as) = .ok (b :: bs) := by
  rw [collect, ha, has]
  rfl

/-- Success on a list is success on its first member and on the rest. -/
theorem exists_of_collect_cons (h : collect f (a :: as) = .ok bs) :
    ∃ b rest, f a = .ok b ∧ collect f as = .ok rest ∧ bs = b :: rest := by
  rw [collect] at h
  cases ha : f a with
  | error e => simp [ha] at h
  | ok b =>
      rw [ha] at h
      obtain ⟨rest, hrest, rfl⟩ := exists_of_map_eq_ok h
      exact ⟨b, rest, rfl, hrest, rfl⟩

/-- A fault on a list is one on its first member, or the first one on the rest. -/
theorem error_of_collect_cons {e : ε} (h : collect f (a :: as) = .error e) :
    f a = .error e ∨ ∃ b, f a = .ok b ∧ collect f as = .error e := by
  rw [collect] at h
  cases ha : f a with
  | error e' =>
      rw [ha] at h
      cases h
      exact Or.inl rfl
  | ok b =>
      rw [ha] at h
      cases has : collect f as with
      | error e' =>
          rw [has] at h
          cases h
          exact Or.inr ⟨b, rfl, rfl⟩
      | ok rest =>
          rw [has] at h
          cases h

/-- There are as many results as members. -/
theorem length_of_collect (h : collect f as = .ok bs) : bs.length = as.length := by
  induction as generalizing bs with
  | nil =>
      cases h
      rfl
  | cons a as ih =>
      obtain ⟨b, rest, -, hrest, rfl⟩ := exists_of_collect_cons h
      rw [List.length_cons, List.length_cons, ih hrest]

/-- There are no results exactly when there are no members. -/
theorem isEmpty_of_collect (h : collect f as = .ok bs) : bs.isEmpty = as.isEmpty := by
  have hlength := length_of_collect h
  cases as <;> cases bs <;> simp_all

/-- A relation that follows for the members of the first list follows for the lists. -/
theorem forall₂_imp_of_mem {R S : α → β → Prop} (h : ∀ a ∈ as, ∀ b, R a b → S a b)
    (hR : List.Forall₂ R as bs) : List.Forall₂ S as bs :=
  ((List.forall₂_and_left as bs).mpr ⟨h, hR⟩).imp fun _ b hab => hab.1 b hab.2

/-- The results of a list stand at the places of its members. -/
theorem collect_eq_ok_iff_forall₂ :
    collect f as = .ok bs ↔ List.Forall₂ (fun a b => f a = .ok b) as bs := by
  constructor
  · intro h
    induction as generalizing bs with
    | nil =>
        cases h
        exact .nil
    | cons a as ih =>
        obtain ⟨b, rest, ha, hrest, rfl⟩ := exists_of_collect_cons h
        exact .cons ha (ih hrest)
  · intro h
    induction h with
    | nil => rfl
    | cons ha _ ih => exact collect_cons ha ih

/-- Members that are related place by place are counterparts. -/
theorem Matched.of_forall₂ {related : α → β → Prop} (h : List.Forall₂ related as bs) :
    Matched related as bs := by
  induction h with
  | nil => exact .nil
  | cons hab _ ih => exact .cons hab ih

/-- The results of a list are the counterparts of its members. -/
theorem matched_collect (h : collect f as = .ok bs) : Matched (fun a b => f a = .ok b) as bs :=
  .of_forall₂ (collect_eq_ok_iff_forall₂.mp h)

/-- There are results when every member has one. -/
theorem exists_collect (h : ∀ a ∈ as, ∃ b, f a = .ok b) : ∃ bs, collect f as = .ok bs := by
  induction as with
  | nil => exact ⟨[], rfl⟩
  | cons a as ih =>
      obtain ⟨b, ha⟩ := h a List.mem_cons_self
      obtain ⟨bs, has⟩ := ih fun a' ha' => h a' (List.mem_cons_of_mem a ha')
      exact ⟨b :: bs, collect_cons ha has⟩

/-- A list is its own result when every member is. -/
theorem collect_eq_self {f : α → Except ε α} (h : ∀ a ∈ as, f a = .ok a) :
    collect f as = .ok as :=
  collect_eq_ok_iff_forall₂.mpr (List.forall₂_same.mpr h)

/-- The results of two lists stand one behind the other. -/
theorem exists_of_collect_append {as' : List α} (h : collect f (as ++ as') = .ok bs) :
    ∃ bs₁ bs₂, collect f as = .ok bs₁ ∧ collect f as' = .ok bs₂ ∧ bs = bs₁ ++ bs₂ := by
  induction as generalizing bs with
  | nil => exact ⟨[], bs, rfl, h, rfl⟩
  | cons a as ih =>
      obtain ⟨b, rest, ha, hrest, rfl⟩ := exists_of_collect_cons h
      obtain ⟨bs₁, bs₂, has, has', rfl⟩ := ih hrest
      exact ⟨b :: bs₁, bs₂, collect_cons ha has, has', rfl⟩

/-- A fault on a list is one on some member. -/
theorem exists_mem_of_collect_error {e : ε} (h : collect f as = .error e) :
    ∃ a ∈ as, f a = .error e := by
  induction as with
  | nil => cases h
  | cons a as ih =>
      rcases error_of_collect_cons h with ha | ⟨b, -, has⟩
      · exact ⟨a, List.mem_cons_self, ha⟩
      · obtain ⟨a', ha', hfault⟩ := ih has
        exact ⟨a', List.mem_cons_of_mem a ha', hfault⟩

/-- A list is at fault exactly when a member is. -/
theorem exists_collect_error_iff :
    (∃ e, collect f as = .error e) ↔ ∃ a ∈ as, ∃ e, f a = .error e := by
  constructor
  · rintro ⟨e, h⟩
    obtain ⟨a, ha, hfault⟩ := exists_mem_of_collect_error h
    exact ⟨a, ha, e, hfault⟩
  · rintro ⟨a, ha, e, hfault⟩
    cases h : collect f as with
    | error e' => exact ⟨e', rfl⟩
    | ok bs =>
        obtain ⟨b, -, hb⟩ := (matched_collect h).forth a ha
        rw [hfault] at hb
        cases hb

/-- The fault on a list is the first one on its members. -/
theorem collect_of_first_error {as' : List α} {e : ε} (has : ∀ a ∈ as, ∃ b, f a = .ok b)
    (ha : f a = .error e) : collect f (as ++ a :: as') = .error e := by
  induction as with
  | nil => rw [List.nil_append, collect, ha]
  | cons a' as ih =>
      obtain ⟨b, hb⟩ := has a' List.mem_cons_self
      rw [List.cons_append, collect, hb, ih fun a ha => has a (List.mem_cons_of_mem a' ha)]
      rfl

/-! ## Functions that collect -/

/-- The operands of a criterion are collected. -/
theorem Criterion.operands_eq_collect (field : FieldRef) (raws : List RawValue) :
    operands field raws = collect (operand field) raws := by
  induction raws with
  | nil => rfl
  | cons raw raws ih =>
      rw [operands, collect, ih]
      cases operand field raw <;> rfl

/-- The bound items of a list are collected. -/
theorem FieldRef.bindItems_eq_collect (field : FieldRef) (vs : List Value) :
    field.bindItems vs = collect field.bindOperand vs := by
  induction vs with
  | nil => rfl
  | cons v vs ih =>
      rw [bindItems, collect, ih]
      cases field.bindOperand v <;> rfl

/-- The bound parts of a group are collected. -/
theorem Predicate.bindEach_eq_collect (parts : List Predicate) :
    bindEach parts = collect bind parts := by
  induction parts with
  | nil => rfl
  | cons part parts ih =>
      rw [bindEach, collect, ih]
      cases part.bind <;> rfl

end EntityQuery
