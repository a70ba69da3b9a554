import EntityQuery.Proofs.Collect
import EntityQuery.Value.Order

/-!
# Operands of criteria

A raw value is coerced when a criterion is compiled and bound before rows are read.  For
membership, values that are equal to an earlier one are dropped in between; nothing is
lost, since equal values are bound to operands that every value compares with alike.

Main results:

- Definition `boundValue?`: the operand that a raw value becomes for a kind.
- Theorem `matched_uniqueList`: every value has an equal one among the unique ones.
- Theorem `Criterion.matched_boundValues`: the operands of a membership test are those of
  its values.
-/

namespace EntityQuery

/-- The operand that a raw value becomes for a kind, if it is accepted. -/
def boundValue? (kind : FieldKind) (raw : RawValue) : Option Value :=
  match coerce kind raw with
  | .ok v => bindOperand? kind v
  | .error _ => none

theorem boundValue?_of_coerce {kind : FieldKind} {raw : RawValue} {v : Value}
    (h : coerce kind raw = .ok v) : boundValue? kind raw = bindOperand? kind v := by
  rw [boundValue?, h]

/-! ## Equal values -/

/-- Every number compares alike with two equal ones. -/
theorem Binary64.compare?_congr {x y : Binary64} (h : x.valueEq y = true) (a : Binary64) :
    a.compare? x = a.compare? y := by
  have heq : x.compare? y = some .eq := beq_iff_eq.mp h
  have hnan : x.isNaN = false ∧ y.isNaN = false := by
    have hne : x.compare? y ≠ none := by
      rw [heq]
      exact Option.some_ne_none _
    rw [ne_eq, compare?_eq_none_iff, not_or] at hne
    exact ⟨Bool.eq_false_iff.mpr hne.1, Bool.eq_false_iff.mpr hne.2⟩
  have hkey : x.key = y.key := by
    rw [compare?_of_not_isNaN hnan.1 hnan.2, Option.some.injEq] at heq
    exact Std.LawfulEqOrd.eq_of_compare heq
  rw [compare?, compare?, hnan.1, hnan.2, hkey]

namespace Value

/-- Two operands that every value compares with alike. -/
def Alike (b b' : Value) : Prop :=
  ∀ v : Value, v.strictCompare? b = v.strictCompare? b'

/-- Equal values are the same, or they are equal numbers or lists. -/
theorem eq_of_same {w v : Value} (h : w.same v = true) :
    w = v ∨ (∃ x y, w = float x ∧ v = float y ∧ x.valueEq y = true) ∨ ∃ items, w = list items := by
  cases w <;> cases v <;> simp_all [same]

/-- A list is no operand of a single value. -/
theorem bindOperand?_list (kind : FieldKind) (items : List Value) :
    bindOperand? kind (.list items) = none := by
  cases kind <;> rfl

/-- A value that is equal to one that can be bound can be bound, too, and to an operand
alike. -/
theorem exists_bound_of_same {kind : FieldKind} {w v b : Value} (h : w.same v = true)
    (hb : bindOperand? kind w = some b) :
    ∃ b', bindOperand? kind v = some b' ∧ Alike b b' := by
  rcases eq_of_same h with rfl | ⟨x, y, rfl, rfl, hxy⟩ | ⟨items, rfl⟩
  · exact ⟨b, hb, fun _ => rfl⟩
  · cases kind with
    | float =>
        cases hb
        refine ⟨.float y, rfl, ?_⟩
        intro v
        cases v <;> first | exact Binary64.compare?_congr hxy _ | rfl
    | _ => cases hb
  · rw [bindOperand?_list] at hb
    cases hb

/-! ## Unique values -/

/-- A value that is added is there afterwards, or an equal one is. -/
theorem exists_mem_addUnique (values : List Value) (v : Value) :
    ∃ d ∈ addUnique values v, v = d ∨ d.same v = true := by
  unfold addUnique
  split
  · next h =>
      obtain ⟨d, hd, hsame⟩ := List.any_eq_true.mp h
      exact ⟨d, hd, Or.inr hsame⟩
  · exact ⟨v, List.mem_append_right _ (List.mem_singleton.mpr rfl), Or.inl rfl⟩

/-- Adding a value keeps the values that are there. -/
theorem mem_addUnique_of_mem {values : List Value} {d : Value} (h : d ∈ values) (v : Value) :
    d ∈ addUnique values v := by
  unfold addUnique
  split
  · exact h
  · exact List.mem_append_left _ h

/-- Adding a value adds no other. -/
theorem mem_of_mem_addUnique {values : List Value} {d v : Value} (h : d ∈ addUnique values v) :
    d ∈ values ∨ d = v := by
  unfold addUnique at h
  split at h
  · exact Or.inl h
  · rcases List.mem_append.mp h with h | h
    · exact Or.inl h
    · exact Or.inr (List.mem_singleton.mp h)

/-- Adding values one after another keeps the values that are there. -/
theorem mem_foldl_addUnique {values : List Value} {d : Value} (h : d ∈ values)
    (vs : List Value) : d ∈ vs.foldl addUnique values := by
  induction vs generalizing values with
  | nil => exact h
  | cons v vs ih => exact ih (mem_addUnique_of_mem h v)

/-- Adding values one after another adds no others. -/
theorem mem_of_mem_foldl_addUnique {values vs : List Value} {d : Value}
    (h : d ∈ vs.foldl addUnique values) : d ∈ values ∨ d ∈ vs := by
  induction vs generalizing values with
  | nil => exact Or.inl h
  | cons v vs ih =>
      rcases ih h with hd | hd
      · rcases mem_of_mem_addUnique hd with hd | rfl
        · exact Or.inl hd
        · exact Or.inr List.mem_cons_self
      · exact Or.inr (List.mem_cons_of_mem v hd)

/-- Every value of a list is, or is equal to, a unique one, and those are values of the
list. -/
theorem matched_uniqueList (vs : List Value) :
    Matched (fun v d => v = d ∨ d.same v = true) vs (vs.foldl addUnique []) := by
  have hforth : ∀ (vs values : List Value), ∀ v ∈ vs,
      ∃ d ∈ vs.foldl addUnique values, v = d ∨ d.same v = true := by
    intro vs
    induction vs with
    | nil => exact fun values v hv => (List.not_mem_nil hv).elim
    | cons v vs ih =>
        intro values w hw
        rcases List.mem_cons.mp hw with rfl | hw
        · obtain ⟨d, hd, hsame⟩ := exists_mem_addUnique values w
          exact ⟨d, mem_foldl_addUnique hd vs, hsame⟩
        · exact ih (addUnique values v) w hw
  constructor
  · exact hforth vs []
  · intro d hd
    rcases mem_of_mem_foldl_addUnique hd with hd | hd
    · cases hd
    · exact ⟨d, hd, Or.inl rfl⟩

/-- One of some values has no operand exactly when a unique one of them has none. -/
theorem exists_unbound_unique_iff {kind : FieldKind} {vs : List Value} :
    (∃ d ∈ vs.foldl addUnique [], bindOperand? kind d = none) ↔
      ∃ v ∈ vs, bindOperand? kind v = none := by
  constructor
  · rintro ⟨d, hd, hnone⟩
    rcases mem_of_mem_foldl_addUnique hd with hd | hd
    · cases hd
    · exact ⟨d, hd, hnone⟩
  · rintro ⟨v, hv, hnone⟩
    obtain ⟨d, hd, rfl | hsame⟩ := (matched_uniqueList vs).forth v hv
    · exact ⟨v, hd, hnone⟩
    · refine ⟨d, hd, Option.eq_none_iff_forall_ne_some.mpr fun b hb => ?_⟩
      obtain ⟨b', hb', -⟩ := exists_bound_of_same hsame hb
      rw [hnone] at hb'
      cases hb'

end Value

/-! ## Operands of a membership test -/

/-- A value is an operand when it can be coerced. -/
theorem Criterion.operand_eq_ok_iff {f : FieldRef} {raw : RawValue} {v : Value} :
    operand f raw = .ok v ↔ coerce f.kind raw = .ok v := by
  rw [operand]
  cases coerce f.kind raw with
  | error e => exact iff_of_false (fun h => nomatch h) fun h => nomatch h
  | ok v' =>
      constructor
      · intro h
        cases h
        rfl
      · intro h
        cases h
        rfl

/-- An operand is bound to the kind of its field. -/
theorem FieldRef.bindOperand_eq_ok_iff {f : FieldRef} {v b : Value} :
    f.bindOperand v = .ok b ↔ bindOperand? f.kind v = some b := by
  unfold bindOperand
  cases bindOperand? f.kind v <;> simp

/-- The operands of a membership test are, up to comparison, those of the values of its
criterion. -/
theorem Criterion.matched_boundValues {f : FieldRef} {raws : List RawValue}
    {vs bs : List Value} (hoperands : operands f raws = .ok vs)
    (hbind : f.bindItems (vs.foldl Value.addUnique []) = .ok bs) :
    Matched (fun raw b => ∃ b', boundValue? f.kind raw = some b' ∧ b.Alike b') raws bs := by
  rw [operands_eq_collect] at hoperands
  rw [FieldRef.bindItems_eq_collect] at hbind
  refine (((matched_collect hoperands).trans (Value.matched_uniqueList vs)).trans
    (matched_collect hbind)).mono ?_
  rintro raw b ⟨d, ⟨v, hv, hsame⟩, hd⟩
  rw [FieldRef.bindOperand_eq_ok_iff] at hd
  rw [boundValue?_of_coerce (operand_eq_ok_iff.mp hv)]
  rcases hsame with rfl | hsame
  · exact ⟨b, hd, fun _ => rfl⟩
  · exact Value.exists_bound_of_same hsame hd

end EntityQuery
