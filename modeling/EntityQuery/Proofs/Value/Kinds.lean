import EntityQuery.Proofs.Value.Operands

/-!
# Values of a kind

Every operand that is bound to a kind has the variant of the kind, and values of one kind
compare with each other unless one is a NaN.  Coercion and binding divide the kinds among
them: a kind with a coercion binds whatever coercion lets through, and for every other
kind binding alone decides which raw values it takes.

Main results:

- Definition `Value.IsOf`: the values of a kind.
- Theorem `exists_strictCompare?_of_isOf`: values of a kind are comparable.
- Theorem `strictCompare?_eq_none_iff`: with such an operand only a null is not.
- Theorem `bindOperand?_of_coerce`: a coerced value is bound to itself.
- Theorem `exists_bindOperand?_toValue_iff`: the raw values that the other kinds take.
- Theorem `bindOperand?_eq_none_iff_of_coerce`: what is left for binding to refuse.
-/

namespace EntityQuery

/-! ## Variants -/

namespace Value

/-- The value has the variant of a kind. -/
def IsOf (v : Value) : FieldKind → Prop
  | .bool => ∃ b, v = bool b
  | .enum _ => ∃ member, v = enum member
  | .float => ∃ x, v = float x
  | .int => ∃ n, v = int n
  | .text => ∃ s, v = text s
  | .timestamp => ∃ t, v = timestamp t
  | .uuid => ∃ u, v = uuid u

/-- The value is a float that is no number. -/
def isNaN : Value → Bool
  | float x => x.isNaN
  | _ => false

/-- An operand that is bound to a kind is of the kind. -/
theorem isOf_of_bindOperand? {kind : FieldKind} {v b : Value} (h : bindOperand? kind v = some b) :
    b.IsOf kind := by
  cases kind <;> cases v <;> simp only [bindOperand?, reduceCtorEq, Option.some.injEq,
    Option.map_eq_some_iff, Option.ite_none_right_eq_some] at h <;> simp only [IsOf] <;> grind

/-- Values of one kind compare with each other, unless one of them is a NaN. -/
theorem exists_strictCompare?_of_isOf {kind : FieldKind} {v b : Value} (hv : v.IsOf kind)
    (hb : b.IsOf kind) (hvnan : v.isNaN = false) (hbnan : b.isNaN = false) :
    ∃ o, v.strictCompare? b = some o := by
  cases kind <;> obtain ⟨x, rfl⟩ := hv <;> obtain ⟨y, rfl⟩ := hb
  case float => exact ⟨_, Binary64.compare?_of_not_isNaN hvnan hbnan⟩
  all_goals exact ⟨_, rfl⟩

/-- An operand that is no NaN compares with every value of its kind, so with all values
but the missing one. -/
theorem strictCompare?_eq_none_iff {kind : FieldKind} {v b : Value} (hb : b.IsOf kind)
    (hnan : b.isNaN = false) (hv : v ≠ .null → v.IsOf kind ∧ v.isNaN = false) :
    v.strictCompare? b = none ↔ v = .null := by
  constructor
  · intro hnone
    apply Classical.byContradiction
    intro hne
    obtain ⟨hkind, hvnan⟩ := hv hne
    obtain ⟨o, ho⟩ := exists_strictCompare?_of_isOf hkind hb hvnan hnan
    rw [ho] at hnone
    cases hnone
  · rintro rfl
    cases b <;> rfl

end Value

/-! ## Kinds with a coercion -/

/-- A member that is found stands at its place among the names. -/
theorem RawValue.getElem?_of_memberNamed? {s : String} {place : Nat} {names : List String}
    {member : EnumMember} (h : memberNamed? s place names = some member) :
    place ≤ member.ordinal ∧ names[member.ordinal - place]? = some member.name := by
  induction names generalizing place with
  | nil => cases h
  | cons name names ih =>
      rw [memberNamed?] at h
      split at h
      · cases h
        simp
      · obtain ⟨hle, hget⟩ := ih h
        refine ⟨by omega, ?_⟩
        rw [show member.ordinal - place = member.ordinal - (place + 1) + 1 by omega]
        exact hget

/-- A value that coercion lets through for a kind with a coercion is bound to itself. -/
theorem bindOperand?_of_coerce {kind : FieldKind} {raw : RawValue} {v : Value}
    (hkind : kind.coercion ≠ .passthrough) (h : coerce kind raw = .ok v) :
    bindOperand? kind v = some v := by
  cases kind with
  | timestamp =>
      rw [coerce, RawValue.toDate] at h
      split at h
      · cases h
        rfl
      · cases h
  | uuid =>
      simp only [coerce, RawValue.toIdentifier] at h
      split at h
      · cases h
        rfl
      · cases h
  | enum type =>
      rw [coerce, RawValue.toMember] at h
      split at h
      · next member hmember =>
          cases h
          have hplace : type.variants[member.ordinal]? = some member.name :=
            (RawValue.getElem?_of_memberNamed? hmember).2
          rw [bindOperand?, EnumType.variantAt?, if_pos hplace]
      · cases h
  | _ => exact absurd rfl hkind

/-! ## Kinds without a coercion -/

/-- The forms in which a raw value is taken for a kind without a coercion.  Numbers and
truth values may be spelled in texts, with blanks around them and truth values in any
letter case. -/
def FieldKind.Takes : FieldKind → RawValue → Prop
  | .int, .int _ => True
  | .int, .text s => ∃ n, Text.int64? (Text.trim s) = some n
  | .float, .float _ => True
  | .float, .int _ => True
  | .float, .text s => ∃ x, Binary64.ofText? (Text.trim s) = some x
  | .bool, .bool _ => True
  | .bool, .text s => ∃ b, (Text.trim s).toList.map Char.toLower = (Value.boolText b).toList
  | .text, .text _ => True
  | _, _ => False

/-- A word names a truth value when it is the text of one in some letter case. -/
theorem exists_boolOfText?_iff {s : String} :
    (∃ b, boolOfText? s = some b) ↔
      ∃ b, (Text.trim s).toList.map Char.toLower = (Value.boolText b).toList := by
  have htext : ∀ (cs : List Char) (word : String),
      String.ofList cs = word ↔ cs = word.toList := by
    intro cs word
    constructor
    · rintro rfl
      simp
    · rintro rfl
      simp
  unfold boolOfText?
  simp only [← htext]
  constructor
  · rintro ⟨b, h⟩
    split at h
    · next hword => exact ⟨true, hword⟩
    · next hword => exact ⟨false, hword⟩
    · cases h
  · rintro ⟨b, h⟩
    rw [h]
    cases b
    · exact ⟨false, rfl⟩
    · exact ⟨true, rfl⟩

theorem exists_map_eq_some_iff {α β : Type} {o : Option α} {f : α → β} :
    (∃ b, o.map f = some b) ↔ ∃ a, o = some a := by
  cases o <;> simp

/-- For a kind without a coercion, a raw value is bound exactly when it has a form that
the kind takes. -/
theorem exists_bindOperand?_toValue_iff {kind : FieldKind} (hkind : kind.coercion = .passthrough)
    (raw : RawValue) : (∃ b, bindOperand? kind raw.toValue = some b) ↔ kind.Takes raw := by
  have hrefused : ∀ {α : Type}, ¬ ∃ b : α, (none : Option α) = some b := by
    rintro α ⟨b, hb⟩
    cases hb
  cases kind with
  | int =>
      cases raw with
      | int n => exact iff_of_true ⟨_, rfl⟩ trivial
      | text s =>
          rw [RawValue.toValue, bindOperand?]
          exact exists_map_eq_some_iff
      | _ => exact iff_of_false hrefused id
  | float =>
      cases raw with
      | float x => exact iff_of_true ⟨_, rfl⟩ trivial
      | int n => exact iff_of_true ⟨_, rfl⟩ trivial
      | text s =>
          rw [RawValue.toValue, bindOperand?]
          exact exists_map_eq_some_iff
      | bool b => exact iff_of_false hrefused id
  | bool =>
      cases raw with
      | bool b => exact iff_of_true ⟨_, rfl⟩ trivial
      | text s =>
          rw [RawValue.toValue, bindOperand?, exists_map_eq_some_iff]
          exact exists_boolOfText?_iff
      | _ => exact iff_of_false hrefused id
  | text =>
      cases raw with
      | text s => exact iff_of_true ⟨_, rfl⟩ trivial
      | _ => exact iff_of_false hrefused id
  | _ => cases hkind

/-! ## Both layers -/

variable {kind : FieldKind} {raw : RawValue} {v : Value}

/-- Of the values that coercion lets through, binding refuses those for a kind without a
coercion that have no form the kind takes. -/
theorem bindOperand?_eq_none_iff_of_coerce (h : coerce kind raw = .ok v) :
    bindOperand? kind v = none ↔ kind.coercion = .passthrough ∧ ¬ kind.Takes raw := by
  by_cases hkind : kind.coercion = .passthrough
  · rw [coerce_passthrough hkind, Except.ok.injEq] at h
    rw [← h, ← exists_bindOperand?_toValue_iff hkind]
    cases bindOperand? kind raw.toValue <;> simp [hkind]
  · simp [bindOperand?_of_coerce hkind h, hkind]

/-- Coercion yields single values. -/
theorem ne_list_of_coerce (h : coerce kind raw = .ok v) (items : List Value) :
    v ≠ .list items := by
  rintro rfl
  by_cases hkind : kind.coercion = .passthrough
  · rw [coerce_passthrough hkind, Except.ok.injEq] at h
    cases raw <;> cases h
  · have hbound := bindOperand?_of_coerce hkind h
    rw [Value.bindOperand?_list] at hbound
    cases hbound

end EntityQuery
