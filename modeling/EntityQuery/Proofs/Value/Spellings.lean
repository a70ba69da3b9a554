import EntityQuery.Proofs.Predicate.Interchange
import EntityQuery.Proofs.Predicate.Tests
import EntityQuery.Proofs.Text.Trimming

/-!
# Spellings of integers

A client gives an integer as a number or as its decimal text.  Timestamps and members of
enumerations read both spellings when a value is coerced.  Integers take them as they are and
read the text when the operand is bound, after a membership test has dropped the values that
are there twice; what is dropped can be bound, so the first fault stays where it is.

Main results:

- Definition `RawValue.Respells`: raw values that spell the same integer.
- Theorem `RawValue.Respells.agree_operand`: either spelling gives the same operand, or the same
  fault.
- Theorem `FieldRef.bindItems_unique_error_iff`: dropping equal values keeps the first fault.
- Theorem `Predicate.interchangeable_membership`: values that are bound alike have the same
  members.
-/

namespace EntityQuery

/-! ## Decimal texts -/

namespace Text

/-- A digit is not blank. -/
theorem isBlank_of_isDigit {c : Char} (h : c.isDigit = true) : isBlank c = false := by
  have hdigit : 48 ≤ c.toNat ∧ c.toNat ≤ 57 := by
    simpa [Char.isDigit, UInt32.le_iff_toNat_le] using h
  simp [isBlank]
  omega

/-- A decimal text has no blanks. -/
theorem isBlank_of_mem_intText {n : Int} {c : Char} (h : c ∈ (intText n).toList) :
    isBlank c = false := by
  have hdigits : ∀ m : Nat, c ∈ Nat.toDigits 10 m → isBlank c = false :=
    fun m hc => isBlank_of_isDigit (Nat.isDigit_of_mem_toDigits (by decide) (by decide) hc)
  cases n with
  | ofNat m => exact hdigits m (by simpa [intText] using h)
  | negSucc m =>
      have hc : c = '-' ∨ c ∈ Nat.toDigits 10 (m + 1) := by simpa [intText] using h
      rcases hc with rfl | hc
      · decide
      · exact hdigits (m + 1) hc

/-- Trimming leaves a decimal text as it is. -/
theorem trim_int64Text (n : Int64) : trim (int64Text n) = int64Text n := by
  have htrimmed : IsTrimmed (int64Text n).toList :=
    ⟨fun c hc => isBlank_of_mem_intText (List.mem_of_head? hc),
      fun c hc => isBlank_of_mem_intText (List.mem_of_getLast? hc)⟩
  rw [trim, trimChars_eq_iff.mpr ⟨htrimmed, .refl _⟩, String.ofList_toList]

end Text

/-! ## Spellings -/

/-- The raw values are the same, or one is a number and the other one its decimal text. -/
inductive RawValue.Respells : RawValue → RawValue → Prop
  | same (raw : RawValue) : Respells raw raw
  | written (n : Int64) : Respells (.int n) (.text (Text.int64Text n))
  | read (n : Int64) : Respells (.text (Text.int64Text n)) (.int n)

/-- The kinds that integers are read for, as such, as milliseconds or as places of members. -/
def FieldKind.ReadsIntegers : FieldKind → Prop
  | .int | .timestamp | .enum _ => True
  | _ => False

namespace RawValue.Respells

variable {raw raw' : RawValue}

/-- Both spellings have the same text. -/
theorem display_eq (h : raw.Respells raw') : raw.display = raw'.display := by
  cases h <;> rfl

/-- Both spellings are as many milliseconds. -/
theorem millis?_eq (h : raw.Respells raw') : raw.millis? = raw'.millis? := by
  cases h <;> simp [millis?, Text.int64?_int64Text]

/-- Both spellings are the same date, or no date with the same fault. -/
theorem toDate_eq (h : raw.Respells raw') : raw.toDate = raw'.toDate := by
  rw [toDate, toDate, h.millis?_eq, h.display_eq]

/-- Both spellings are the same member, or no member with the same fault. -/
theorem toMember_eq (h : raw.Respells raw') (type : EnumType) :
    raw.toMember type = raw'.toMember type := by
  rw [toMember, toMember, h.display_eq]

/-- A field that reads integers binds the operands of both spellings alike, or coercion refuses
both with the same fault. -/
theorem agree_operand {f : FieldRef} (hkind : f.kind.ReadsIntegers) (h : raw.Respells raw') :
    Agree (fun v v' => f.bindOperand v = f.bindOperand v') (Criterion.operand f raw)
      (Criterion.operand f raw') := by
  obtain ⟨source, name, kind⟩ := f
  cases kind with
  | int =>
      refine .ok ?_
      cases h with
      | same raw => rfl
      | written n | read n =>
          rw [FieldRef.bindOperand, FieldRef.bindOperand]
          simp [toValue, bindOperand?, Text.trim_int64Text, Text.int64?_int64Text]
  | timestamp =>
      rw [Criterion.operand, Criterion.operand, coerce, coerce, h.toDate_eq]
      apply Agree.refl
      exact fun v => rfl
  | enum type =>
      rw [Criterion.operand, Criterion.operand, coerce, coerce, h.toMember_eq]
      apply Agree.refl
      exact fun v => rfl
  | bool | float | text | uuid => exact hkind.elim

end RawValue.Respells

/-! ## Unique values -/

namespace Value

/-- Adding values one after another leaves those that are there in front. -/
theorem prefix_foldl_addUnique (values vs : List Value) : values <+: vs.foldl addUnique values := by
  induction vs generalizing values with
  | nil => exact List.prefix_refl values
  | cons v vs ih =>
      have hadd : values <+: addUnique values v := by
        unfold addUnique
        split
        · exact List.prefix_refl values
        · exact List.prefix_append values [v]
      exact hadd.trans (ih (addUnique values v))

end Value

namespace FieldRef

variable {f : FieldRef} {values vs bs : List Value} {v : Value} {m : KindMismatch}

/-- A value that cannot be bound equals none that can, so it is added behind them. -/
theorem addUnique_of_bindOperand_error (hvalues : ∀ d ∈ values, ∃ b, f.bindOperand d = .ok b)
    (hv : f.bindOperand v = .error m) : Value.addUnique values v = values ++ [v] := by
  rw [Value.addUnique, if_neg]
  intro hsame
  obtain ⟨d, hd, hsame⟩ := List.any_eq_true.mp hsame
  obtain ⟨b, hb⟩ := hvalues d hd
  obtain ⟨b', hb', -⟩ := Value.exists_bound_of_same hsame (bindOperand_eq_ok_iff.mp hb)
  rw [bindOperand_eq_ok_iff.mpr hb'] at hv
  cases hv

/-- The first fault of values that are added to ones that can be bound is that of the values
alone. -/
theorem bindItems_foldl_error_iff (hvalues : ∀ d ∈ values, ∃ b, f.bindOperand d = .ok b) :
    f.bindItems (vs.foldl Value.addUnique values) = .error m ↔ f.bindItems vs = .error m := by
  simp only [bindItems_eq_collect]
  -- The values that are there can be bound, and they can be until the first fault is added.
  induction vs generalizing values with
  | nil =>
      obtain ⟨bs, hbs⟩ := exists_collect hvalues
      simp [hbs, collect]
  | cons v vs ih =>
      rw [List.foldl_cons, collect]
      cases hv : f.bindOperand v with
      | ok b =>
          have hnext : ∀ d ∈ Value.addUnique values v, ∃ b, f.bindOperand d = .ok b := by
            intro d hd
            rcases Value.mem_of_mem_addUnique hd with hd | rfl
            · exact hvalues d hd
            · exact ⟨b, hv⟩
          rw [ih hnext]
          cases collect f.bindOperand vs <;> simp [Except.map]
      | error fault =>
          obtain ⟨more, hmore⟩ := Value.prefix_foldl_addUnique (values ++ [v]) vs
          have hfirst : collect f.bindOperand (values ++ v :: more) = .error fault :=
            collect_of_first_error hvalues hv
          rw [addUnique_of_bindOperand_error hvalues hv, ← hmore, List.append_assoc,
            List.singleton_append, hfirst]

/-- Values have the same first fault when equal ones have been dropped. -/
theorem bindItems_unique_error_iff :
    f.bindItems (vs.foldl Value.addUnique []) = .error m ↔ f.bindItems vs = .error m :=
  bindItems_foldl_error_iff fun _ hd => (List.not_mem_nil hd).elim

/-- A value equals one of the operands that unique values are bound to exactly when it equals
the operand of one of the values. -/
theorem exists_bound_equal_iff (hbs : f.bindItems (vs.foldl Value.addUnique []) = .ok bs)
    (actual : Value) : (∃ b ∈ bs, actual.strictCompare? b = some .eq) ↔
      ∃ v ∈ vs, ∃ b, f.bindOperand v = .ok b ∧ actual.strictCompare? b = some .eq := by
  rw [bindItems_eq_collect] at hbs
  have hmatched : Matched (fun v b => ∃ b', f.bindOperand v = .ok b' ∧ b.Alike b') vs bs := by
    refine ((Value.matched_uniqueList vs).trans (matched_collect hbs)).mono ?_
    rintro v b ⟨d, rfl | hsame, hd⟩
    · exact ⟨b, hd, fun _ => rfl⟩
    · obtain ⟨b', hb', halike⟩ :=
        Value.exists_bound_of_same hsame (bindOperand_eq_ok_iff.mp hd)
      exact ⟨b', bindOperand_eq_ok_iff.mpr hb', halike⟩
  refine (hmatched.exists_iff ?_).symm
  rintro v b ⟨b', hb', halike⟩
  rw [halike actual, hb']
  simp

/-- Lists whose values are bound alike, one by one, are bound alike. -/
theorem bindItems_congr {vs' : List Value}
    (h : List.Forall₂ (fun v v' => f.bindOperand v = f.bindOperand v') vs vs') :
    f.bindItems vs = f.bindItems vs' := by
  simp only [bindItems_eq_collect]
  induction h with
  | nil => rfl
  | cons hfirst _ ih => rw [collect, collect, hfirst, ih]

end FieldRef

/-! ## Comparisons -/

/-- Membership is the same in lists that have the same members up to comparison. -/
theorem Test.evaluate_isIn_congr {items items' : List Value} {actual : Value}
    (h : (∃ item ∈ items, actual.strictCompare? item = some .eq) ↔
      ∃ item ∈ items', actual.strictCompare? item = some .eq) :
    (compare .isIn (.list items)).evaluate actual =
      (compare .isIn (.list items')).evaluate actual := by
  have hany : items.any (actual.strictCompare? · == some .eq) =
      items'.any (actual.strictCompare? · == some .eq) := by
    rw [Bool.eq_iff_iff]
    simpa using h
  rw [evaluate_isIn, evaluate_isIn, hany]

namespace Predicate

variable {f : FieldRef}

/-- A field is compared with values that it binds alike to the same effect. -/
theorem interchangeable_compare {comparison : Comparison} {v v' : Value}
    (hcomparison : comparison ≠ .isIn) (hv : ∀ items, v ≠ .list items)
    (hv' : ∀ items, v' ≠ .list items) (h : f.bindOperand v = f.bindOperand v') :
    (test f (.compare comparison v)).Interchangeable (.test f (.compare comparison v')) := by
  have hbind : (test f (.compare comparison v)).bind =
      (test f (.compare comparison v')).bind := by
    rw [bind, bind, Test.bind_compare hcomparison hv, Test.bind_compare hcomparison hv', h]
  rw [Interchangeable, hbind]
  exact .refl (fun _ _ => rfl) _

/-- Values that a field binds one by one alike have the same members. -/
theorem interchangeable_membership {vs vs' : List Value}
    (h : List.Forall₂ (fun v v' => f.bindOperand v = f.bindOperand v') vs vs') :
    (test f (.compare .isIn (Value.uniqueList vs))).Interchangeable
      (.test f (.compare .isIn (Value.uniqueList vs'))) := by
  have hbind : ∀ vs, (test f (.compare .isIn (Value.uniqueList vs))).bind =
      (f.bindItems (vs.foldl Value.addUnique [])).map fun bs =>
        .test f (.compare .isIn (.list bs)) := by
    intro vs
    rw [bind, Value.uniqueList, Test.bind]
    cases f.bindItems (vs.foldl Value.addUnique []) <;> rfl
  rw [Interchangeable, hbind, hbind]
  cases hbs : f.bindItems (vs.foldl Value.addUnique []) with
  | error m =>
      rw [FieldRef.bindItems_unique_error_iff, FieldRef.bindItems_congr h,
        ← FieldRef.bindItems_unique_error_iff] at hbs
      rw [hbs]
      exact .error m
  | ok bs =>
      cases hbs' : f.bindItems (vs'.foldl Value.addUnique []) with
      | error m =>
          rw [FieldRef.bindItems_unique_error_iff, ← FieldRef.bindItems_congr h,
            ← FieldRef.bindItems_unique_error_iff, hbs] at hbs'
          cases hbs'
      | ok bs' =>
          refine .ok fun c => ?_
          rw [evaluate, evaluate]
          apply Test.evaluate_isIn_congr
          rw [FieldRef.exists_bound_equal_iff hbs, FieldRef.exists_bound_equal_iff hbs']
          exact (Matched.of_forall₂ h).exists_iff fun v v' hv => by rw [hv]

end Predicate

end EntityQuery
