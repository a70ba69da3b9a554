import EntityQuery.Value.Basic

/-!
# Orders of values

Predicates use a strict comparison: values of one variant compare, an integer
compares with a float after rounding, and all else is incomparable.  Sorting needs an
answer for every pair, so its order falls back on a rank of the variants, with nulls
last.

Main results:

- Theorem `strictCompare?_swap`: comparing the other way round swaps the answer.
- Theorem `canonicalCompare_swap`: so does the order used for sorting.
- Theorem `canonicalCompare_null_left`: a null comes after every other value.
-/

namespace EntityQuery

/-! ## Orders of the parts -/

/-- False comes before true. -/
def compareBool (a b : Bool) : Ordering :=
  compare a.toNat b.toNat

/-- Texts are compared code point by code point. -/
def compareText (a b : String) : Ordering :=
  compareOfLessAndEq a b

theorem compareText_swap (a b : String) : compareText b a = (compareText a b).swap := by
  unfold compareText compareOfLessAndEq
  by_cases h : a = b
  · subst h; simp
  · by_cases hlt : a < b
    · simp [hlt, Ne.symm h, String.lt_asymm hlt]
    · have hgt : b < a := by
        rcases Std.lt_trichotomy (a := a) (b := b) with h1 | h1 | h1
        · exact absurd h1 hlt
        · exact absurd h1 h
        · exact h1
      simp [hlt, h, hgt]

namespace Value

/-! ## Strict comparison -/

/-- Compare two values, if they are comparable. -/
def strictCompare? : Value → Value → Option Ordering
  | bool a, bool b => some (compareBool a b)
  | enum a, enum b => some (compare a.ordinal b.ordinal)
  | float a, float b => a.compare? b
  | int a, int b => some (compare a.toInt b.toInt)
  | text a, text b => some (compareText a b)
  | timestamp a, timestamp b => some (a.compare b)
  | uuid a, uuid b => some (compare a.value.toNat b.value.toNat)
  | int a, float b => (Binary64.ofInt a.toInt).compare? b
  | float a, int b => a.compare? (Binary64.ofInt b.toInt)
  | _, _ => none

theorem compareNat_swap (a b : Nat) : compare b a = (compare a b).swap :=
  Std.OrientedCmp.eq_swap

theorem compareInt_swap (a b : Int) : compare b a = (compare a b).swap :=
  Std.OrientedCmp.eq_swap

/-- Comparing the other way round swaps the answer. -/
theorem strictCompare?_swap (a b : Value) :
    b.strictCompare? a = (a.strictCompare? b).map Ordering.swap := by
  cases a <;> cases b <;>
    simp only [strictCompare?, Option.map_some, Option.map_none, Option.some.injEq] <;>
    first
      | exact Binary64.compare?_swap _ _
      | exact compareNat_swap _ _
      | exact compareInt_swap _ _
      | exact compareText_swap _ _
      | exact Timestamp.compare_swap _ _

/-! ## The order used for sorting -/

/-- The place of a variant among the variants; numbers share one, nulls have the last. -/
def rank : Value → Nat
  | bool _ => 0
  | enum _ => 1
  | float _ => 2
  | int _ => 2
  | list _ => 3
  | text _ => 4
  | timestamp _ => 5
  | uuid _ => 6
  | null => 7

/-- Compare two values strictly if possible, and by rank otherwise. -/
def canonicalCompare (a b : Value) : Ordering :=
  (a.strictCompare? b).getD (compare a.rank b.rank)

/-- Comparing the other way round swaps the answer. -/
theorem canonicalCompare_swap (a b : Value) :
    canonicalCompare b a = (canonicalCompare a b).swap := by
  unfold canonicalCompare
  rw [strictCompare?_swap a b]
  cases a.strictCompare? b with
  | none => exact compareNat_swap _ _
  | some o => rfl

/-- A null comes after every other value. -/
theorem canonicalCompare_null_left {v : Value} (h : v ≠ null) :
    canonicalCompare null v = .gt := by
  cases v <;> first | rfl | exact absurd rfl h

end Value

end EntityQuery
