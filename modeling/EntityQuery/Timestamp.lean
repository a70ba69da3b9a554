import EntityQuery.Text.Integer

/-!
# Timestamps

A timestamp is an instant in universal time, given by its second since the start of 1970
and the nanoseconds since that second began.  A leap second has no number of its own: its
nanoseconds count on from those of the second before it.  Timestamps reach from the start
of the year -262143 to the end of the year 262142 of the proleptic Gregorian calendar.
Operands and texts name whole milliseconds only.

Main results:

- Definition `Timestamp.ofMillis?`: the instants that are given in milliseconds.
- Definition `Timestamp.compare`: earlier instants come first.
- Theorem `compare_ne_gt_iff`: the order in terms of seconds and nanoseconds.
- Definition `Timestamp.text`: date and time with milliseconds, marked as universal
  time.
-/

namespace EntityQuery

/-! ## Instants -/

/-- A second since the start of 1970, within the years that are represented, and
nanoseconds from its start on, those of a leap second after it included. -/
structure Timestamp where
  second : Int
  nanos : Fin 2000000000
  inRange : -8334601228800 ≤ second ∧ second ≤ 8210266876799
deriving DecidableEq

namespace Timestamp

/-- The timestamp so many milliseconds after the start of 1970. -/
def ofMillis? (millis : Int) : Option Timestamp :=
  if h : -8334601228800 ≤ millis / 1000 ∧ millis / 1000 ≤ 8210266876799 then
    some ⟨millis / 1000, ⟨(millis % 1000).toNat * 1000000, by omega⟩, h⟩
  else none

/-- The whole milliseconds from the start of 1970 to an instant. -/
def millis (t : Timestamp) : Int :=
  1000 * t.second + t.nanos.val / 1000000

/-! ## Order -/

/-- Compare the seconds, and within one second the nanoseconds. -/
def compare (a b : Timestamp) : Ordering :=
  (Ord.compare a.second b.second).then (Ord.compare a.nanos.val b.nanos.val)

/-- Comparing the other way round swaps the answer. -/
theorem compare_swap (a b : Timestamp) : compare b a = (compare a b).swap := by
  have hsecond : Ord.compare b.second a.second = (Ord.compare a.second b.second).swap :=
    Std.OrientedCmp.eq_swap
  have hnanos : Ord.compare b.nanos.val a.nanos.val =
      (Ord.compare a.nanos.val b.nanos.val).swap :=
    Std.OrientedCmp.eq_swap
  rw [compare, compare, Ordering.swap_then, hsecond, hnanos]

/-- An instant is not after another one if its second is earlier, or it is the same and no
more nanoseconds have passed. -/
theorem compare_ne_gt_iff {a b : Timestamp} : compare a b ≠ .gt ↔
    a.second < b.second ∨ a.second = b.second ∧ a.nanos.val ≤ b.nanos.val := by
  unfold compare
  cases hsecond : Ord.compare a.second b.second with
  | lt =>
      have := Int.compare_eq_lt.1 hsecond
      simp [this]
  | eq =>
      have := Int.compare_eq_eq.1 hsecond
      rw [Ordering.then, Nat.compare_ne_gt]
      omega
  | gt =>
      have := Int.compare_eq_gt.1 hsecond
      simp only [Ordering.then, ne_eq, not_true_eq_false, false_iff]
      omega

/-- The order of instants is transitive. -/
theorem compare_trans {a b c : Timestamp} (h₁ : compare a b ≠ .gt) (h₂ : compare b c ≠ .gt) :
    compare a c ≠ .gt := by
  rw [compare_ne_gt_iff] at *
  omega

/-! ## Calendar dates -/

/-- Year, month and day of a day counted from the start of 1970.  Years run from
March, so that the leap day is the last day of a year, in cycles of 400. -/
def civilDate (day : Int) : Int × Int × Int :=
  let z := day + 719468
  let cycle := z / 146097
  let dayOfCycle := z % 146097
  let yearOfCycle :=
    (dayOfCycle - dayOfCycle / 1460 + dayOfCycle / 36524 - dayOfCycle / 146096) / 365
  let dayOfYear := dayOfCycle - (365 * yearOfCycle + yearOfCycle / 4 - yearOfCycle / 100)
  let monthIndex := (5 * dayOfYear + 2) / 153
  let dayOfMonth := dayOfYear - (153 * monthIndex + 2) / 5 + 1
  let month := if monthIndex < 10 then monthIndex + 3 else monthIndex - 9
  let year := yearOfCycle + 400 * cycle + (if month ≤ 2 then 1 else 0)
  (year, month, dayOfMonth)

/-! ## Text -/

/-- A natural number with zeros in front up to a width. -/
def padded (width n : Nat) : String :=
  let digits := Nat.toDigits 10 n
  String.ofList (List.replicate (width - digits.length) '0' ++ digits)

/-- A year in four digits; one that needs more, or lies before the year zero, has a
sign. -/
def yearText (year : Int) : String :=
  if year < 0 then "-" ++ padded 4 year.natAbs
  else if 9999 < year then "+" ++ padded 4 year.natAbs
  else padded 4 year.natAbs

/-- Date and time with milliseconds, `2024-01-31T08:00:00.000Z`; what is smaller is cut off,
and a leap second has the number after that of its second. -/
def text (t : Timestamp) : String :=
  let day := t.second / 86400
  let rest := (t.second % 86400).toNat
  let leap := t.nanos.val / 1000000000
  let (year, month, dayOfMonth) := civilDate day
  yearText year ++ "-" ++ padded 2 month.toNat ++ "-" ++ padded 2 dayOfMonth.toNat ++ "T" ++
    padded 2 (rest / 3600) ++ ":" ++ padded 2 (rest / 60 % 60) ++ ":" ++
    padded 2 (rest % 60 + leap) ++ "." ++ padded 3 (t.millis % 1000).toNat ++ "Z"

end Timestamp

end EntityQuery
