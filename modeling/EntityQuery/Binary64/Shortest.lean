import EntityQuery.Binary64.Rounding

/-!
# Shortest decimals of binary64 numbers

A finite number is written with the fewest decimal digits that are still nearer
to it than to any other number.  Around the number lies the interval of reals that
round to it; the search walks from coarse decimal grids to finer ones and stops at
the first grid with a point in the interval.  Of two such points the nearer one is
taken, and a rule decides between two that are equally near.

Main results:

- Definition `shortest`: digits and decimal exponent of a finite number.
- Definition `positional`: the text without an exponent.
-/

namespace EntityQuery

/-- A decimal: digits, of which the last has the weight ten to the `exponent`. -/
structure Decimal where
  digits : List Char
  exponent : Int
deriving DecidableEq, Repr

namespace Decimal

/-- The exponent of the first digit. -/
def leadingExponent (d : Decimal) : Int :=
  d.exponent + d.digits.length - 1

/-- The digits before the point, `0` when there are none. -/
def wholeDigits (d : Decimal) : List Char :=
  let count := (d.leadingExponent + 1).toNat
  if count = 0 then ['0']
  else d.digits.take count ++ List.replicate (count - d.digits.length) '0'

/-- The digits after the point. -/
def fractionDigits (d : Decimal) : List Char :=
  List.replicate (-(d.leadingExponent + 1)).toNat '0' ++
    d.digits.drop (d.leadingExponent + 1).toNat

/-- The digits with a point where it belongs and no exponent. -/
def positional (d : Decimal) : List Char :=
  match d.fractionDigits with
  | [] => d.wholeDigits
  | fraction => d.wholeDigits ++ '.' :: fraction

end Decimal

namespace Binary64

/-! ## The rounding interval -/

/-- The reals that round to a number, as integers over a common denominator: the
number lies at `value`, and the ends belong to the interval when `closed`. -/
structure RoundingInterval where
  low : Nat
  value : Nat
  high : Nat
  den : Nat
  closed : Bool

/-- The interval of a finite magnitude other than zero, in quarters of the unit of
its significand.  Below a power of two the spacing is half as wide. -/
def RoundingInterval.ofMagnitude (magnitude : Nat) : RoundingInterval :=
  let (m, e) := parts magnitude
  let up := (e - 2).toNat
  let below := if m = leastNormal ∧ 2 * leastNormal ≤ magnitude then 1 else 2
  { low := (4 * m - below) <<< up
    value := (4 * m) <<< up
    high := (4 * m + 2) <<< up
    den := 1 <<< (2 - e).toNat
    closed := m % 2 = 0 }

/-- Which of two equally near points is taken: the one farther from zero, or the even
one. -/
inductive TieRule where
  | away
  | even
deriving DecidableEq, Repr

/-- The nearer of a point and the next one, given the distances to them. -/
def TieRule.pick (rule : TieRule) (point below above : Nat) : Nat :=
  if below < above then point
  else if above < below then point + 1
  else
    match rule with
    | .away => point + 1
    | .even => point + point % 2

/-- The point of the grid of multiples of ten to the `k` that lies in the interval
nearest to its value. -/
def RoundingInterval.gridPoint? (i : RoundingInterval) (rule : TieRule) (k : Int) : Option Nat :=
  let up := Nat.pow 10 (-k).toNat
  let step := i.den * Nat.pow 10 k.toNat
  let below := i.value * up / step
  let lowFits := i.low * up < below * step || (i.closed && i.low * up == below * step)
  let highFits := (below + 1) * step < i.high * up || (i.closed && (below + 1) * step == i.high * up)
  match lowFits, highFits with
  | false, false => none
  | true, false => some below
  | false, true => some (below + 1)
  | true, true =>
    some (rule.pick below (i.value * up - below * step) ((below + 1) * step - i.value * up))

/-- The first grid point on the way from coarse to fine grids. -/
def RoundingInterval.search (i : RoundingInterval) (rule : TieRule) : Nat → Int → Nat × Int
  | 0, k => (i.value / i.den, k)
  | steps + 1, k =>
    match i.gridPoint? rule k with
    | some digits => (digits, k)
    | none => search i rule steps (k - 1)

/-! ## Texts -/

/-- The shortest decimal of a finite magnitude.  The first grid is coarser than the
number, and seventeen digits always suffice. -/
def shortest (rule : TieRule) (magnitude : Nat) : Decimal :=
  if magnitude = 0 then ⟨['0'], 0⟩
  else
    let (m, e) := parts magnitude
    let start := ((m.log2 : Int) + e + 1) * 30103 / 100000 + 2
    let (digits, k) := (RoundingInterval.ofMagnitude magnitude).search rule 24 start
    ⟨Nat.toDigits 10 digits, k⟩

/-- The text of a number: shortest digits, the larger ones of two equally near, and
never an exponent. -/
def text (x : Binary64) : String :=
  if x.isNaN then "NaN"
  else
    let sign := if x.negative then "-" else ""
    if x.isInfinite then sign ++ "inf"
    else sign ++ String.ofList (shortest .away x.magnitude.val).positional

end Binary64

end EntityQuery
