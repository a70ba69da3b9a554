import EntityQuery.Binary64.Basic

/-!
# Rounding to binary64

Every operation that yields a binary64 number first describes its exact result as
a quotient of natural numbers and then rounds once to the nearest number, a tie
going to the even fraction.  Results beyond the largest finite number are
infinite.

Main results:

- Definition `ofRatio`: the number nearest to a quotient.
-/

namespace EntityQuery

/-! ## Quotients of natural numbers -/

/-- The natural number nearest to a quotient, a half going to the even neighbour. -/
def roundDiv (num den : Nat) : Nat :=
  let q := num / den
  let r := num % den
  if 2 * r < den then q else if den < 2 * r then q + 1 else q + q % 2

namespace Binary64

/-! ## The nearest number -/

/-- Significand and binary exponent of a finite magnitude: its value is the
significand times two to the exponent. -/
def parts (magnitude : Nat) : Nat × Int :=
  let exponent : Nat := magnitude / leastNormal
  let fraction : Nat := magnitude % leastNormal
  if exponent = 0 then (fraction, -1074) else (fraction + leastNormal, (exponent : Int) - 1075)

/-- The binary exponent that leaves a quotient 53 significant bits, or the least
exponent there is. -/
def exponentOf (num den : Nat) : Int :=
  let guess : Int := (num.log2 : Int) - den.log2 - 52
  let scaled : Nat := (num <<< (-guess).toNat) / (den <<< guess.toNat)
  max (if scaled < leastNormal then guess - 1 else guess) (-1074)

/-- The magnitude nearest to a quotient.  The rounded significand is added to the
exponent bits, so a carry moves on to the next exponent. -/
def nearestMagnitude (num den : Nat) : Nat :=
  if num = 0 then 0
  else
    let e := exponentOf num den
    let significand := roundDiv (num <<< (-e).toNat) (den <<< e.toNat)
    min ((e + 1074).toNat * leastNormal + significand) infinityMagnitude

/-- The number nearest to a quotient, with a sign. -/
def ofRatio (negative : Bool) (num den : Nat) : Binary64 :=
  ofMagnitude negative (nearestMagnitude num den)

/-- The number nearest to an integer. -/
def ofInt (n : Int) : Binary64 :=
  ofRatio (n < 0) n.natAbs 1

/-- The number nearest to a decimal, `digits` times ten to the `exponent`.  Far
outside the range of finite numbers the decimal is not expanded. -/
def ofDecimal (negative : Bool) (digits : Nat) (exponent : Int) : Binary64 :=
  let size := (Nat.toDigits 10 digits).length + exponent
  if digits = 0 ∨ size < -400 then ofMagnitude negative 0
  else if 400 < size then infinity negative
  else ofRatio negative (digits * Nat.pow 10 exponent.toNat) (Nat.pow 10 (-exponent).toNat)

/-! ## Products and quotients -/

/-- The rounded product of two finite numbers. -/
def mul (x y : Binary64) : Binary64 :=
  let (m, p) := parts x.magnitude.val
  let (n, q) := parts y.magnitude.val
  ofRatio (x.negative != y.negative) ((m * n) <<< (p + q).toNat) (1 <<< (-(p + q)).toNat)

/-- The rounded quotient of a finite number by a finite number other than zero. -/
def div (x y : Binary64) : Binary64 :=
  let (m, p) := parts x.magnitude.val
  let (n, q) := parts y.magnitude.val
  ofRatio (x.negative != y.negative) (m <<< (p - q).toNat) (n <<< (q - p).toNat)

end Binary64

end EntityQuery
