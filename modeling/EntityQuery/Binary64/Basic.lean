/-!
# Binary64 numbers

A binary64 number is a sign and a magnitude of 63 bits: eleven bits of exponent
over 52 bits of fraction.  Read as a natural number, the magnitude grows with the
absolute value, so comparing numbers is comparing signed magnitudes.

Main results:

- Theorem `compare?_eq_none_iff`: only a NaN is incomparable.
- Theorem `compare?_swap`: comparing the other way round swaps the answer.
-/

namespace EntityQuery

/-! ## Numbers and bit patterns -/

/-- A binary64 number: its sign and the other 63 bits. -/
structure Binary64 where
  negative : Bool
  magnitude : Fin 0x8000000000000000
deriving DecidableEq, Repr

namespace Binary64

/-- The number with a 64-bit pattern. -/
def ofBits (bits : UInt64) : Binary64 :=
  ⟨0x8000000000000000 ≤ bits.toNat, ⟨bits.toNat % 0x8000000000000000, Nat.mod_lt _ (by decide)⟩⟩

/-- The 64-bit pattern of a number. -/
def toBits (x : Binary64) : UInt64 :=
  UInt64.ofNat ((if x.negative then 0x8000000000000000 else 0) + x.magnitude.val)

/-! ## Special magnitudes -/

/-- The magnitude of exponent one without a fraction, which has 52 bits.  Below it lie
the subnormal numbers. -/
def leastNormal : Nat := 0x10000000000000

/-- The magnitude of the infinities: all exponent bits set and no fraction. -/
def infinityMagnitude : Nat := 0x7FF * leastNormal

/-- A magnitude beyond infinity is no number. -/
def isNaN (x : Binary64) : Bool :=
  infinityMagnitude < x.magnitude.val

/-- Infinities are the numbers at the infinite magnitude. -/
def isInfinite (x : Binary64) : Bool :=
  x.magnitude.val == infinityMagnitude

/-- Numbers below the infinite magnitude are finite. -/
def isFinite (x : Binary64) : Bool :=
  x.magnitude.val < infinityMagnitude

/-- Both zeros have magnitude zero. -/
def isZero (x : Binary64) : Bool :=
  x.magnitude.val == 0

/-- Build a number from a sign and a magnitude, which is cut to 63 bits. -/
def ofMagnitude (negative : Bool) (magnitude : Nat) : Binary64 :=
  ⟨negative, ⟨magnitude % 0x8000000000000000, Nat.mod_lt _ (by decide)⟩⟩

/-- Positive zero. -/
def zero : Binary64 := ofMagnitude false 0

/-- The quiet NaN. -/
def nan : Binary64 := ofMagnitude false (infinityMagnitude + leastNormal / 2)

/-- The infinity of a sign. -/
def infinity (negative : Bool) : Binary64 := ofMagnitude negative infinityMagnitude

/-! ## Comparison -/

/-- The signed magnitude: both zeros have key zero, and keys grow with values. -/
def key (x : Binary64) : Int :=
  if x.negative then -(x.magnitude.val : Int) else x.magnitude.val

/-- Compare two numbers; a NaN compares with nothing. -/
def compare? (x y : Binary64) : Option Ordering :=
  if x.isNaN || y.isNaN then none else some (compare x.key y.key)

/-- Equality of values: both zeros are equal and a NaN equals nothing. -/
def valueEq (x y : Binary64) : Bool :=
  x.compare? y == some .eq

/-- Two numbers are incomparable exactly when one is a NaN. -/
theorem compare?_eq_none_iff {x y : Binary64} :
    x.compare? y = none ↔ x.isNaN = true ∨ y.isNaN = true := by
  cases hx : x.isNaN <;> cases hy : y.isNaN <;> simp [compare?, hx, hy]

theorem compare?_of_not_isNaN {x y : Binary64} (hx : x.isNaN = false) (hy : y.isNaN = false) :
    x.compare? y = some (compare x.key y.key) := by
  simp [compare?, hx, hy]

/-- Comparing the other way round swaps the answer. -/
theorem compare?_swap (x y : Binary64) : y.compare? x = (x.compare? y).map Ordering.swap := by
  have h : compare y.key x.key = (compare x.key y.key).swap := Std.OrientedCmp.eq_swap
  cases hx : x.isNaN <;> cases hy : y.isNaN <;> simp [compare?, hx, hy, h]

end Binary64

end EntityQuery
