import EntityQuery.Binary64.Rounding

/-!
# Rounding keeps the order

Rounding a quotient of natural numbers is monotone in the numerator.  The significand of
a rounded integer lies between the least normal significand and twice that, so a carry
reaches at most the integers that start at the next exponent, and rounding integers to
binary64 numbers is monotone as well.  It is not injective: from two to the 53rd on,
neighbouring integers round to one number.

Main results:

- Theorem `roundDiv_le_roundDiv`: rounding quotients is monotone.
- Theorem `nearestMagnitude_one`: the magnitude of a rounded natural number.
- Theorem `nearestMagnitude_one_le`: rounding natural numbers is monotone.
- Theorem `key_ofInt_le_key_ofInt`: rounding integers is monotone.
-/

namespace EntityQuery

/-! ## Quotients -/

theorem div_le_roundDiv (num den : Nat) : num / den ≤ roundDiv num den := by
  rw [roundDiv]
  split
  · exact Nat.le_refl _
  · split <;> omega

theorem roundDiv_le_div_add_one (num den : Nat) : roundDiv num den ≤ num / den + 1 := by
  rw [roundDiv]
  split
  · omega
  · split <;> omega

/-- Among numerators with one quotient the remainder decides. -/
theorem roundDiv_le_of_div_eq {m n den : Nat} (h : m ≤ n) (hq : m / den = n / den) :
    roundDiv m den ≤ roundDiv n den := by
  have hm := Nat.div_add_mod m den
  have hn := Nat.div_add_mod n den
  rw [hq] at hm
  have hr : m % den ≤ n % den := by omega
  simp only [roundDiv, hq]
  grind

/-- Rounding quotients is monotone in the numerator. -/
theorem roundDiv_le_roundDiv {m n : Nat} (den : Nat) (h : m ≤ n) :
    roundDiv m den ≤ roundDiv n den := by
  rcases Nat.lt_or_eq_of_le (Nat.div_le_div_right (c := den) h) with hlt | heq
  · calc roundDiv m den ≤ m / den + 1 := roundDiv_le_div_add_one m den
      _ ≤ n / den := hlt
      _ ≤ roundDiv n den := div_le_roundDiv n den
  · exact roundDiv_le_of_div_eq h heq

namespace Binary64

/-! ## Significands of natural numbers -/

/-- A number with the binary point behind its first 53 bits, rounded to an integer. -/
def significandOf (n : Nat) : Nat :=
  roundDiv (n <<< (52 - n.log2)) (1 <<< (n.log2 - 52))

theorem leastNormal_le_div {n : Nat} (hn : n ≠ 0) :
    leastNormal ≤ (n <<< (52 - n.log2)) / (1 <<< (n.log2 - 52)) := by
  rw [Nat.shiftLeft_eq, Nat.one_shiftLeft, Nat.le_div_iff_mul_le (Nat.two_pow_pos _)]
  calc leastNormal * 2 ^ (n.log2 - 52) = 2 ^ n.log2 * 2 ^ (52 - n.log2) := by
        rw [show leastNormal = 2 ^ 52 from rfl, ← Nat.pow_add, ← Nat.pow_add]
        congr 1
        omega
    _ ≤ n * 2 ^ (52 - n.log2) := Nat.mul_le_mul_right _ (Nat.log2_self_le hn)

theorem div_lt_two_mul_leastNormal (n : Nat) :
    (n <<< (52 - n.log2)) / (1 <<< (n.log2 - 52)) < 2 * leastNormal := by
  rw [Nat.shiftLeft_eq, Nat.one_shiftLeft, Nat.div_lt_iff_lt_mul (Nat.two_pow_pos _)]
  calc n * 2 ^ (52 - n.log2) < 2 ^ (n.log2 + 1) * 2 ^ (52 - n.log2) :=
        Nat.mul_lt_mul_of_pos_right Nat.lt_log2_self (Nat.two_pow_pos _)
    _ = 2 * leastNormal * 2 ^ (n.log2 - 52) := by
        rw [show 2 * leastNormal = 2 ^ 53 from rfl, ← Nat.pow_add, ← Nat.pow_add]
        congr 1
        omega

theorem leastNormal_le_significandOf {n : Nat} (hn : n ≠ 0) : leastNormal ≤ significandOf n :=
  Nat.le_trans (leastNormal_le_div hn) (div_le_roundDiv _ _)

/-- The rounded significand may carry to the next power of two, not beyond it. -/
theorem significandOf_le (n : Nat) : significandOf n ≤ 2 * leastNormal :=
  Nat.le_trans (roundDiv_le_div_add_one _ _) (div_lt_two_mul_leastNormal n)

theorem significandOf_le_significandOf {m n : Nat} (h : m ≤ n) (hlog : m.log2 = n.log2) :
    significandOf m ≤ significandOf n := by
  rw [significandOf, significandOf, hlog]
  refine roundDiv_le_roundDiv _ ?_
  rw [Nat.shiftLeft_eq, Nat.shiftLeft_eq]
  exact Nat.mul_le_mul_right _ h

/-! ## Magnitudes of natural numbers -/

/-- The exponent of an integer is the number of bits behind its first 53. -/
theorem exponentOf_one {n : Nat} (hn : n ≠ 0) : exponentOf n 1 = (n.log2 : Int) - 52 := by
  have hlow := leastNormal_le_div hn
  have hone : Nat.log2 1 = 0 := by decide
  have hneg : (-((n.log2 : Int) - (0 : Nat) - 52)).toNat = 52 - n.log2 := by omega
  have hpos : ((n.log2 : Int) - (0 : Nat) - 52).toNat = n.log2 - 52 := by omega
  simp only [exponentOf, hone, hneg, hpos, if_neg (Nat.not_lt.2 hlow)]
  omega

/-- The magnitude of a rounded natural number: exponent bits over the significand, of
which the leading bit counts into the exponent. -/
theorem nearestMagnitude_one {n : Nat} (hn : n ≠ 0) :
    nearestMagnitude n 1 =
      min ((n.log2 + 1022) * leastNormal + significandOf n) infinityMagnitude := by
  have hneg : (-((n.log2 : Int) - 52)).toNat = 52 - n.log2 := by omega
  have hpos : ((n.log2 : Int) - 52).toNat = n.log2 - 52 := by omega
  have hbias : ((n.log2 : Int) - 52 + 1074).toNat = n.log2 + 1022 := by omega
  simp only [nearestMagnitude, if_neg hn, exponentOf_one hn, hneg, hpos, hbias, significandOf]

theorem nearestMagnitude_le (num den : Nat) : nearestMagnitude num den ≤ infinityMagnitude := by
  rw [nearestMagnitude]
  split
  · exact Nat.zero_le _
  · exact Nat.min_le_right _ _

/-- Rounding natural numbers is monotone.  Between two powers of two the significand
grows; a power of two is not passed by the carries of smaller numbers. -/
theorem nearestMagnitude_one_le {m n : Nat} (h : m ≤ n) :
    nearestMagnitude m 1 ≤ nearestMagnitude n 1 := by
  by_cases hm : m = 0
  · simp [hm, nearestMagnitude]
  have hn : n ≠ 0 := by omega
  rw [nearestMagnitude_one hm, nearestMagnitude_one hn]
  have hlog : m.log2 ≤ n.log2 := (Nat.le_log2 hn).2 (Nat.le_trans (Nat.log2_self_le hm) h)
  have hle : (m.log2 + 1022) * leastNormal + significandOf m ≤
      (n.log2 + 1022) * leastNormal + significandOf n := by
    rcases Nat.lt_or_eq_of_le hlog with hlt | heq
    -- The carry of the smaller number fills its exponent at most, where the larger one starts.
    · have hhigh := significandOf_le m
      have hlow := leastNormal_le_significandOf hn
      have hstep : (m.log2 + 1 + 1022) * leastNormal ≤ (n.log2 + 1022) * leastNormal :=
        Nat.mul_le_mul_right _ (by omega)
      have hexpand : (m.log2 + 1 + 1022) * leastNormal =
          (m.log2 + 1022) * leastNormal + leastNormal := by
        rw [Nat.add_right_comm, Nat.add_mul, Nat.one_mul]
      omega
    · rw [heq]
      exact Nat.add_le_add_left (significandOf_le_significandOf h heq) _
  omega

/-! ## Integers -/

theorem magnitude_ofMagnitude {negative : Bool} {magnitude : Nat}
    (h : magnitude ≤ infinityMagnitude) :
    (ofMagnitude negative magnitude).magnitude.val = magnitude :=
  Nat.mod_eq_of_lt (Nat.lt_of_le_of_lt h (by decide))

theorem magnitude_ofInt (n : Int) : (ofInt n).magnitude.val = nearestMagnitude n.natAbs 1 :=
  magnitude_ofMagnitude (nearestMagnitude_le _ _)

/-- A rounded integer is a number. -/
theorem isNaN_ofInt (n : Int) : (ofInt n).isNaN = false := by
  have hle := nearestMagnitude_le n.natAbs 1
  simp only [isNaN, magnitude_ofInt, decide_eq_false_iff_not]
  omega

theorem key_ofInt (n : Int) :
    (ofInt n).key =
      if n < 0 then -(nearestMagnitude n.natAbs 1 : Int) else nearestMagnitude n.natAbs 1 := by
  rw [key, magnitude_ofInt]
  simp [ofInt, ofRatio, ofMagnitude]

/-- Rounding integers is monotone. -/
theorem key_ofInt_le_key_ofInt {m n : Int} (h : m ≤ n) : (ofInt m).key ≤ (ofInt n).key := by
  rw [key_ofInt, key_ofInt]
  by_cases hm : m < 0 <;> by_cases hn : n < 0
  · have := nearestMagnitude_one_le (m := n.natAbs) (n := m.natAbs) (by omega)
    simp only [hm, hn, if_true]
    omega
  · simp only [hm, hn, if_true, if_false]
    omega
  · omega
  · have := nearestMagnitude_one_le (m := m.natAbs) (n := n.natAbs) (by omega)
    simp only [hm, hn, if_false]
    omega

end Binary64

end EntityQuery
