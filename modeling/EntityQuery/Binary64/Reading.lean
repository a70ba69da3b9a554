import EntityQuery.Binary64.Rounding

/-!
# Binary64 numbers in texts

A text names a number when it is, after at most one sign, one of the words for
infinity and NaN in any letter case, or decimal digits with at most one point and
at most one exponent.  The number is the one nearest to the decimal.

Main results:

- Definition `ofText?`: the number that a text names.
-/

namespace EntityQuery.Binary64

/-! ## Decimals -/

/-- An exponent: at most one sign and at least one digit. -/
def exponentOfChars? : List Char → Option Int
  | '-' :: cs => if cs ≠ [] ∧ cs.all Char.isDigit = true then some (-(Nat.ofDigitChars 10 cs 0 : Int)) else none
  | '+' :: cs => if cs ≠ [] ∧ cs.all Char.isDigit = true then some (Nat.ofDigitChars 10 cs 0 : Int) else none
  | cs => if cs ≠ [] ∧ cs.all Char.isDigit = true then some (Nat.ofDigitChars 10 cs 0 : Int) else none

/-- What follows the digits: nothing, or `e` and an exponent. -/
def exponentPart? : List Char → Option Int
  | [] => some 0
  | 'e' :: cs => exponentOfChars? cs
  | 'E' :: cs => exponentOfChars? cs
  | _ => none

/-- The digits after the point, and the rest behind them. -/
def fractionPart : List Char → List Char × List Char
  | '.' :: cs => (cs.takeWhile Char.isDigit, cs.dropWhile Char.isDigit)
  | cs => ([], cs)

/-- A decimal without a sign.  Digits may miss before the point or after it, not on
both sides. -/
def decimalOfChars? (negative : Bool) (cs : List Char) : Option Binary64 :=
  let whole := cs.takeWhile Char.isDigit
  let (fraction, rest) := fractionPart (cs.dropWhile Char.isDigit)
  if whole = [] ∧ fraction = [] then none
  else
    (exponentPart? rest).map fun exponent =>
      ofDecimal negative (Nat.ofDigitChars 10 (whole ++ fraction) 0)
        (exponent - fraction.length)

/-! ## Words -/

/-- A word for infinity or NaN, or a decimal. -/
def unsignedOfChars? (negative : Bool) (cs : List Char) : Option Binary64 :=
  match String.ofList (cs.map Char.toLower) with
  | "inf" | "infinity" => some (infinity negative)
  | "nan" => some { nan with negative }
  | _ => decimalOfChars? negative cs

/-- The number that a text names. -/
def ofText? (s : String) : Option Binary64 :=
  match s.toList with
  | '-' :: cs => unsignedOfChars? true cs
  | '+' :: cs => unsignedOfChars? false cs
  | cs => unsignedOfChars? false cs

end EntityQuery.Binary64
