import EntityQuery.Binary64.Shortest
import EntityQuery.Text.Integer

/-!
# Numbers in JSON

A JSON number is kept as it is spelled.  It is read as an integer when it has neither
fraction nor exponent and fits in 64 bits; otherwise it is read as a binary64 number,
which fails beyond the finite ones.

Main results:

- Definitions `Number.toInt?` and `Number.toBinary64?`: the two readings.
- Definition `Number.ofBinary64`: the spelling of a finite binary64 number.
-/

namespace EntityQuery.Json

/-! ## Spellings -/

/-- A spelled number.  An empty fraction means that there is no point; an exponent has
a sign, which is true for a minus, and digits. -/
structure Number where
  negative : Bool
  whole : List Char
  fraction : List Char
  exponent : Option (Bool × List Char)
deriving DecidableEq

namespace Number

/-- The characters of a number. -/
def chars (n : Number) : List Char :=
  (if n.negative then ['-'] else []) ++ n.whole ++
    (if n.fraction.isEmpty then [] else '.' :: n.fraction) ++
    (match n.exponent with
    | none => []
    | some (negative, digits) => 'e' :: (if negative then '-' else '+') :: digits)

/-- The digits of an exponent after its sign. -/
def exponentDigits? (negative : Bool) (cs : List Char) : Option (Bool × List Char) :=
  if cs ≠ [] ∧ cs.all Char.isDigit = true then some (negative, cs) else none

/-- What follows the letter of an exponent. -/
def exponentOfChars? : List Char → Option (Bool × List Char)
  | '-' :: cs => exponentDigits? true cs
  | '+' :: cs => exponentDigits? false cs
  | cs => exponentDigits? false cs

/-- What follows whole digits and fraction: nothing, or an exponent. -/
def withExponent? (negative : Bool) (whole fraction : List Char) : List Char → Option Number
  | [] => some ⟨negative, whole, fraction, none⟩
  | 'e' :: cs => (exponentOfChars? cs).map fun e => ⟨negative, whole, fraction, some e⟩
  | 'E' :: cs => (exponentOfChars? cs).map fun e => ⟨negative, whole, fraction, some e⟩
  | _ => none

/-- What follows the whole digits; a point needs a digit after it. -/
def withFraction? (negative : Bool) (whole : List Char) : List Char → Option Number
  | '.' :: cs =>
    let fraction := cs.takeWhile Char.isDigit
    if fraction = [] then none
    else withExponent? negative whole fraction (cs.dropWhile Char.isDigit)
  | cs => withExponent? negative whole [] cs

/-- A number without its sign.  A zero in front stands alone. -/
def ofUnsigned? (negative : Bool) (cs : List Char) : Option Number :=
  match cs.takeWhile Char.isDigit with
  | [] => none
  | '0' :: _ :: _ => none
  | whole => withFraction? negative whole (cs.dropWhile Char.isDigit)

/-- The number that the characters spell. -/
def ofChars? : List Char → Option Number
  | '-' :: cs => ofUnsigned? true cs
  | cs => ofUnsigned? false cs

/-! ## Integers -/

/-- The spelling of an integer. -/
def ofInt (n : Int) : Number :=
  ⟨n < 0, Nat.toDigits 10 n.natAbs, [], none⟩

/-- The integer a number spells.  Positive ones may use 64 bits, negative ones 63, and
a negative zero is not an integer. -/
def toInt? (n : Number) : Option Int :=
  if n.fraction.isEmpty && n.exponent.isNone then
    let value := Nat.ofDigitChars 10 n.whole 0
    if n.negative then
      if 0 < value ∧ value ≤ 0x8000000000000000 then some (-(value : Int)) else none
    else if value < 0x10000000000000000 then some (value : Int) else none
  else none

/-! ## Binary64 numbers -/

/-- Take digits into a significand as long as it fits in 64 bits. -/
def takeDigits (significand : Nat) : List Char → Nat × List Char
  | [] => (significand, [])
  | c :: cs =>
    let next := 10 * significand + (c.toNat - '0'.toNat)
    if next < 0x10000000000000000 then takeDigits next cs else (significand, c :: cs)

/-- The number nearest to a power of ten. -/
def powerOfTen (exponent : Nat) : Binary64 :=
  .ofRatio false (Nat.pow 10 exponent) 1

/-- Divide by a power of ten, in steps of the largest power there is. -/
def scaleDown (x : Binary64) (exponent : Nat) : Binary64 :=
  if exponent ≤ 308 then x.div (powerOfTen exponent)
  else if x.isZero then x
  else scaleDown (x.div (powerOfTen 308)) (exponent - 308)
termination_by exponent

/-- Multiply by a power of ten; a result that is not finite is refused. -/
def scaleUp? (x : Binary64) (exponent : Nat) : Option Binary64 :=
  if exponent ≤ 308 then
    let y := x.mul (powerOfTen exponent)
    if y.isFinite then some y else none
  else if x.isZero then some x
  else none

/-- The significand, rounded, times a power of ten, rounded again. -/
def scale? (significand : Nat) (exponent : Int) : Option Binary64 :=
  let x := Binary64.ofInt significand
  if 0 ≤ exponent then scaleUp? x exponent.toNat else some (scaleDown x (-exponent).toNat)

/-- The binary64 number a number spells.  Digits beyond those that fit in 64 bits only
count for the power of ten. -/
def toBinary64? (n : Number) : Option Binary64 :=
  let (high, wholeRest) := takeDigits 0 n.whole
  let (significand, fractionRest) := takeDigits high n.fraction
  let shift : Int := (wholeRest.length : Int) + fractionRest.length - n.fraction.length
  let unsigned := match n.exponent with
    | none => scale? significand shift
    | some (negative, digits) =>
      let exponent := Nat.ofDigitChars 10 digits 0
      if 0x80000000 ≤ exponent then
        if significand = 0 ∨ negative = true then some .zero else none
      else scale? significand (if negative then shift - exponent else shift + exponent)
  unsigned.map fun x => { x with negative := n.negative }

/-- The spelling of a finite binary64 number: shortest digits, the even ones of two
equally near, positional while the first digit stands between ten to the -5 and ten to
the 15, and with an exponent otherwise. -/
def ofBinary64 (x : Binary64) : Number :=
  let decimal := Binary64.shortest .even x.magnitude.val
  let leading := decimal.leadingExponent
  if -5 ≤ leading ∧ leading ≤ 15 then
    let fraction := decimal.fractionDigits
    ⟨x.negative, decimal.wholeDigits, if fraction.isEmpty then ['0'] else fraction, none⟩
  else
    ⟨x.negative, decimal.digits.take 1, decimal.digits.drop 1,
      some (leading < 0, Nat.toDigits 10 leading.natAbs)⟩

end Number

end EntityQuery.Json
