/-!
# Hexadecimal digits

Identifiers and character escapes are written in hexadecimal.  Both letter cases
are read and the lower case is written.

Main results:

- Definition `hexOfChars?`: the number that digits spell.
- Definition `hexChars`: the digits that spell a number.
-/

namespace EntityQuery.Text

/-- The value of a hexadecimal digit in either letter case. -/
def hexValue? (c : Char) : Option Nat :=
  if '0' ≤ c ∧ c ≤ '9' then some (c.toNat - 48)
  else if 'a' ≤ c ∧ c ≤ 'f' then some (c.toNat - 87)
  else if 'A' ≤ c ∧ c ≤ 'F' then some (c.toNat - 55)
  else none

/-- The number spelled by a run of hexadecimal digits. -/
def hexOfChars? (cs : List Char) : Option Nat :=
  (cs.mapM hexValue?).map fun ds => ds.foldl (fun n d => 16 * n + d) 0

/-- The last `width` hexadecimal digits of a number. -/
def hexChars (width n : Nat) : List Char :=
  match width with
  | 0 => []
  | width + 1 => hexChars width (n / 16) ++ [Nat.digitChar (n % 16)]

end EntityQuery.Text
