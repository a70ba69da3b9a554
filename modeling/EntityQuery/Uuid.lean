import EntityQuery.Text.Hex
import EntityQuery.Text.Separated

/-!
# Universally unique identifiers

An identifier is 128 bits, written as 32 hexadecimal digits in five groups with
hyphens between them.

Main results:

- Definitions `Uuid.ofText?` and `Uuid.text`: the hyphenated form.
-/

namespace EntityQuery

/-- A 128-bit identifier; identifiers are ordered as numbers. -/
structure Uuid where
  value : BitVec 128
deriving DecidableEq, Repr

namespace Uuid

/-- The lengths of the five groups of digits. -/
def groupLengths : List Nat := [8, 4, 4, 4, 12]

/-- Read the hyphenated form, in either letter case. -/
def ofText? (s : String) : Option Uuid :=
  let groups := Text.splitChars '-' s.toList
  if groups.map List.length = groupLengths then
    (Text.hexOfChars? groups.flatten).map fun n => ⟨BitVec.ofNat 128 n⟩
  else none

/-- Cut digits into groups of the given lengths. -/
def groupsOf : List Nat → List Char → List String
  | [], _ => []
  | n :: ns, cs => String.ofList (cs.take n) :: groupsOf ns (cs.drop n)

/-- The hyphenated form in lower case. -/
def text (u : Uuid) : String :=
  Text.join '-' (groupsOf groupLengths (Text.hexChars 32 u.value.toNat))

end Uuid

end EntityQuery
