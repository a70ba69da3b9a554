import EntityQuery.Value.Basic

/-!
# Raw values

A request carries loosely typed values: the scalars that its wire form can spell.
They become values of a column's kind when a criterion is compiled.

Main results:

- Definition `RawValue.display`: the text of a raw value.
- Definition `RawValue.toValue`: the value of the same variant.
-/

namespace EntityQuery

/-- A value as a client sends it. -/
inductive RawValue where
  | bool (value : Bool)
  | int (value : Int64)
  | float (value : Binary64)
  | text (value : String)
deriving DecidableEq

namespace RawValue

/-- The text of a raw value; texts stand as they are. -/
def display : RawValue → String
  | bool value => Value.boolText value
  | int value => Text.int64Text value
  | float value => value.text
  | text value => value

/-- The value of the same variant. -/
def toValue : RawValue → Value
  | bool value => .bool value
  | int value => .int value
  | float value => .float value
  | text value => .text value

end RawValue

end EntityQuery
