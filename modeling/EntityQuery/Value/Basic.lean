import EntityQuery.Binary64.Shortest
import EntityQuery.Timestamp
import EntityQuery.Uuid

/-!
# Values

A value is what a column of a row holds and what a predicate compares it with.
Lists of values occur as the operands of membership tests.

Main results:

- Definition `Value.renderText?`: the text that patterns are matched against.
- Definition `Value.text`: the text of an operand inside a predicate.
- Theorem `renderText?_eq_none_iff`: exactly nulls and lists have no text.
-/

namespace EntityQuery

/-! ## Values -/

/-- A member of an enumeration: its place in the declaration and its name. -/
structure EnumMember where
  ordinal : Nat
  name : String
deriving DecidableEq, Repr

/-- The value of a column or an operand. -/
inductive Value where
  | bool (value : Bool)
  | enum (member : EnumMember)
  | float (value : Binary64)
  | int (value : Int64)
  | list (items : List Value)
  | null
  | text (value : String)
  | timestamp (value : Timestamp)
  | uuid (value : Uuid)

namespace Value

instance : Inhabited Value := ⟨null⟩

/-- Whether the value is the null. -/
def isNull : Value → Bool
  | null => true
  | _ => false

@[simp] theorem isNull_iff {v : Value} : v.isNull = true ↔ v = null := by
  cases v <;> simp [isNull]

/-- The name of the variant. -/
def label : Value → String
  | bool _ => "bool"
  | enum _ => "enum"
  | float _ => "float"
  | int _ => "int"
  | list _ => "list"
  | null => "null"
  | text _ => "text"
  | timestamp _ => "timestamp"
  | uuid _ => "uuid"

/-! ## Texts -/

/-- The text of a truth value. -/
def boolText (b : Bool) : String :=
  if b then "true" else "false"

/-- The text that a pattern sees; nulls and lists have none. -/
def renderText? : Value → Option String
  | bool value => some (boolText value)
  | enum member => some member.name
  | float value => some value.text
  | int value => some (Text.int64Text value)
  | text value => some value
  | timestamp value => some value.text
  | uuid value => some value.text
  | list _ => none
  | null => none

/-- Exactly nulls and lists have no text. -/
theorem renderText?_eq_none_iff {v : Value} :
    v.renderText? = none ↔ v = null ∨ ∃ items, v = list items := by
  cases v <;> simp [renderText?]

/-- A text between single quotes, with every quote inside written twice. -/
def quoted (s : String) : String :=
  String.ofList ('\'' :: (s.toList.flatMap fun c => if c = '\'' then ['\'', '\''] else [c]) ++ ['\''])

mutual

/-- The text of a value inside a predicate: texts are quoted, lists stand in
parentheses. -/
def display : Value → String
  | list items => "(" ++ ", ".intercalate (displayEach items) ++ ")"
  | null => "null"
  | text value => quoted value
  | bool value => boolText value
  | enum member => member.name
  | float value => value.text
  | int value => Text.int64Text value
  | timestamp value => value.text
  | uuid value => value.text

/-- The texts of the values of a list. -/
def displayEach : List Value → List String
  | [] => []
  | v :: vs => v.display :: displayEach vs

end

/-! ## Equality -/

mutual

/-- Equality of values.  Floats are compared as numbers, so both zeros are equal and
a NaN is not equal to itself. -/
def same : Value → Value → Bool
  | bool a, bool b => a == b
  | enum a, enum b => a == b
  | float a, float b => a.valueEq b
  | int a, int b => a == b
  | list as, list bs => sameEach as bs
  | null, null => true
  | text a, text b => a == b
  | timestamp a, timestamp b => a == b
  | uuid a, uuid b => a == b
  | _, _ => false

/-- Lists are equal when they are so item by item. -/
def sameEach : List Value → List Value → Bool
  | [], [] => true
  | a :: as, b :: bs => same a b && sameEach as bs
  | _, _ => false

end

/-- Add a value at the end unless an equal one is there. -/
def addUnique (values : List Value) (v : Value) : List Value :=
  if values.any (·.same v) then values else values ++ [v]

/-- The list value of the first of each group of equal values, in order. -/
def uniqueList (values : List Value) : Value :=
  list (values.foldl addUnique [])

end Value

end EntityQuery
