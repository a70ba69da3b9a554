/-!
# Operators

An operator says what a criterion asks of a column.  On the wire it is a token.

Main results:

- Theorem `ofToken?_token`: the token of an operator names it.
- Theorem `ofToken?_eq_some_iff`: and no other text does.
-/

namespace EntityQuery

/-- What a criterion asks of a column. -/
inductive Operator where
  | contain
  | containWithWildcard
  | notContain
  | notContainWithWildcard
  | equals
  | notEqual
  | isIn
  | notIn
  | greaterThan
  | lesserThan
  | greaterEquals
  | lesserEquals
  | isTrue
  | isFalse
  | isNull
  | notNull
deriving DecidableEq, Repr

namespace Operator

/-- Every operator, in the order of their listing. -/
def all : List Operator :=
  [contain, containWithWildcard, notContain, notContainWithWildcard, equals, notEqual, isIn, notIn,
    greaterThan, lesserThan, greaterEquals, lesserEquals, isTrue, isFalse, isNull, notNull]

/-- The operator's text on the wire. -/
def token : Operator → String
  | contain => "like"
  | containWithWildcard => "like_with_wildcard"
  | notContain => "!like"
  | notContainWithWildcard => "!like_with_wildcard"
  | equals => "="
  | notEqual => "!="
  | isIn => "in"
  | notIn => "!in"
  | greaterThan => ">"
  | lesserThan => "<"
  | greaterEquals => ">="
  | lesserEquals => "<="
  | isTrue => "is_true"
  | isFalse => "is_false"
  | isNull => "is_null"
  | notNull => "!is_null"

/-- The operator that a token names. -/
def ofToken? (token : String) : Option Operator :=
  all.find? (·.token == token)

/-- Whether the operator works on values; the others ask about the column alone. -/
def requiresValues : Operator → Bool
  | isTrue | isFalse | isNull | notNull => false
  | _ => true

/-- The token of an operator names it. -/
@[simp] theorem ofToken?_token (op : Operator) : ofToken? op.token = some op := by
  cases op <;> decide

/-- A text names an operator exactly when it is the operator's token. -/
theorem ofToken?_eq_some_iff {token : String} {op : Operator} :
    ofToken? token = some op ↔ op.token = token := by
  constructor
  · intro h
    simpa using List.find?_some h
  · rintro rfl
    exact ofToken?_token op

end Operator

end EntityQuery
