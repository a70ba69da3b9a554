import EntityQuery.Value.Basic

/-!
# Rows

A row has values in named columns and rows related to it under named relations, as
many as there are, whatever the cardinality of the relation.

Main results:

- Definitions `Row.value?` and `Row.related`: what queries read from a row.
- Definition `Row.key`: the integer in a column that tells rows apart.
-/

namespace EntityQuery

/-- A row: its columns, and the rows related to it. -/
inductive Row where
  | mk (columns : List (String × Value)) (relations : List (String × List Row))

namespace Row

instance : Inhabited Row := ⟨mk [] []⟩

/-- The columns with their values. -/
def columns : Row → List (String × Value)
  | mk columns _ => columns

/-- The relations with the related rows. -/
def relations : Row → List (String × List Row)
  | mk _ relations => relations

/-- The value in a column, if the row has the column. -/
def value? (r : Row) (column : String) : Option Value :=
  r.columns.lookup column

/-- The rows related under a relation, none if the row does not have it. -/
def related (r : Row) (relation : String) : List Row :=
  (r.relations.lookup relation).getD []

/-- The integer in a key column; rows without one share the key zero. -/
def key (r : Row) (keyColumn : String) : Int64 :=
  match r.value? keyColumn with
  | some (.int n) => n
  | _ => 0

end Row

end EntityQuery
