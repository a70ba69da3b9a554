import EntityQuery.Text.Blank
import EntityQuery.Text.Separated

/-!
# Field paths

A column names fields by a path: hops along relations, and at the end one field or
several sibling fields.  Blanks around hops and fields do not count, and none of them
may be blank.

Main results:

- Definition `Path.ofColumn?`: the path that a column names.
- Definition `Path.text`: the column that names a path.
-/

namespace EntityQuery

/-- The character between the hops of a path. -/
def pathSeparator : Char := '.'

/-- The character between sibling fields and between sort columns. -/
def fieldSeparator : Char := ','

/-- Hops along relations and the fields at the end. -/
structure Path where
  hops : List String
  fields : List String
deriving DecidableEq, Repr

namespace Path

/-- The pieces of a text at a separator, without the blanks around them. -/
def pieces (separator : Char) (s : String) : List String :=
  (Text.split separator s).map Text.trim

/-- The path of hops and a text of sibling fields, if no piece is empty. -/
def ofPieces? (hops : List String) (last : String) : Option Path :=
  let fields := pieces fieldSeparator last
  if (hops ++ fields).any (·.isEmpty) then none else some ⟨hops, fields⟩

/-- The path that a column names. -/
def ofColumn? (column : String) : Option Path :=
  let segments := pieces pathSeparator column
  segments.getLast?.bind (ofPieces? segments.dropLast)

/-- The column that names a path. -/
def text (p : Path) : String :=
  Text.join pathSeparator (p.hops ++ [Text.join fieldSeparator p.fields])

end Path

end EntityQuery
