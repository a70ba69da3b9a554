import EntityQuery.Join.Search
import EntityQuery.Paging.Page
import EntityQuery.Paging.PageRequest
import EntityQuery.Paging.Sorting
import EntityQuery.Predicate.Binding
import EntityQuery.Specification

/-!
# Tables

A table keeps rows in the order in which their keys were first saved.  Saving a row
under a key that is there replaces the row in its place.  What the key of a row is, and
of which type, is up to the entity.

Main results:

- Definitions `Table.save`, `Table.delete`, `Table.find?`: the rows by key.
- Definition `Table.page`: a page of the rows that a specification selects.
- Definition `Table.count`: how many rows it selects.
-/

namespace EntityQuery

/-- Why rows cannot be selected. -/
inductive SelectionError where
  | kind (fault : KindMismatch)
  | sort (fault : SortError)
deriving DecidableEq, Repr

/-- What the fault is called. -/
def SelectionError.message : SelectionError → String
  | kind fault => fault.message
  | sort fault => fault.message

/-- Rows of an entity, told apart by their keys. -/
structure Table (K : Type) where
  keyOf : Row → K
  rows : List Row

namespace Table

/-! ## Rows by key -/

variable {K : Type}

/-- A table without rows. -/
def empty (keyOf : Row → K) : Table K := ⟨keyOf, []⟩

/-- How many rows there are. -/
def size (t : Table K) : Nat := t.rows.length

/-- Whether there are no rows. -/
def isEmpty (t : Table K) : Bool := t.rows.isEmpty

/-- The keys of the rows, in order. -/
def keys (t : Table K) : List K := t.rows.map t.keyOf

section Keyed

variable [DecidableEq K]

/-- Put a row in the place of the first row with its key, or at the end. -/
def put (keyOf : Row → K) (r : Row) : List Row → List Row
  | [] => [r]
  | s :: rows => if keyOf s = keyOf r then r :: rows else s :: put keyOf r rows

/-- Save a row under its key. -/
def save (t : Table K) (r : Row) : Table K :=
  { t with rows := put t.keyOf r t.rows }

/-- Save rows one after another. -/
def saveAll (t : Table K) (rows : List Row) : Table K :=
  rows.foldl save t

/-- The row under a key. -/
def find? (t : Table K) (key : K) : Option Row :=
  t.rows.find? fun r => t.keyOf r == key

/-- The rows under keys, in the order of the keys, without the missing ones. -/
def findAll (t : Table K) (keys : List K) : List Row :=
  keys.filterMap t.find?

/-- Remove the row under a key. -/
def delete (t : Table K) (key : K) : Table K :=
  { t with rows := t.rows.eraseP fun r => t.keyOf r == key }

/-- Whether there is a row under a key. -/
def contains (t : Table K) (key : K) : Bool := (t.find? key).isSome

end Keyed

/-! ## Selection -/

variable {E : Type}

/-- The rows that a specification selects, in the order of the table. -/
def matching (t : Table K) (spec : Specification E) : Except KindMismatch (List Row) :=
  match spec.predicate with
  | none => .ok t.rows
  | some predicate =>
    predicate.bind.map fun bound =>
      let plan := Plan.ofPredicate spec.joins bound
      t.rows.filter (plan.selects spec.joins)

/-- A page of the selected rows.  The order is resolved first, so its faults are
reported before those of the predicate. -/
def page (t : Table K) (schema : Schema E) (entity : E) (spec : Specification E)
    (request : PageRequest) : Except SelectionError (Page Row) :=
  match SortKey.resolveEach schema entity request.order with
  | .error e => .error (.sort e)
  | .ok keys =>
    match t.matching spec with
    | .error e => .error (.kind e)
    | .ok rows =>
      .ok {
        items := ((sortRows keys rows).drop request.offset.toNat).take request.size.toNat
        total := rows.length
        page := request.page
        size := request.size }

/-- How many rows a specification selects. -/
def count (t : Table K) (spec : Specification E) : Except SelectionError Nat :=
  match t.matching spec with
  | .error e => .error (.kind e)
  | .ok rows => .ok rows.length

end Table

end EntityQuery
