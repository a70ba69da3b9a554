import EntityQuery.Criteria.Request
import EntityQuery.Path
import EntityQuery.Row
import EntityQuery.Schema
import EntityQuery.StableSort
import EntityQuery.Value.Order

/-!
# Sorting

A sort column is a path along relations to one row each.  It is resolved against the
schema before rows are read; then rows are sorted by the values at the ends of the paths
and rows with equal values keep their order.

The order of the rows is the service's own where the values of every key are compared by a
total preorder.  Nulls and values of any variants are, unless there is a NaN, which is equal
to every number, or a float with two different integers that round to it.  With such values
the service may return the rows in another order, or stop.

Main results:

- Definition `SortKey.resolve`: the key of a sort column.
- Definition `sortRows`: the rows in order.
- Theorem `perm_sortRows`: sorting only moves rows.
-/

namespace EntityQuery

/-! ## Keys -/

/-- Why a sort column is refused. -/
inductive SortError where
  | unknownField (entity field : String)
  | toManyPath (path : String)
deriving DecidableEq, Repr

/-- What the fault is called. -/
def SortError.message : SortError → String
  | unknownField entity field => "unknown sort field '" ++ field ++ "' on entity '" ++ entity ++ "'"
  | toManyPath path => "cannot sort by '" ++ path ++ "': path crosses a to-many relation"

/-- A path to the value that rows are sorted by, and the direction. -/
structure SortKey where
  hops : List String
  field : String
  direction : Direction
deriving DecidableEq, Repr

namespace SortKey

variable {E : Type}

/-- Resolve the hops from an entity on, and the field at the end. -/
def resolveFrom (schema : Schema E) (path : String) (field : String) :
    E → List String → Except SortError (List String × String)
  | e, [] =>
    match (schema.entity e).field? field with
    | some f => .ok ([], f.name)
    | none => .error (.unknownField (schema.entity e).name field)
  | e, hop :: hops =>
    match (schema.entity e).relation? hop with
    | none => .error (.unknownField (schema.entity e).name hop)
    | some r =>
      match r.cardinality with
      | .many => .error (.toManyPath path)
      | .one => (resolveFrom schema path field r.target hops).map fun (names, f) =>
          (r.name :: names, f)

/-- The key of a sort column. -/
def resolve (schema : Schema E) (root : E) (column : String × Direction) :
    Except SortError SortKey :=
  let segments := Path.pieces pathSeparator column.1
  (resolveFrom schema column.1 (segments.getLast?.getD "") root segments.dropLast).map
    fun (hops, field) => ⟨hops, field, column.2⟩

/-- The keys of an order, or the first fault. -/
def resolveEach (schema : Schema E) (root : E) :
    List (String × Direction) → Except SortError (List SortKey)
  | [] => .ok []
  | column :: columns =>
    match resolve schema root column with
    | .error e => .error e
    | .ok key => (resolveEach schema root columns).map (key :: ·)

end SortKey

/-! ## Values of keys -/

/-- The row at the end of hops, taking the first related row each time. -/
def Row.follow? : Row → List String → Option Row
  | r, [] => some r
  | r, hop :: hops =>
    match r.related hop with
    | [] => none
    | next :: _ => next.follow? hops

/-- The value that a row is sorted by; without a row or a column it is missing. -/
def SortKey.value (k : SortKey) (r : Row) : Value :=
  ((r.follow? k.hops).bind (·.value? k.field)).getD .null

/-! ## Orders of rows -/

/-- Compare two values in the direction of a key. -/
def SortKey.compare (k : SortKey) (a b : Value) : Ordering :=
  match k.direction with
  | .ascending => a.canonicalCompare b
  | .descending => b.canonicalCompare a

/-- Compare lists of values key by key; the first difference decides. -/
def compareByKeys : List SortKey → List Value → List Value → Ordering
  | k :: ks, a :: as, b :: bs => (k.compare a b).then (compareByKeys ks as bs)
  | _, _, _ => .eq

/-- The rows in the order of the keys; rows that compare equal keep their order.  With a NaN
or a float that blurs integers among the values of a key the comparison is no total
preorder, and this is only one of the orders that a sort may leave. -/
def sortRows (keys : List SortKey) (rows : List Row) : List Row :=
  let decorated := rows.map fun r => (keys.map (·.value r), r)
  (stableSort (fun a b => compareByKeys keys a.1 b.1 == .lt) decorated).map (·.2)

/-- Sorting only moves rows. -/
theorem perm_sortRows (keys : List SortKey) (rows : List Row) : (sortRows keys rows).Perm rows := by
  have h := (perm_stableSort (fun a b => compareByKeys keys a.1 b.1 == .lt)
    (rows.map fun r => (keys.map (·.value r), r))).map (fun a : List Value × Row => a.2)
  simpa [sortRows, Function.comp_def] using h

/-- Without keys the rows stay as they are. -/
@[simp] theorem sortRows_nil (rows : List Row) : sortRows [] rows = rows := by
  have h : stableSort (fun a b : List Value × Row => compareByKeys [] a.1 b.1 == .lt)
      (rows.map fun r => ([], r)) = rows.map fun r => ([], r) :=
    stableSort_of_pairwise (List.pairwise_of_forall fun _ _ => by simp [compareByKeys])
  simpa [sortRows, Function.comp_def] using congrArg (List.map (·.2)) h

end EntityQuery
