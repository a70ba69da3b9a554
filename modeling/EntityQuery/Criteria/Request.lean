import EntityQuery.Criteria.Operator
import EntityQuery.Value.Raw

/-!
# Filter requests

A request asks for one page of the rows that fulfil its criteria, in an order given
by sort directives.  It knows nothing of entities: columns are texts until a
criterion is compiled.

Main results:

- Definition `Request.normalizedSize`: the page size that a request gets.
- Theorem `normalizedSize_le`: it is never above the maximum.
- Theorem `normalizedSize_pos`: it is positive when the maximum is.
-/

namespace EntityQuery

/-! ## Parts of a request -/

/-- How the criteria of a group are combined. -/
inductive GroupOperator where
  | and
  | or
deriving DecidableEq, Repr

/-- The direction of an order. -/
inductive Direction where
  | ascending
  | descending
deriving DecidableEq, Repr

/-- A condition on a column. -/
structure Criterion where
  column : String
  operator : Operator
  values : List RawValue
deriving DecidableEq

/-- A directive to sort by one or more columns. -/
structure SortDirective where
  column : String
  direction : Direction
deriving DecidableEq, Repr

/-- A request for a page of rows. -/
structure Request where
  page : UInt32
  size : Int32 := 0
  sort : List SortDirective := []
  criteriaOperator : Option GroupOperator := none
  criteria : List Criterion := []
  orCriteria : List Criterion := []
deriving DecidableEq

namespace Request

/-! ## Building -/

/-- Sort by one more column. -/
def addSort (r : Request) (column : String) (direction : Direction) : Request :=
  { r with sort := r.sort ++ [⟨column, direction⟩] }

/-- Sort by more columns, each ascending. -/
def addAscending (r : Request) (columns : List String) : Request :=
  { r with sort := r.sort ++ columns.map fun column => ⟨column, .ascending⟩ }

/-- Drop every directive for a column. -/
def removeSort (r : Request) (column : String) : Request :=
  { r with sort := r.sort.filter (·.column != column) }

/-- Ask for one more criterion. -/
def addCriterion (r : Request) (criterion : Criterion) : Request :=
  { r with criteria := r.criteria ++ [criterion] }

/-- Drop every criterion on a column. -/
def removeCriteria (r : Request) (column : String) : Request :=
  { r with criteria := r.criteria.filter (·.column != column) }

/-- Add a criterion to the alternatives. -/
def addOrCriterion (r : Request) (criterion : Criterion) : Request :=
  { r with orCriteria := r.orCriteria ++ [criterion] }

/-- Drop every alternative on a column. -/
def removeOrCriteria (r : Request) (column : String) : Request :=
  { r with orCriteria := r.orCriteria.filter (·.column != column) }

/-- Say how the criteria are combined. -/
def withOperator (r : Request) (operator : GroupOperator) : Request :=
  { r with criteriaOperator := some operator }

/-! ## Reading -/

/-- Whether the request restricts the rows at all. -/
def hasCriteria (r : Request) : Bool :=
  !r.criteria.isEmpty || !r.orCriteria.isEmpty

/-- The size of the page: the requested size up to the maximum, and the maximum when
no positive size is requested. -/
def normalizedSize (r : Request) (maximum : UInt32) : UInt32 :=
  if 0 < r.size.toInt then UInt32.ofNat (min r.size.toInt.toNat maximum.toNat) else maximum

/-- The page size is never above the maximum. -/
theorem normalizedSize_le (r : Request) (maximum : UInt32) :
    (r.normalizedSize maximum).toNat ≤ maximum.toNat := by
  have := maximum.toNat_lt
  unfold normalizedSize
  split
  · rw [UInt32.toNat_ofNat_of_lt' (by simp [UInt32.size]; omega)]
    exact Nat.min_le_right ..
  · exact Nat.le_refl _

/-- The page size is positive when the maximum is. -/
theorem normalizedSize_pos (r : Request) {maximum : UInt32} (h : 0 < maximum.toNat) :
    0 < (r.normalizedSize maximum).toNat := by
  have := maximum.toNat_lt
  unfold normalizedSize
  split
  · rw [UInt32.toNat_ofNat_of_lt' (by simp [UInt32.size]; omega)]
    omega
  · exact h

end Request

end EntityQuery
