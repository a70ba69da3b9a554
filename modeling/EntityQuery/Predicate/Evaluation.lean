import EntityQuery.Like.Matching
import EntityQuery.Predicate.Basic
import EntityQuery.Row
import EntityQuery.Truth
import EntityQuery.Value.Order

/-!
# Evaluation of predicates

A predicate is evaluated for a root row and a choice of a row for every join.  A join
may still be pending, and a join that brings in no row leaves its fields without a
value.

Main results:

- Definition `Predicate.evaluate`: the truth value of a predicate.
- Definition `Predicate.outcomes`: what it can still become while joins are pending.
-/

namespace EntityQuery

/-! ## Tests of values -/

namespace Comparison

/-- Whether an order of two sides fulfils a comparison. -/
def accepts : Comparison → Ordering → Bool
  | eq, o => o == .eq
  | ne, o => o != .eq
  | lt, o => o == .lt
  | lte, o => o != .gt
  | gt, o => o == .gt
  | gte, o => o != .lt
  | isIn, _ => false

/-- Compare a value with an operand.  A missing value and incomparable sides are
undecided; membership asks for an equal item. -/
def evaluate (comparison : Comparison) (actual operand : Value) : Truth :=
  if actual.isNull || operand.isNull then .unknown
  else
    match comparison with
    | isIn =>
      match operand with
      | .list items => .ofBool (items.any fun item => actual.strictCompare? item == some .eq)
      | _ => .unknown
    | _ =>
      match actual.strictCompare? operand with
      | some o => .ofBool (comparison.accepts o)
      | none => .unknown

end Comparison

/-- Ask a test of a value. -/
def Test.evaluate (actual : Value) : Test → Truth
  | compare comparison operand => comparison.evaluate actual operand
  | like pattern escape =>
    match actual.renderText? with
    | some text => .ofBool (Like.matchesPattern (Text.lower text) pattern escape)
    | none => .unknown
  | isNull => .ofBool actual.isNull
  | isNotNull => .ofBool (!actual.isNull)
  | isTrue =>
    match actual with
    | .bool b => .ofBool b
    | .null => .unknown
    | _ => .no

/-! ## Choices of rows -/

/-- What has been chosen for a join: nothing yet, the absence of a row, or a row. -/
inductive Slot where
  | pending
  | empty
  | row (row : Row)

/-- The root row and what has been chosen for the joins. -/
structure Choice where
  root : Row
  slots : List Slot

namespace Choice

/-- A choice in which every join is pending. -/
def start (root : Row) (joins : Nat) : Choice :=
  ⟨root, List.replicate joins .pending⟩

/-- The row of a source, if one is chosen. -/
def row? (c : Choice) : Source → Option Row
  | .root => some c.root
  | .join id =>
    match c.slots[id]? with
    | some (.row r) => some r
    | _ => none

/-- Whether the join of a source is still pending. -/
def isPending (c : Choice) : Source → Bool
  | .root => false
  | .join id =>
    match c.slots[id]? with
    | some .pending => true
    | _ => false

/-- The value of a field; without a row or a column it is missing. -/
def value (c : Choice) (f : FieldRef) : Value :=
  ((c.row? f.source).bind (·.value? f.name)).getD .null

/-- Choose for a join. -/
def choose (c : Choice) (id : Nat) (slot : Slot) : Choice :=
  { c with slots := c.slots.set id slot }

end Choice

/-! ## Predicates -/

namespace Predicate

mutual

/-- The truth value of a predicate; the fields of pending joins count as missing. -/
def evaluate (c : Choice) : Predicate → Truth
  | const b => .ofBool b
  | all parts => .all (evaluateEach c parts)
  | any parts => .any (evaluateEach c parts)
  | not part => (evaluate c part).not
  | test field t => t.evaluate (c.value field)

/-- The truth values of the parts of a group. -/
def evaluateEach (c : Choice) : List Predicate → List Truth
  | [] => []
  | part :: parts => evaluate c part :: evaluateEach c parts

end

mutual

/-- The truth values that a predicate can still take: a test of a pending join is
undecided, and all else is combined value by value. -/
def outcomes (c : Choice) : Predicate → Outcomes
  | const b => .exactly (.ofBool b)
  | all parts => .all (outcomesEach c parts)
  | any parts => .any (outcomesEach c parts)
  | not part => (outcomes c part).not
  | test field t =>
    if c.isPending field.source then .undecided else .exactly (t.evaluate (c.value field))

/-- The outcomes of the parts of a group. -/
def outcomesEach (c : Choice) : List Predicate → List Outcomes
  | [] => []
  | part :: parts => outcomes c part :: outcomesEach c parts

end

theorem evaluateEach_eq_map (c : Choice) (parts : List Predicate) :
    evaluateEach c parts = parts.map (evaluate c) := by
  induction parts with
  | nil => rfl
  | cons part parts ih => simp [evaluateEach, ih]

theorem outcomesEach_eq_map (c : Choice) (parts : List Predicate) :
    outcomesEach c parts = parts.map (outcomes c) := by
  induction parts with
  | nil => rfl
  | cons part parts ih => simp [outcomesEach, ih]

end Predicate

end EntityQuery
