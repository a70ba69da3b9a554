import EntityQuery.Coercion
import EntityQuery.Criteria.Request
import EntityQuery.Join.Scope
import EntityQuery.Like.Pattern
import EntityQuery.Path

/-!
# Compilation of criteria

A criterion becomes a predicate over the joins that its path opens.  The predicate is
true when the operator's test holds of one of the sibling fields; the operators that
look for texts try every value, comparisons take the first one, and membership takes all
of them as a set.

Main results:

- Definition `Criterion.predicatesFor`: the predicates of a criterion on one field.
- Definition `Scope.compile`: the predicate of a criterion.
-/

namespace EntityQuery

/-! ## Faults -/

/-- Why a criterion is refused. -/
inductive CriterionError where
  | invalidPath (path : String)
  | invalidValue (field : String) (cause : CoercionError)
  | missingValue (column : String) (operator : Operator)
  | name (fault : NameError)
deriving DecidableEq, Repr

namespace CriterionError

/-- What the fault is called. -/
def message : CriterionError → String
  | invalidPath path => "invalid field path '" ++ path ++ "'"
  | invalidValue field cause => "invalid value for field '" ++ field ++ "': " ++ cause.message
  | missingValue column operator =>
    "operator '" ++ operator.token ++ "' on '" ++ column ++ "' requires at least one value"
  | name (.unknownField entity field) =>
    "unknown field '" ++ field ++ "' on entity '" ++ entity ++ "'"
  | name (.unknownRelation entity relation) =>
    "unknown relation '" ++ relation ++ "' on entity '" ++ entity ++ "'"

end CriterionError

/-! ## One field -/

namespace Criterion

/-- The value of a raw value for a field. -/
def operand (field : FieldRef) (raw : RawValue) : Except CriterionError Value :=
  (coerce field.kind raw).mapError (.invalidValue field.name)

/-- The values of a list, or the first fault among them. -/
def operands (field : FieldRef) : List RawValue → Except CriterionError (List Value)
  | [] => .ok []
  | raw :: raws =>
    match operand field raw with
    | .error e => .error e
    | .ok v => (operands field raws).map (v :: ·)

/-- A comparison with the first value. -/
def compareFirst (c : Criterion) (field : FieldRef) (comparison : Comparison) :
    Except CriterionError Predicate :=
  match c.values with
  | [] => .error (.missingValue c.column c.operator)
  | raw :: _ => (operand field raw).map fun v => .test field (.compare comparison v)

/-- Membership in the set of all values. -/
def membership (c : Criterion) (field : FieldRef) : Except CriterionError Predicate :=
  (operands field c.values).map fun vs => .test field (.compare .isIn (Value.uniqueList vs))

/-- The texts that contain a value. -/
def containsTest (escape : Char) (raw : RawValue) : Test :=
  .like (Like.containing escape raw.display) (some escape)

/-- The texts that match a value as a pattern of the client. -/
def wildcardTest (raw : RawValue) : Test :=
  .like (Like.wildcard raw.display) none

/-- The predicates of a criterion on one field, of which one must hold. -/
def predicatesFor (escape : Char) (c : Criterion) (field : FieldRef) :
    Except CriterionError (List Predicate) :=
  match c.operator with
  | .contain => .ok (c.values.map fun raw => .test field (containsTest escape raw))
  | .containWithWildcard => .ok (c.values.map fun raw => .test field (wildcardTest raw))
  | .notContain => .ok (c.values.map fun raw => .not (.test field (containsTest escape raw)))
  | .notContainWithWildcard => .ok (c.values.map fun raw => .not (.test field (wildcardTest raw)))
  | .equals => (c.compareFirst field .eq).map ([·])
  | .notEqual => (c.compareFirst field .ne).map ([·])
  | .greaterThan => (c.compareFirst field .gt).map ([·])
  | .lesserThan => (c.compareFirst field .lt).map ([·])
  | .greaterEquals => (c.compareFirst field .gte).map ([·])
  | .lesserEquals => (c.compareFirst field .lte).map ([·])
  | .isIn => (c.membership field).map ([·])
  | .notIn => (c.membership field).map fun p => [.not p]
  | .isTrue => .ok [.test field .isTrue]
  | .isFalse => .ok [.not (.test field .isTrue)]
  | .isNull => .ok [.test field .isNull]
  | .notNull => .ok [.test field .isNotNull]

end Criterion

/-! ## Paths -/

namespace Scope

variable {E : Type}

/-- The predicates of a criterion on sibling fields, of which one must hold. -/
def branches (schema : Schema E) (escape : Char) (s : Scope E) (c : Criterion)
    (source : Source) : List String → Except CriterionError (List Predicate)
  | [] => .ok []
  | name :: names =>
    match s.field schema source name with
    | .error e => .error (.name e)
    | .ok field =>
      match c.predicatesFor escape field with
      | .error e => .error e
      | .ok predicates => (branches schema escape s c source names).map (predicates ++ ·)

/-- The predicate of a criterion, and the scope with the joins of its path.  Joins that
were opened before a fault stay open. -/
def compile (schema : Schema E) (escape : Char) (s : Scope E) (c : Criterion) :
    Except CriterionError Predicate × Scope E :=
  if c.operator.requiresValues && c.values.isEmpty then
    (.error (.missingValue c.column c.operator), s)
  else
    match Path.ofColumn? c.column with
    | none => (.error (.invalidPath c.column), s)
    | some path =>
      match s.openPath schema .root path.hops with
      | (.error e, s') => (.error (.name e), s')
      | (.ok source, s') => ((s'.branches schema escape c source path.fields).map .any, s')

/-- The predicates of criteria one after another, up to the first fault. -/
def compileEach (schema : Schema E) (escape : Char) : Scope E → List Criterion →
    Except CriterionError (List Predicate) × Scope E
  | s, [] => (.ok [], s)
  | s, c :: cs =>
    match s.compile schema escape c with
    | (.error e, s') => (.error e, s')
    | (.ok p, s') =>
      let (rest, s'') := compileEach schema escape s' cs
      (rest.map (p :: ·), s'')

end Scope

end EntityQuery
