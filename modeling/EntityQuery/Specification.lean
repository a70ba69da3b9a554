import EntityQuery.Compilation
import EntityQuery.Config.Basic

/-!
# Specifications

A specification is what a table is searched for: a predicate, or none for all rows, and
the joins it refers to.

Main results:

- Definition `Scope.requestPredicate`: the predicate of a request.
- Definition `Specification.ofRequest`: the specification of a request.
-/

namespace EntityQuery

/-- A predicate with its joins; without a predicate all rows are meant. -/
structure Specification (E : Type) where
  predicate : Option Predicate
  joins : List (Join E)

namespace Specification

variable {E : Type}

/-- All rows. -/
def unfiltered : Specification E := ⟨none, []⟩

/-- Whether all rows are meant. -/
def isUnfiltered (s : Specification E) : Bool := s.predicate.isNone

end Specification

/-! ## Combining predicates -/

namespace Predicate

/-- Two predicates under an operator. -/
def combine (operator : GroupOperator) (left right : Predicate) : Predicate :=
  match operator with
  | .and => left.and right
  | .or => left.or right

/-- Two predicates under an operator, or the one that is there. -/
def merge (operator : GroupOperator) : Option Predicate → Option Predicate → Option Predicate
  | some left, some right => some (combine operator left right)
  | some left, none => some left
  | none, right => right

end Predicate

/-! ## Predicates of requests -/

namespace Scope

variable {E : Type}

/-- All criteria of a list; an empty list is fulfilled. -/
def allOf (schema : Schema E) (escape : Char) (s : Scope E) (cs : List Criterion) :
    Except CriterionError Predicate × Scope E :=
  if cs.isEmpty then (.ok (.const true), s)
  else
    let (parts, s') := s.compileEach schema escape cs
    (parts.map .all, s')

/-- One criterion of a list at least; an empty list is not fulfilled. -/
def anyOf (schema : Schema E) (escape : Char) (s : Scope E) (cs : List Criterion) :
    Except CriterionError Predicate × Scope E :=
  if cs.isEmpty then (.ok (.const false), s)
  else
    let (parts, s') := s.compileEach schema escape cs
    (parts.map .any, s')

/-- The criteria of a list under an operator. -/
def groupOf (schema : Schema E) (escape : Char) (operator : GroupOperator) (s : Scope E)
    (cs : List Criterion) : Except CriterionError Predicate × Scope E :=
  match operator with
  | .and => s.allOf schema escape cs
  | .or => s.anyOf schema escape cs

/-- The predicate of a request, if it has criteria.  The criteria stand under the
operator of the request or the configured one; alternatives always stand under OR, and
the two groups are combined by the same operator. -/
def requestPredicate (schema : Schema E) (config : Config) (s : Scope E) (r : Request) :
    Except CriterionError (Option Predicate) × Scope E :=
  let operator := r.criteriaOperator.getD config.defaultOperator
  match r.criteria.isEmpty, r.orCriteria.isEmpty with
  | true, true => (.ok none, s)
  | false, true =>
    let (p, s') := s.groupOf schema config.escape operator r.criteria
    (p.map some, s')
  | true, false =>
    let (p, s') := s.anyOf schema config.escape r.orCriteria
    (p.map some, s')
  | false, false =>
    match s.allOf schema config.escape r.criteria with
    | (.error e, s') => (.error e, s')
    | (.ok left, s') =>
      let (right, s'') := s'.anyOf schema config.escape r.orCriteria
      (right.map fun right => some (.combine operator left right), s'')

/-- The specification of a predicate over the joins of a scope. -/
def finish (s : Scope E) (predicate : Option Predicate) : Specification E :=
  ⟨predicate, s.joins⟩

end Scope

/-- The specification of a request. -/
def Specification.ofRequest {E : Type} (schema : Schema E) (config : Config) (root : E)
    (r : Request) : Except CriterionError (Specification E) :=
  let (predicate, s) := (Scope.new root).requestPredicate schema config r
  predicate.map s.finish

end EntityQuery
