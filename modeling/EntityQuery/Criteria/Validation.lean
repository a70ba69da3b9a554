import EntityQuery.Criteria.Request
import EntityQuery.Text.Blank

/-!
# Validation of requests

A request is refused when a criterion or a sort directive has a column of blanks
only.  The first fault is reported: criteria come before alternatives and both before
sort directives.

Main results:

- Theorem `validate_eq_ok_iff`: a request is valid exactly when no column is blank.
-/

namespace EntityQuery

/-- A group of criteria inside a request. -/
inductive CriteriaGroup where
  | criteria
  | orCriteria
deriving DecidableEq, Repr

/-- Why a request is refused. -/
inductive RequestError where
  | blankColumn (group : CriteriaGroup) (index : Nat)
  | blankSortColumn (index : Nat)
deriving DecidableEq, Repr

namespace RequestError

/-- The name of a group on the wire. -/
def groupText : CriteriaGroup → String
  | .criteria => "criteria"
  | .orCriteria => "orCriteria"

/-- What the fault is called. -/
def message : RequestError → String
  | blankColumn group index =>
    groupText group ++ " criterion #" ++ toString index ++ " has a blank column"
  | blankSortColumn index => "sort directive #" ++ toString index ++ " has a blank column"

end RequestError

namespace Request

/-- Where the first blank column is. -/
def blankColumn? (columns : List String) : Option Nat :=
  columns.findIdx? Text.isBlankText

/-- The first fault of a request. -/
def fault? (r : Request) : Option RequestError :=
  ((blankColumn? (r.criteria.map (·.column))).map (.blankColumn .criteria)).or
    (((blankColumn? (r.orCriteria.map (·.column))).map (.blankColumn .orCriteria)).or
      ((blankColumn? (r.sort.map (·.column))).map .blankSortColumn))

/-- Refuse a request with a fault. -/
def validate (r : Request) : Except RequestError Unit :=
  match r.fault? with
  | some fault => .error fault
  | none => .ok ()

theorem blankColumn?_eq_none_iff {columns : List String} :
    blankColumn? columns = none ↔ ∀ c ∈ columns, Text.isBlankText c = false := by
  simp [blankColumn?]

/-- A request is valid exactly when no column in it is blank. -/
theorem validate_eq_ok_iff {r : Request} :
    r.validate = .ok () ↔
      (∀ c ∈ r.criteria, Text.isBlankText c.column = false) ∧
      (∀ c ∈ r.orCriteria, Text.isBlankText c.column = false) ∧
      (∀ s ∈ r.sort, Text.isBlankText s.column = false) := by
  have h : r.validate = .ok () ↔ r.fault? = none := by
    unfold validate
    cases r.fault? <;> simp
  simp [h, fault?, blankColumn?_eq_none_iff]

end Request

end EntityQuery
