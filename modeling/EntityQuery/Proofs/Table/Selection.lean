import EntityQuery.Table

/-!
# Selection from a table

A specification whose predicate can be bound is a test of root rows.  The rows that a
table selects, counts and sorts are those that pass the test.

Main results:

- Definition `Specification.rowTest`: the test of a specification.
- Theorem `matching_eq`: the selected rows are those that pass the test.
- Theorem `page_of_rowTest`: a page is cut out of the sorted selected rows.
-/

namespace EntityQuery

variable {E K : Type}

/-- What a specification asks of root rows, if its predicate can be bound. -/
def Specification.rowTest (spec : Specification E) : Except KindMismatch (Row → Bool) :=
  match spec.predicate with
  | none => .ok fun _ => true
  | some p => p.bind.map fun bound => EntityQuery.selects spec.joins bound

namespace Table

/-- The matching rows of a table are those that pass the test of the specification. -/
theorem matching_eq (t : Table K) (spec : Specification E) :
    t.matching spec = spec.rowTest.map fun test => t.rows.filter test := by
  unfold matching Specification.rowTest
  cases spec.predicate with
  | none =>
      have hall : t.rows.filter (fun _ => true) = t.rows :=
        List.filter_eq_self.mpr fun _ _ => rfl
      simp only [Except.map, hall]
  | some p =>
      dsimp only
      cases p.bind <;> rfl

variable {t : Table K} {spec : Specification E} {test : Row → Bool}

/-- The matching rows of a specification that can be bound. -/
theorem matching_of_rowTest (h : spec.rowTest = .ok test) :
    t.matching spec = .ok (t.rows.filter test) := by
  rw [matching_eq, h]
  rfl

/-- Counting counts the rows that pass the test. -/
theorem count_of_rowTest (h : spec.rowTest = .ok test) :
    t.count spec = .ok (t.rows.filter test).length := by
  rw [count, matching_of_rowTest h]

/-- A page is cut out of the sorted rows that pass the test. -/
theorem page_of_rowTest {schema : Schema E} {entity : E} {request : PageRequest}
    {keys : List SortKey} (h : spec.rowTest = .ok test)
    (hkeys : SortKey.resolveEach schema entity request.order = .ok keys) :
    t.page schema entity spec request = .ok {
      items := ((sortRows keys (t.rows.filter test)).drop request.offset.toNat).take
        request.size.toNat
      total := (t.rows.filter test).length
      page := request.page
      size := request.size } := by
  rw [page, hkeys, matching_of_rowTest h]

end Table

end EntityQuery
