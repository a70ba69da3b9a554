import EntityQuery.Binary64.Rounding
import EntityQuery.Metrics.Counters
import EntityQuery.StableSort
import EntityQuery.Value.Order

/-!
# Reports

A report shows the counters and a summary for every entity.  Summaries stand in
descending order of the rows that a filter call loads on average, then of the rows
loaded, and then in ascending order of the paths.  An average is no NaN, since without
calls it is zero, so this is a total order and the summaries have one order.

Main results:

- Definition `report`: the report of counters.
-/

namespace EntityQuery.Metrics

/-- What is reported of an entity. -/
structure Summary where
  path : String
  filterCalls : Count
  countCalls : Count
  deleteCalls : Count
  rowsLoaded : Count
  rowsDeleted : Count
  averageRows : Binary64
  compileFailures : Count
  typeMismatches : Count
deriving DecidableEq, Repr

/-- Rows per call, rounded; zero without calls. -/
def average (rows calls : Count) : Binary64 :=
  if calls = 0 then .zero else (Binary64.ofInt rows.toNat).div (.ofInt calls.toNat)

/-- The summary of an entry. -/
def Summary.ofEntry (path : String) (t : EntityTotals) : Summary :=
  { path
    filterCalls := t.filterCalls
    countCalls := t.countCalls
    deleteCalls := t.deleteCalls
    rowsLoaded := t.rowsLoaded
    rowsDeleted := t.rowsDeleted
    averageRows := average t.rowsLoaded t.filterCalls
    compileFailures := t.compileFailures
    typeMismatches := t.typeMismatches }

/-- The order of summaries. -/
def Summary.compare (a b : Summary) : Ordering :=
  ((b.averageRows.compare? a.averageRows).getD .eq).then
    ((Ord.compare b.rowsLoaded.toNat a.rowsLoaded.toNat).then (compareText a.path b.path))

/-- Counters with the time of their last reset, and summaries; nothing when the report is
asked for a time after the reset. -/
structure Report where
  counters : Option Counters := none
  since : Option Nat := none
  summaries : List Summary := []
deriving DecidableEq, Repr

/-- The report of counters that were reset at a time, from a time on. -/
def report (c : Counters) (since : Nat) (start : Option Nat) : Report :=
  if start.any (since < ·) then {}
  else
    { counters := some c
      since := some since
      summaries := stableSort (fun a b => a.compare b == .lt)
        (c.entities.map fun (path, t) => Summary.ofEntry path t) }

end EntityQuery.Metrics
