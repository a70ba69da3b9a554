import EntityQuery.Metrics.Event

/-!
# Counters

Events are counted for all entities together and for each entity by its path.  A counter
that is full stays full.  An entity has an entry from its first event on, and entries are
kept in the order of their paths.

Main results:

- Theorem `toNat_add`: adding stops at the largest count.
- Theorem `add_comm_right`: the order of additions does not matter.
- Definition `Counters.record`: what an event adds.
-/

namespace EntityQuery.Metrics

/-! ## Counts -/

/-- A count of 64 bits. -/
abbrev Count := UInt64

/-- Add to a count, up to the largest one. -/
def add (c : Count) (n : Nat) : Count :=
  UInt64.ofNat (min (c.toNat + n) (0xFFFFFFFFFFFFFFFF))

/-- Adding stops at the largest count. -/
@[simp] theorem toNat_add (c : Count) (n : Nat) :
    (add c n).toNat = min (c.toNat + n) (0xFFFFFFFFFFFFFFFF) := by
  simp only [add, UInt64.toNat_ofNat']
  omega

/-- The order of additions does not matter. -/
theorem add_comm_right (c : Count) (m n : Nat) : add (add c m) n = add (add c n) m := by
  apply UInt64.toNat_inj.1
  simp only [toNat_add]
  omega

/-! ## Groups of counters -/

/-- The counters of all entities together. -/
structure Totals where
  filterCalls : Count := 0
  countCalls : Count := 0
  saveCalls : Count := 0
  deleteCalls : Count := 0
  planFiltered : Count := 0
  planFullScan : Count := 0
  rowsLoaded : Count := 0
  rowsCounted : Count := 0
  rowsDeleted : Count := 0
  compileFailures : Count := 0
  typeMismatches : Count := 0
deriving DecidableEq, Repr

/-- The counters of one entity. -/
structure EntityTotals where
  filterCalls : Count := 0
  countCalls : Count := 0
  saveCalls : Count := 0
  deleteCalls : Count := 0
  rowsLoaded : Count := 0
  rowsCounted : Count := 0
  rowsDeleted : Count := 0
  compileFailures : Count := 0
  typeMismatches : Count := 0
deriving DecidableEq, Repr

/-- What an event adds to the counters of all entities. -/
def Totals.record (t : Totals) : Event → Totals
  | .started .filter _ => { t with filterCalls := add t.filterCalls 1 }
  | .started .count _ => { t with countCalls := add t.countCalls 1 }
  | .started .save _ => { t with saveCalls := add t.saveCalls 1 }
  | .started .delete _ => { t with deleteCalls := add t.deleteCalls 1 }
  | .finished .filter _ rows => { t with rowsLoaded := add t.rowsLoaded rows }
  | .finished .count _ rows => { t with rowsCounted := add t.rowsCounted rows }
  | .finished .save _ _ => t
  | .finished .delete _ rows => { t with rowsDeleted := add t.rowsDeleted rows }
  | .compileFailed _ => { t with compileFailures := add t.compileFailures 1 }
  | .typeMismatch _ => { t with typeMismatches := add t.typeMismatches 1 }
  | .planned .filtered => { t with planFiltered := add t.planFiltered 1 }
  | .planned .fullScan => { t with planFullScan := add t.planFullScan 1 }

/-- What an event about an entity adds to its counters. -/
def EntityTotals.record (t : EntityTotals) : Event → EntityTotals
  | .started .filter _ => { t with filterCalls := add t.filterCalls 1 }
  | .started .count _ => { t with countCalls := add t.countCalls 1 }
  | .started .save _ => { t with saveCalls := add t.saveCalls 1 }
  | .started .delete _ => { t with deleteCalls := add t.deleteCalls 1 }
  | .finished .filter _ rows => { t with rowsLoaded := add t.rowsLoaded rows }
  | .finished .count _ rows => { t with rowsCounted := add t.rowsCounted rows }
  | .finished .save _ _ => t
  | .finished .delete _ rows => { t with rowsDeleted := add t.rowsDeleted rows }
  | .compileFailed _ => { t with compileFailures := add t.compileFailures 1 }
  | .typeMismatch _ => { t with typeMismatches := add t.typeMismatches 1 }
  | .planned _ => t

/-! ## Entries -/

/-- The counters of the entities by path, in ascending order of the paths. -/
abbrev Entries := List (String × EntityTotals)

/-- Change the entry of a path, which is made if it is not there. -/
def updateEntry (path : String) (f : EntityTotals → EntityTotals) : Entries → Entries
  | [] => [(path, f {})]
  | (p, t) :: entries =>
    if p = path then (p, f t) :: entries
    else if path < p then (path, f {}) :: (p, t) :: entries
    else (p, t) :: updateEntry path f entries

/-- All counters. -/
structure Counters where
  totals : Totals := {}
  entities : Entries := []
deriving DecidableEq, Repr

namespace Counters

/-- Count an event. -/
def record (c : Counters) (e : Event) : Counters :=
  { totals := c.totals.record e
    entities :=
      match e.path? with
      | none => c.entities
      | some path => updateEntry path (·.record e) c.entities }

/-- Count events one after another. -/
def recordAll (c : Counters) (es : List Event) : Counters :=
  es.foldl record c

/-- The counters of an entity, if it has an entry. -/
def entity? (c : Counters) (path : String) : Option EntityTotals :=
  c.entities.lookup path

end Counters

end EntityQuery.Metrics
