import EntityQuery.Metrics.Counters
import Mathlib.Algebra.GroupWithZero.Nat

/-!
# Counters as tallies

Each counter tallies what events add to it.  As long as no counter is full, the counters
of all entities together are the sums of those of the single entities, since every event
about an entity adds the same to both.

Main results:

- Definition `Event.adds`: what an event adds to a counter.
- Theorem `toNat_get_recordAll`: a counter of all entities is a tally, up to the largest
  count.
- Theorem `sumOf_recordAll`: so is the sum over the entities.
- Theorem `sumOf_of_not_full`: both agree unless the counter is full.
-/

namespace EntityQuery.Metrics

/-! ## Counters by name -/

/-- The counters. -/
inductive Counter where
  | calls (operation : Operation)
  | rowsLoaded
  | rowsCounted
  | rowsDeleted
  | compileFailures
  | typeMismatches
  | plans (kind : PlanKind)
deriving DecidableEq, Repr

/-- Whether entities have the counter; plans are counted for all entities together. -/
def Counter.ofEntities : Counter → Bool
  | plans _ => false
  | _ => true

/-- A counter of all entities together. -/
def Totals.get (t : Totals) : Counter → Count
  | .calls .filter => t.filterCalls
  | .calls .count => t.countCalls
  | .calls .save => t.saveCalls
  | .calls .delete => t.deleteCalls
  | .rowsLoaded => t.rowsLoaded
  | .rowsCounted => t.rowsCounted
  | .rowsDeleted => t.rowsDeleted
  | .compileFailures => t.compileFailures
  | .typeMismatches => t.typeMismatches
  | .plans .filtered => t.planFiltered
  | .plans .fullScan => t.planFullScan

/-- A counter of one entity, zero for plans. -/
def EntityTotals.get (t : EntityTotals) : Counter → Count
  | .calls .filter => t.filterCalls
  | .calls .count => t.countCalls
  | .calls .save => t.saveCalls
  | .calls .delete => t.deleteCalls
  | .rowsLoaded => t.rowsLoaded
  | .rowsCounted => t.rowsCounted
  | .rowsDeleted => t.rowsDeleted
  | .compileFailures => t.compileFailures
  | .typeMismatches => t.typeMismatches
  | .plans _ => 0

/-- What an event adds to a counter. -/
def Event.adds : Event → Counter → Nat
  | started operation _, .calls operation' => if operation = operation' then 1 else 0
  | finished .filter _ rows, .rowsLoaded => rows
  | finished .count _ rows, .rowsCounted => rows
  | finished .delete _ rows, .rowsDeleted => rows
  | compileFailed _, .compileFailures => 1
  | typeMismatch _, .typeMismatches => 1
  | planned kind, .plans kind' => if kind = kind' then 1 else 0
  | _, _ => 0

/-- What events add to a counter. -/
def tally (es : List Event) (counter : Counter) : Nat :=
  (es.map (·.adds counter)).sum

@[simp] theorem tally_nil (counter : Counter) : tally [] counter = 0 := rfl

@[simp] theorem tally_cons (e : Event) (es : List Event) (counter : Counter) :
    tally (e :: es) counter = e.adds counter + tally es counter := by
  simp [tally]

@[simp] theorem tally_append (es es' : List Event) (counter : Counter) :
    tally (es ++ es') counter = tally es counter + tally es' counter := by
  simp [tally]

/-! ## One event -/

@[simp] theorem add_zero (c : Count) : add c 0 = c := by
  apply UInt64.toNat_inj.1
  have := c.toNat_lt
  rw [toNat_add]
  omega

/-- An event adds to a counter of all entities. -/
theorem Totals.get_record (t : Totals) (e : Event) (counter : Counter) :
    (t.record e).get counter = add (t.get counter) (e.adds counter) := by
  rcases e with ⟨_ | _ | _ | _, path⟩ | ⟨_ | _ | _ | _, path, rows⟩ | path | path | _ | _ <;>
    rcases counter with (_ | _ | _ | _) | _ | _ | _ | _ | _ | (_ | _) <;>
    simp [record, get, Event.adds]

/-- An event adds as much to a counter of its entity. -/
theorem EntityTotals.get_record (t : EntityTotals) (e : Event) {counter : Counter}
    (h : counter.ofEntities = true) :
    (t.record e).get counter = add (t.get counter) (e.adds counter) := by
  cases counter with
  | plans kind => cases h
  | calls operation =>
      rcases e with ⟨_ | _ | _ | _, path⟩ | ⟨_ | _ | _ | _, path, rows⟩ | path | path | _ | _ <;>
        cases operation <;>
        simp [record, get, Event.adds]
  | _ =>
      rcases e with ⟨_ | _ | _ | _, path⟩ | ⟨_ | _ | _ | _, path, rows⟩ | path | path | _ | _ <;>
        simp [record, get, Event.adds]

/-- An event about no entity adds nothing to the counters of entities. -/
theorem Event.adds_of_path?_eq_none {e : Event} {counter : Counter} (he : e.path? = none)
    (h : counter.ofEntities = true) : e.adds counter = 0 := by
  cases e with
  | planned kind =>
      cases counter with
      | plans kind' => cases h
      | _ => rfl
  | _ => cases he

/-! ## Sums over the entities -/

/-- The sum of a counter over entries. -/
def Entries.sumOf (entries : Entries) (counter : Counter) : Nat :=
  (entries.map fun entry => (entry.2.get counter).toNat).sum

theorem Entries.sumOf_cons (path : String) (t : EntityTotals) (entries : Entries)
    (counter : Counter) :
    sumOf ((path, t) :: entries) counter = (t.get counter).toNat + sumOf entries counter := by
  simp [sumOf]

@[simp] theorem Totals.get_empty (counter : Counter) : get {} counter = 0 := by
  rcases counter with (_ | _ | _ | _) | _ | _ | _ | _ | _ | (_ | _) <;> rfl

@[simp] theorem EntityTotals.get_empty (counter : Counter) : get {} counter = 0 := by
  rcases counter with (_ | _ | _ | _) | _ | _ | _ | _ | _ | _ <;> rfl

/-- An event adds to the sum over the entities what it adds to the entry of its entity,
unless the sum is full. -/
theorem Entries.sumOf_updateEntry {entries : Entries} {e : Event} {counter : Counter}
    (h : counter.ofEntities = true)
    (hfits : sumOf entries counter + e.adds counter ≤ 0xFFFFFFFFFFFFFFFF) (path : String) :
    sumOf (updateEntry path (·.record e) entries) counter =
      sumOf entries counter + e.adds counter := by
  induction entries with
  | nil =>
      rw [updateEntry, sumOf_cons, EntityTotals.get_record _ _ h, toNat_add,
        EntityTotals.get_empty]
      simp only [sumOf, List.map_nil, List.sum_nil, UInt64.toNat_zero] at hfits ⊢
      omega
  | cons entry entries ih =>
      obtain ⟨p, t⟩ := entry
      rw [sumOf_cons] at hfits ⊢
      rw [updateEntry]
      split
      · rw [sumOf_cons, EntityTotals.get_record _ _ h, toNat_add]
        omega
      · split
        · rw [sumOf_cons, sumOf_cons, EntityTotals.get_record _ _ h, toNat_add,
            EntityTotals.get_empty, UInt64.toNat_zero]
          omega
        · rw [sumOf_cons, ih (by omega)]
          omega

/-! ## Many events -/

namespace Counters

/-- An event adds to the sum over the entities, unless the sum is full. -/
theorem sumOf_record {c : Counters} {e : Event} {counter : Counter}
    (h : counter.ofEntities = true)
    (hfits : c.entities.sumOf counter + e.adds counter ≤ 0xFFFFFFFFFFFFFFFF) :
    (c.record e).entities.sumOf counter = c.entities.sumOf counter + e.adds counter := by
  rw [record]
  cases he : e.path? with
  | none => rw [Event.adds_of_path?_eq_none he h, Nat.add_zero]
  | some path => exact Entries.sumOf_updateEntry h hfits path

/-- A counter of all entities together is a tally of the events, up to the largest count. -/
theorem toNat_get_recordAll (c : Counters) (es : List Event) (counter : Counter) :
    ((c.recordAll es).totals.get counter).toNat =
      min ((c.totals.get counter).toNat + tally es counter) 0xFFFFFFFFFFFFFFFF := by
  induction es generalizing c with
  | nil =>
      have := (c.totals.get counter).toNat_lt
      rw [tally_nil, recordAll, List.foldl_nil]
      omega
  | cons e es ih =>
      have hrecord := Totals.get_record c.totals e counter
      rw [recordAll, List.foldl_cons, ← recordAll, ih, record, hrecord, toNat_add, tally_cons]
      omega

/-- So is the sum over the entities, as long as it is not full. -/
theorem sumOf_recordAll {c : Counters} {es : List Event} {counter : Counter}
    (h : counter.ofEntities = true)
    (hfits : c.entities.sumOf counter + tally es counter ≤ 0xFFFFFFFFFFFFFFFF) :
    (c.recordAll es).entities.sumOf counter = c.entities.sumOf counter + tally es counter := by
  induction es generalizing c with
  | nil => rfl
  | cons e es ih =>
      rw [tally_cons] at hfits ⊢
      have hrecord := sumOf_record (c := c) (e := e) h (by omega)
      rw [recordAll, List.foldl_cons, ← recordAll, ih (by omega), hrecord]
      omega

/-- From empty counters on, a counter that is not full is the tally of the events. -/
theorem toNat_get_of_not_full {es : List Event} {counter : Counter}
    (h : ((recordAll {} es).totals.get counter).toNat < 0xFFFFFFFFFFFFFFFF) :
    ((recordAll {} es).totals.get counter).toNat = tally es counter := by
  have hget := toNat_get_recordAll {} es counter
  rw [Totals.get_empty, UInt64.toNat_zero] at hget
  omega

/-- From empty counters on, a counter that is not full is the sum over the entities. -/
theorem sumOf_of_not_full {es : List Event} {counter : Counter}
    (hcounter : counter.ofEntities = true)
    (h : ((recordAll {} es).totals.get counter).toNat < 0xFFFFFFFFFFFFFFFF) :
    (recordAll {} es).entities.sumOf counter =
      ((recordAll {} es).totals.get counter).toNat := by
  have hempty : ({} : Counters).entities.sumOf counter = 0 := rfl
  have htally := toNat_get_of_not_full h
  have hsum : (recordAll {} es).entities.sumOf counter =
      ({} : Counters).entities.sumOf counter + tally es counter :=
    sumOf_recordAll hcounter (by omega)
  omega

end Counters

end EntityQuery.Metrics
