import EntityQuery.Metrics.Recorder
import EntityQuery.Metrics.Report
import EntityQuery.Proofs.Metrics.Tallies

/-!
# Events in another order

Two events can be recorded in either order: they add to counters that stop at the largest
count, and the entries that they make are put in their places whichever comes first.  So
counters depend on which events were recorded and how often, but not on when.

Main results:

- Theorems `Totals.eq_of_get` and `EntityTotals.eq_of_get`: counters are known one by one.
- Theorem `Entries.updateEntry_comm`: changes of two entries can be made in either order.
- Theorem `Counters.record_record`: so can two events be recorded.
- Theorem `Recorder.counts_any_order`: any order of events leads to the same report.
-/

namespace EntityQuery.Metrics

/-! ## Groups of counters -/

/-- Groups of counters with the same counters are the same. -/
theorem Totals.eq_of_get {t t' : Totals} (h : ∀ counter, t.get counter = t'.get counter) :
    t = t' := by
  have hcalls := fun operation => h (.calls operation)
  have hplans := fun kind => h (.plans kind)
  cases t
  cases t'
  simp only [mk.injEq]
  exact ⟨hcalls .filter, hcalls .count, hcalls .save, hcalls .delete, hplans .filtered,
    hplans .fullScan, h .rowsLoaded, h .rowsCounted, h .rowsDeleted, h .compileFailures,
    h .typeMismatches⟩

/-- The same holds for the counters that entities have. -/
theorem EntityTotals.eq_of_get {t t' : EntityTotals}
    (h : ∀ counter : Counter, counter.ofEntities = true → t.get counter = t'.get counter) :
    t = t' := by
  have hcalls := fun operation => h (.calls operation) rfl
  cases t
  cases t'
  simp only [mk.injEq]
  exact ⟨hcalls .filter, hcalls .count, hcalls .save, hcalls .delete, h .rowsLoaded rfl,
    h .rowsCounted rfl, h .rowsDeleted rfl, h .compileFailures rfl, h .typeMismatches rfl⟩

/-- Two events add to the counters of all entities in either order. -/
theorem Totals.record_record (t : Totals) (e e' : Event) :
    (t.record e).record e' = (t.record e').record e := by
  apply eq_of_get
  intro counter
  rw [get_record, get_record, get_record, get_record]
  exact add_comm_right _ _ _

/-- Two events add to the counters of an entity in either order. -/
theorem EntityTotals.record_record (t : EntityTotals) (e e' : Event) :
    (t.record e).record e' = (t.record e').record e := by
  apply eq_of_get
  intro counter hcounter
  rw [get_record _ _ hcounter, get_record _ _ hcounter, get_record _ _ hcounter,
    get_record _ _ hcounter]
  exact add_comm_right _ _ _

/-! ## Entries -/

namespace Entries

variable {entries : Entries} {p q : String} {f g : EntityTotals → EntityTotals}

/-- Two changes of one entry are a single change, also of an entry that has to be made. -/
theorem updateEntry_updateEntry_self :
    updateEntry p f (updateEntry p g entries) = updateEntry p (fun t => f (g t)) entries := by
  induction entries with
  | nil => simp [updateEntry]
  | cons entry entries ih =>
      obtain ⟨x, t⟩ := entry
      simp only [updateEntry]
      split
      · next heq => simp [updateEntry, heq]
      · next hne =>
        split
        · simp [updateEntry]
        · next hnot => simp [updateEntry, hne, hnot, ih]

theorem updateEntry_comm_of_lt (h : p < q) :
    updateEntry p f (updateEntry q g entries) = updateEntry q g (updateEntry p f entries) := by
  have hne : p ≠ q := String.ne_of_lt h
  have hnot : ¬ q < p := String.lt_asymm h
  induction entries with
  | nil => simp [updateEntry, h, hne, hne.symm, hnot]
  | cons entry entries ih =>
      obtain ⟨x, t⟩ := entry
      -- The entry of the smaller path stands first, so its place decides.
      rcases Std.lt_trichotomy (a := p) (b := x) with hbefore | rfl | hbehind
      · have hpx : x ≠ p := (String.ne_of_lt hbefore).symm
        by_cases hqx : x = q
        · subst hqx
          simp [updateEntry, h, hpx, hpx.symm, hnot]
        · by_cases hlt : q < x
          · simp [updateEntry, h, hne, hne.symm, hnot, hbefore, hpx, hqx, hlt]
          · simp [updateEntry, hne, hnot, hbefore, hpx, hqx, hlt]
      · simp [updateEntry, hne, hnot]
      · have hlt : x < q := String.lt_trans hbehind h
        have hpx : x ≠ p := String.ne_of_lt hbehind
        have hqx : x ≠ q := String.ne_of_lt hlt
        simp [updateEntry, hpx, hqx, String.lt_asymm hbehind, String.lt_asymm hlt, ih]

/-- Changes of the entries of two paths can be made in either order. -/
theorem updateEntry_comm (h : p ≠ q) :
    updateEntry p f (updateEntry q g entries) = updateEntry q g (updateEntry p f entries) := by
  rcases Std.lt_trichotomy (a := p) (b := q) with hlt | heq | hgt
  · exact updateEntry_comm_of_lt hlt
  · exact absurd heq h
  · exact (updateEntry_comm_of_lt hgt).symm

end Entries

/-! ## Recording -/

namespace Counters

/-- Two events can be recorded in either order. -/
theorem record_record (c : Counters) (e e' : Event) :
    (c.record e).record e' = (c.record e').record e := by
  have hentities : ((c.record e).record e').entities = ((c.record e').record e).entities := by
    simp only [record]
    cases he : e.path? with
    | none => rfl
    | some p =>
        cases he' : e'.path? with
        | none => rfl
        | some q =>
            by_cases hpq : p = q
            · subst hpq
              simp only [Entries.updateEntry_updateEntry_self]
              congr 1
              funext t
              exact t.record_record e e'
            · exact Entries.updateEntry_comm (Ne.symm hpq)
  calc
    (c.record e).record e' =
        ⟨(c.totals.record e).record e', ((c.record e).record e').entities⟩ := rfl
    _ = ⟨(c.totals.record e').record e, ((c.record e').record e).entities⟩ := by
      rw [c.totals.record_record e e', hentities]
    _ = (c.record e').record e := rfl

/-- Events lead to the same counters in any order. -/
theorem recordAll_of_perm {es es' : List Event} (h : es.Perm es') (c : Counters) :
    c.recordAll es = c.recordAll es' :=
  h.foldl_eq' (fun e _ e' _ c => c.record_record e e') c

end Counters

/-- Without an active sink, events lead in any order to the same counters of all entities,
to entries for the same entities with the same counters, and to the same report. -/
theorem Recorder.counts_any_order {r : Recorder} (hactive : r.active = none)
    {es es' : List Event} (h : es.Perm es') :
    (r.recordAll es).counters.totals = (r.recordAll es').counters.totals ∧
      (r.recordAll es).counters.entities.map (·.1) =
        (r.recordAll es').counters.entities.map (·.1) ∧
      (∀ path, (r.recordAll es).counters.entity? path =
        (r.recordAll es').counters.entity? path) ∧
      ∀ (since : Nat) (start : Option Nat),
        report (r.recordAll es).counters since start =
          report (r.recordAll es').counters since start := by
  have hcounters : (r.recordAll es).counters = (r.recordAll es').counters := by
    rw [counters_recordAll hactive, counters_recordAll hactive]
    exact Counters.recordAll_of_perm h r.counters
  rw [hcounters]
  exact ⟨rfl, rfl, fun _ => rfl, fun _ _ => rfl⟩

/-- Two shelves are counted in either order while the count of loaded rows fills up. -/
theorem Recorder.counts_any_order_shelves :
    let es : List Event := [.started .filter "shelf", .finished .filter "shelf" 5,
      .started .filter "book", .finished .filter "book" 0xFFFFFFFFFFFFFFFF]
    (({} : Recorder).recordAll es).counters.totals.rowsLoaded = 0xFFFFFFFFFFFFFFFF ∧
      (({} : Recorder).recordAll es).counters.entities.map (·.1) = ["book", "shelf"] ∧
      report (({} : Recorder).recordAll es).counters 3 none =
        report (({} : Recorder).recordAll es.reverse).counters 3 none := by
  intro es
  exact ⟨by decide, by decide,
    (counts_any_order rfl es.reverse_perm.symm).2.2.2 3 none⟩

end EntityQuery.Metrics
