import EntityQuery.Proofs.Metrics.Tallies
import EntityQuery.Proofs.Table.Keys
import EntityQuery.Service.Session

/-!
# What the counters account for

A call reports events that balance: it starts as many searches and counts as it makes
plans, finds at most one mismatch for each, and reports as deleted the rows that it takes
out of a table.  So the counters balance after every call, whatever the calls are and
however they end.

Main results:

- Definition `Metrics.Counters.Balanced`: what balanced counters account for.
- Definition `Accounted`: the events that balance.
- Theorem `Accounted.balanced`: they lead to balanced counters.
- Theorem `Session.Accounts.perform`: a call keeps the accounts.
- Theorem `Session.counters_balance`: the counters after any calls since a reset.
-/

namespace EntityQuery

open Metrics

/-! ## Counters that balance -/

/-- Each counter that entities have is the sum over the entities, searches and counts have
plans and mismatches are found in them, and this many rows are deleted. -/
structure Metrics.Counters.Balanced (c : Counters) (deleted : Nat) : Prop where
  sums : ∀ counter, counter.ofEntities = true →
    (c.totals.get counter).toNat =
      (c.entities.map fun entry => (entry.2.get counter).toNat).sum
  plans : c.totals.planFiltered.toNat + c.totals.planFullScan.toNat =
    c.totals.filterCalls.toNat + c.totals.countCalls.toNat
  mismatches : c.totals.typeMismatches.toNat ≤
    c.totals.filterCalls.toNat + c.totals.countCalls.toNat
  deleted : c.totals.rowsDeleted.toNat = deleted

/-! ## Events that balance -/

/-- Searches and counts have plans, and mismatches are found in them; this many rows are
deleted. -/
structure Accounted (es : List Event) (deleted : Nat) : Prop where
  plans : tally es (.plans .filtered) + tally es (.plans .fullScan) =
    tally es (.calls .filter) + tally es (.calls .count)
  mismatches : tally es .typeMismatches ≤ tally es (.calls .filter) + tally es (.calls .count)
  deleted : tally es .rowsDeleted = deleted

namespace Accounted

variable {es es' : List Event} {m n : Nat}

theorem nil : Accounted [] 0 :=
  ⟨rfl, Nat.le_refl _, rfl⟩

/-- Events that balance balance with others behind them. -/
theorem append (h : Accounted es m) (h' : Accounted es' n) : Accounted (es ++ es') (m + n) where
  plans := by
    have := h.plans
    have := h'.plans
    simp only [tally_append]
    omega
  mismatches := by
    have := h.mismatches
    have := h'.mismatches
    simp only [tally_append]
    omega
  deleted := by rw [tally_append, h.deleted, h'.deleted]

/-- Going on with a result goes on with its events. -/
theorem andThen {α β ε : Type} {t : Traced (Except ε α)} {f : α → Traced (Except ε β)}
    (h : Accounted t.events 0) (hf : ∀ a, Accounted (f a).events 0) :
    Accounted (t.andThen f).events 0 := by
  unfold Traced.andThen
  cases t.result with
  | error e => exact h
  | ok a => exact h.append (hf a)

/-- Counters that tally events that balance, and are not full, balance. -/
theorem balanced (h : Accounted es n)
    (hfull : ∀ counter,
      ((Counters.recordAll {} es).totals.get counter).toNat < 0xFFFFFFFFFFFFFFFF) :
    (Counters.recordAll {} es).Balanced n := by
  have htally : ∀ counter,
      ((Counters.recordAll {} es).totals.get counter).toNat = tally es counter :=
    fun counter => Counters.toNat_get_of_not_full (hfull counter)
  refine ⟨?sums, ?plans, ?mismatches, ?deleted⟩
  case sums =>
    intro counter hcounter
    exact (Counters.sumOf_of_not_full hcounter (hfull counter)).symm
  case plans =>
    have hplans := h.plans
    simp only [← htally] at hplans
    exact hplans
  case mismatches =>
    have hmismatches := h.mismatches
    simp only [← htally] at hmismatches
    exact hmismatches
  case deleted =>
    have hdeleted := h.deleted
    rw [← htally] at hdeleted
    exact hdeleted

end Accounted

/-! ## Calls of a service -/

namespace Service

variable {E K : Type} {schema : Schema E} {s : Service E K}

theorem accounted_validated (r : Request) : Accounted (validated r).events 0 :=
  .nil

/-- A refused criterion is no search. -/
theorem accounted_compiled {α : Type} (result : Except CriterionError α) :
    Accounted (s.compiled schema result).events 0 := by
  cases result with
  | error e => exact ⟨rfl, Nat.zero_le _, rfl⟩
  | ok a => exact .nil

/-- A search or a count has one plan and at most one mismatch, however it ends. -/
theorem accounted_traced {α : Type} {operation : Operation}
    (hoperation : operation = .filter ∨ operation = .count) (spec : Specification E)
    (rows : α → Nat) (result : Except SelectionError α) :
    Accounted (s.traced schema operation spec rows result).events 0 := by
  unfold traced
  generalize planOf spec = plan
  cases result with
  | ok a => rcases hoperation with rfl | rfl <;> cases plan <;> exact ⟨rfl, Nat.zero_le _, rfl⟩
  | error e =>
      cases e with
      | kind m =>
          rcases hoperation with rfl | rfl <;> cases plan <;> exact ⟨rfl, Nat.le_refl _, rfl⟩
      | sort fault =>
          rcases hoperation with rfl | rfl <;> cases plan <;> exact ⟨rfl, Nat.zero_le _, rfl⟩

theorem accounted_findPage (spec : Specification E) (page : PageRequest) :
    Accounted (s.findPage schema spec page).events 0 :=
  accounted_traced (Or.inl rfl) spec _ _

theorem accounted_countSpecification (spec : Option (Specification E)) :
    Accounted (s.countSpecification schema spec).events 0 :=
  accounted_traced (Or.inr rfl) _ _ _

theorem accounted_specification (r : Request) :
    Accounted (s.specification schema r).events 0 :=
  (accounted_validated r).andThen fun _ => accounted_compiled _

theorem accounted_mergedSpecification (search default : Request) (operator : GroupOperator) :
    Accounted (s.mergedSpecification schema search default operator).events 0 :=
  (accounted_validated search).andThen fun _ => (accounted_validated default).andThen fun _ =>
    (accounted_compiled _).andThen fun _ => .nil

theorem accounted_filter (r : Request) : Accounted (s.filter schema r).events 0 :=
  (accounted_specification r).andThen fun spec => accounted_findPage spec _

theorem accounted_filterAs {α : Type} (view : Row → α) (r : Request) :
    Accounted (s.filterAs schema view r).events 0 :=
  (accounted_filter r).andThen fun _ => .nil

theorem accounted_filterWith (spec : Specification E) (r : Request) :
    Accounted (s.filterWith schema spec r).events 0 :=
  (accounted_validated r).andThen fun _ => accounted_findPage spec _

theorem accounted_filterMerged (search default : Request) (operator : GroupOperator) :
    Accounted (s.filterMerged schema search default operator).events 0 :=
  (accounted_mergedSpecification search default operator).andThen fun _ => accounted_findPage _ _

theorem accounted_count (r : Request) : Accounted (s.count schema r).events 0 :=
  (accounted_specification r).andThen fun spec => accounted_countSpecification (some spec)

theorem accounted_countMerged (search default : Request) (operator : GroupOperator) :
    Accounted (s.countMerged schema search default operator).events 0 :=
  (accounted_mergedSpecification search default operator).andThen fun _ =>
    accounted_countSpecification _

section Keyed

variable [DecidableEq K]

theorem accounted_create (row : Row) : Accounted (s.create schema row).events 0 :=
  ⟨rfl, Nat.le_refl _, rfl⟩

theorem accounted_createAll (rows : List Row) : Accounted (s.createAll schema rows).events 0 :=
  ⟨rfl, Nat.le_refl _, rfl⟩

/-- A deletion reports the rows that it takes out of the table. -/
theorem accounted_delete (key : K) : Accounted (s.delete schema key).events
    (s.table.size - (s.delete schema key).result.table.size) := by
  have hsize := s.table.size_delete_add key
  refine ⟨rfl, Nat.le_refl _, ?_⟩
  simp only [delete, tally_cons, tally_nil, Event.adds]
  omega

end Keyed

end Service

/-! ## Sessions -/

variable {E K : Type}

namespace Session

/-- The counters are those of events that balance, with this many deleted rows. -/
def Accounts (s : Session E K) (deleted : Nat) : Prop :=
  s.recorder.active = none ∧
    ∃ es, s.recorder.counters = Counters.recordAll {} es ∧ Accounted es deleted

variable {schema : Schema E} {s s' : Session E K} {m n : Nat}

/-- More events that balance keep the accounts. -/
theorem Accounts.recordAll (h : s.Accounts n) {es : List Event} (hes : Accounted es m)
    (hrecorder : s'.recorder = s.recorder.recordAll es) : s'.Accounts (n + m) := by
  obtain ⟨hactive, before, hcounters, hbefore⟩ := h
  refine ⟨?_, before ++ es, ?_, hbefore.append hes⟩
  · rw [hrecorder, Recorder.active_recordAll, hactive]
  · rw [hrecorder, Recorder.counters_recordAll hactive, hcounters, Counters.recordAll,
      Counters.recordAll, Counters.recordAll, List.foldl_append]

variable [DecidableEq E] [DecidableEq K]

/-- How many rows have been deleted since the last reset, when a call is made after this
many: the rows by which a deletion shortens its table are added, and a reset forgets all. -/
def deletedAfter (schema : Schema E) (s : Session E K) (n : Nat) : Call E K → Nat
  | .delete e key =>
    n + ((s.service e).table.size -
      ((s.perform schema (.delete e key)).2.service e).table.size)
  | .reset => 0
  | _ => n

/-- How many rows calls have deleted since the last reset. -/
def deletedSince (schema : Schema E) (s : Session E K) (n : Nat) : List (Call E K) → Nat
  | [] => n
  | c :: calls =>
    deletedSince schema (s.perform schema c).2 (s.deletedAfter schema n c) calls

/-- A call keeps the accounts, whatever its outcome. -/
theorem Accounts.perform (h : s.Accounts n) (c : Call E K) :
    (s.perform schema c).2.Accounts (s.deletedAfter schema n c) := by
  cases c with
  | create e row => exact h.recordAll (Service.accounted_create row) rfl
  | createAll e rows => exact h.recordAll (Service.accounted_createAll rows) rfl
  | delete e key =>
      have hservice : (s.perform schema (.delete e key)).2.service e =
          ((s.service e).delete schema key).result := by
        simp [Session.perform, update]
      rw [deletedAfter, hservice]
      exact h.recordAll (Service.accounted_delete key) rfl
  | filter e r => exact h.recordAll (Service.accounted_filter r) rfl
  | filterAs e view r => exact h.recordAll (Service.accounted_filterAs view r) rfl
  | filterWith e spec r => exact h.recordAll (Service.accounted_filterWith spec r) rfl
  | filterMerged e search default operator =>
      exact h.recordAll (Service.accounted_filterMerged search default operator) rfl
  | count e r => exact h.recordAll (Service.accounted_count r) rfl
  | countSpecification e spec =>
      exact h.recordAll (Service.accounted_countSpecification spec) rfl
  | countMerged e search default operator =>
      exact h.recordAll (Service.accounted_countMerged search default operator) rfl
  | explain e r => exact h.recordAll (Service.accounted_specification r) rfl
  | explainMerged e search default operator =>
      exact h.recordAll (Service.accounted_mergedSpecification search default operator) rfl
  | reset => exact ⟨h.1, [], rfl, .nil⟩
  | get e key => exact h
  | getMany e keys => exact h
  | getAll e => exact h
  | contains e key => exact h
  | size e => exact h
  | tablePage e spec page => exact h
  | tableCount e spec => exact h
  | report start => exact h

/-- Calls keep the accounts, one after another. -/
theorem Accounts.run (h : s.Accounts n) (calls : List (Call E K)) :
    ((Script.ofCalls calls).run schema s).2.Accounts (s.deletedSince schema n calls) := by
  induction calls generalizing s n with
  | nil => exact h
  | cons c calls ih => exact ih (h.perform c)

/-- A reset of the counters opens the accounts. -/
theorem accounts_reset (schema : Schema E) (hactive : s.recorder.active = none) :
    (s.perform schema .reset).2.Accounts 0 :=
  ⟨hactive, [], rfl, .nil⟩

/-- From a reset on, whatever the calls are, to whatever entities, and however they end, as
long as no counter is full: each counter that entities have is the sum over the entities,
each search and each count has one plan and at most one mismatch, and as many rows are
counted as deleted as deletions have taken out of their tables.  A search whose rows are
shown in another form is one of the searches. -/
theorem counters_balance (schema : Schema E) (s : Session E K) (hactive : s.recorder.active = none)
    (calls : List (Call E K))
    (hfull : ∀ counter, ((((Script.ofCalls calls).run schema
      (s.perform schema .reset).2).2.recorder.counters.totals.get counter).toNat <
        0xFFFFFFFFFFFFFFFF)) :
    ((Script.ofCalls calls).run schema (s.perform schema .reset).2).2.recorder.counters.Balanced
      ((s.perform schema .reset).2.deletedSince schema 0 calls) := by
  obtain ⟨-, es, hcounters, hbalance⟩ := (accounts_reset schema hactive).run calls
  rw [hcounters] at hfull ⊢
  exact hbalance.balanced hfull

/-- Books and authors are saved, one of two deletions finds a book, and three requests end
in a mismatch, in a criterion that is refused, and with the rows. -/
theorem counters_balance_books :
    let book : Entity Bool := ⟨"book", "Book", "id", [⟨"year", .int⟩], []⟩
    let author : Entity Bool := ⟨"author", "Author", "id", [], [⟨"books", true, .many⟩]⟩
    let schema : Schema Bool := ⟨fun isBook => if isBook then book else author⟩
    let row (id : Int64) : Row := .mk [("id", .int id)] []
    let ask (c : Criterion) : Request := { page := 0, criteria := [c] }
    let calls : List (Call Bool) := [.createAll true [row 1, row 2], .create false (row 1),
      .delete true 1, .delete true 7, .filter true (ask ⟨"year", .equals, [.text "Emma"]⟩),
      .count false (ask ⟨"year", .isNull, []⟩), .count true (ask ⟨"year", .isNull, []⟩)]
    let start := ((Session.new schema {} 0).perform schema .reset).2
    let c := ((Script.ofCalls calls).run schema start).2.recorder.counters
    c.Balanced (start.deletedSince schema 0 calls) ∧ start.deletedSince schema 0 calls = 1 ∧
    c.totals.typeMismatches = 1 ∧ c.totals.compileFailures = 1 := by
  intro book author schema row ask calls start c
  have hbalanced : c.Balanced (start.deletedSince schema 0 calls) :=
    counters_balance schema (.new schema {} 0) rfl calls (by
      rintro ((_ | _ | _ | _) | _ | _ | _ | _ | _ | (_ | _)) <;> decide +kernel)
  exact ⟨hbalanced, by decide +kernel⟩

end Session

end EntityQuery
