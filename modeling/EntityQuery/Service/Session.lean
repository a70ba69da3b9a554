import EntityQuery.Metrics.Recorder
import EntityQuery.Metrics.Report
import EntityQuery.Service.Basic

/-!
# Sessions

A session has a service for every entity of a schema and records the events of their
calls.  A script is a sequence of calls with scopes of sinks around parts of it, while time
passes on a clock that may be set back.

Main results:

- Definition `Session.perform`: what a call answers and how it changes the session.
- Definition `Script.run`: the answers of a script.
- Theorem `active_perform`: a call does not change the active sink.
-/

namespace EntityQuery

open Metrics

/-! ## Calls and replies -/

/-- A call of the service of an entity, or of the counters.  The keys of rows are integers
unless another type is given. -/
inductive Call (E : Type) (K : Type := Int64) where
  | create (entity : E) (row : Row)
  | createAll (entity : E) (rows : List Row)
  | get (entity : E) (key : K)
  | getMany (entity : E) (keys : List K)
  | getAll (entity : E)
  | delete (entity : E) (key : K)
  | contains (entity : E) (key : K)
  | size (entity : E)
  | filter (entity : E) (request : Request)
  | filterAs (entity : E) (view : Row → Row) (request : Request)
  | filterWith (entity : E) (spec : Specification E) (request : Request)
  | filterMerged (entity : E) (search default : Request) (operator : GroupOperator)
  | count (entity : E) (request : Request)
  | countSpecification (entity : E) (spec : Option (Specification E))
  | countMerged (entity : E) (search default : Request) (operator : GroupOperator)
  | explain (entity : E) (request : Request)
  | explainMerged (entity : E) (search default : Request) (operator : GroupOperator)
  | tablePage (entity : E) (spec : Specification E) (page : PageRequest)
  | tableCount (entity : E) (spec : Specification E)
  | report (start : Option Nat)
  | reset

/-- What a call answers. -/
inductive Reply (E : Type) where
  | done
  | row (row : Row)
  | found (row : Option Row)
  | rows (rows : List Row)
  | flag (value : Bool)
  | size (size : Nat)
  | page (result : Except Failure (Page Row))
  | count (result : Except Failure Nat)
  | plan (result : Except Failure (Specification E × PageRequest))
  | mergedPlan (result : Except Failure (Specification E × PageRequest × MergeSide))
  | tablePage (result : Except SelectionError (Page Row))
  | tableCount (result : Except SelectionError Nat)
  | report (report : Report)

/-! ## Sessions -/

/-- The services, the recorder of their events, the time at which counting began, and the
time that the clock shows, in milliseconds. -/
structure Session (E K : Type) where
  service : E → Service E K
  recorder : Recorder
  since : Nat
  now : Nat

namespace Session

variable {E K : Type}

/-- A session without rows and counts, in which the rows of entities have these keys. -/
def keyed (keyOf : E → Row → K) (config : Config) (now : Nat) : Session E K :=
  ⟨fun e => .new (keyOf e) e config, {}, now, now⟩

/-- A session in which the key of a row is the integer in the key column of its entity. -/
def new (schema : Schema E) (config : Config) (now : Nat) : Session E Int64 :=
  keyed (fun e r => r.key (schema.entity e).primaryKey) config now

/-- The clock shows another time. -/
def setClock (s : Session E K) (now : Nat) : Session E K :=
  { s with now }

variable [DecidableEq E] [DecidableEq K]

/-- Put rows into the service of an entity without reporting it. -/
def load (s : Session E K) (entity : E) (rows : List Row) : Session E K :=
  { s with service := fun e =>
      if e = entity then { s.service e with table := (s.service e).table.saveAll rows }
      else s.service e }

/-- Answer with a result and record its events. -/
def answer {α : Type} (s : Session E K) (t : Traced α) (reply : α → Reply E) :
    Reply E × Session E K :=
  (reply t.result, { s with recorder := s.recorder.recordAll t.events })

/-- Replace the service of an entity and record the events. -/
def update (s : Session E K) (entity : E) (t : Traced (Service E K)) (reply : Reply E) :
    Reply E × Session E K :=
  (reply, { s with
    service := fun e => if e = entity then t.result else s.service e
    recorder := s.recorder.recordAll t.events })

/-- What a call answers, and the session after it. -/
def perform (schema : Schema E) (s : Session E K) : Call E K → Reply E × Session E K
  | .create e row => s.update e ((s.service e).create schema row) (.row row)
  | .createAll e rows => s.update e ((s.service e).createAll schema rows) (.rows rows)
  | .get e key => (.found ((s.service e).table.find? key), s)
  | .getMany e keys => (.rows ((s.service e).table.findAll keys), s)
  | .getAll e => (.rows (s.service e).table.rows, s)
  | .delete e key => s.update e ((s.service e).delete schema key) .done
  | .contains e key => (.flag ((s.service e).table.contains key), s)
  | .size e => (.size (s.service e).table.size, s)
  | .filter e request => s.answer ((s.service e).filter schema request) .page
  | .filterAs e view request => s.answer ((s.service e).filterAs schema view request) .page
  | .filterWith e spec request => s.answer ((s.service e).filterWith schema spec request) .page
  | .filterMerged e search default operator =>
    s.answer ((s.service e).filterMerged schema search default operator) .page
  | .count e request => s.answer ((s.service e).count schema request) .count
  | .countSpecification e spec => s.answer ((s.service e).countSpecification schema spec) .count
  | .countMerged e search default operator =>
    s.answer ((s.service e).countMerged schema search default operator) .count
  | .explain e request =>
    s.answer ((s.service e).specification schema request) fun result =>
      .plan (result.map fun spec => (spec, (s.service e).pageRequest request))
  | .explainMerged e search default operator =>
    s.answer ((s.service e).mergedSpecification schema search default operator) fun result =>
      .mergedPlan (result.map fun (spec, side) =>
        (spec, (s.service e).pageRequest (Service.MergeSide.pick search default side), side))
  | .tablePage e spec page => (.tablePage ((s.service e).table.page schema e spec page), s)
  | .tableCount e spec => (.tableCount ((s.service e).table.count spec), s)
  | .report start => (.report (Metrics.report s.recorder.counters s.since start), s)
  | .reset => (.done, { s with recorder := s.recorder.reset, since := s.now })

/-- A call does not change the active sink. -/
@[simp] theorem active_perform (schema : Schema E) (s : Session E K) (c : Call E K) :
    (s.perform schema c).2.recorder.active = s.recorder.active := by
  cases c <;> simp [perform, answer, update, Recorder.reset]

end Session

/-! ## Scripts -/

/-- A sequence of calls, parts of which run in the scope of a sink, and between which the
clock comes to show other times. -/
inductive Script (E : Type) (K : Type := Int64) where
  | done
  | call (call : Call E K) (next : Script E K)
  | tick (now : Nat) (next : Script E K)
  | within (sink : Nat) (body next : Script E K)

namespace Script

variable {E K : Type}

/-- The replies of a script in order, and the session after it. -/
def run [DecidableEq E] [DecidableEq K] (schema : Schema E) :
    Script E K → Session E K → List (Reply E) × Session E K
  | done, s => ([], s)
  | tick now next, s => next.run schema (s.setClock now)
  | call c next, s =>
    let (reply, s') := s.perform schema c
    let (replies, s'') := next.run schema s'
    (reply :: replies, s'')
  | within sink body next, s =>
    let (inner, s') := body.run schema { s with recorder := s.recorder.enter sink }
    let (replies, s'') :=
      next.run schema { s' with recorder := s'.recorder.leave s.recorder.active }
    (inner ++ replies, s'')

/-- A script that goes on with another one. -/
def append : Script E K → Script E K → Script E K
  | done, other => other
  | tick now next, other => tick now (next.append other)
  | call c next, other => call c (next.append other)
  | within sink body next, other => within sink body (next.append other)

/-- The script of a list of calls. -/
def ofCalls (calls : List (Call E K)) : Script E K :=
  calls.foldr call done

end Script

end EntityQuery
