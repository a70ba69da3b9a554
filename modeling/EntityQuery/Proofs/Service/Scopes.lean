import EntityQuery.Service.Session
import Mathlib.Data.List.Forall2

/-!
# Scopes of sinks

A script is a sequence of calls, parts of which run in scopes that may be nested in any
way.  Every event of a call goes to the sink of the innermost scope around the call, once,
or is counted if there is none.  Apart from that scopes change nothing: not what calls
answer, not what the tables hold, and not what is counted for the calls outside of them.

Main results:

- Definition `Script.scopedCalls`: the calls of a script, each with its innermost sink.
- Definition `Session.deliverAll`: the events of calls, delivered to given sinks.
- Theorem `Script.recorder_run`: a script delivers the events of its calls to their
  innermost sinks.
- Theorem `Script.agrees_unscoped`: without its scopes a script answers the same.
- Theorem `Script.scopes_route_events`: both, and what is counted.
-/

namespace EntityQuery

open Metrics

variable {E K : Type}

/-! ## Scripts without scopes -/

namespace Script

/-- The calls of a script in order, each with the sink of the innermost scope around it, or
the sink that is active around the script. -/
def scopedCalls : Script E K → Option Nat → List (Option Nat × Call E K)
  | done, _ => []
  | call c next, active => (active, c) :: next.scopedCalls active
  | tick _ next, active => next.scopedCalls active
  | within sink body next, active => body.scopedCalls (some sink) ++ next.scopedCalls active

/-- A script with its scopes left out and all calls kept. -/
def unscoped : Script E K → Script E K
  | done => done
  | call c next => call c next.unscoped
  | tick now next => tick now next.unscoped
  | within _ body next => body.unscoped.append next.unscoped

/-- A call inside of a scope has a sink, so one without is made where no sink is active. -/
theorem active_of_mem_scopedCalls {p : Script E K} {active : Option Nat}
    {x : Option Nat × Call E K} (h : x ∈ p.scopedCalls active) (hx : x.1 = none) :
    active = none := by
  induction p generalizing active with
  | done => cases h
  | call c next ih =>
      rcases List.mem_cons.mp h with rfl | h
      · exact hx
      · exact ih h
  | tick now next ih => exact ih h
  | within sink body next ihbody ihnext =>
      rcases List.mem_append.mp h with h | h
      · cases ihbody h
      · exact ihnext h

end Script

/-- The session with another active sink. -/
def Session.activate (s : Session E K) (active : Option Nat) : Session E K :=
  { s with recorder := s.recorder.leave active }

namespace Script

variable [DecidableEq E] [DecidableEq K] {schema : Schema E}

theorem run_call (c : Call E K) (next : Script E K) (s : Session E K) :
    (call c next).run schema s =
      ((s.perform schema c).1 :: (next.run schema (s.perform schema c).2).1,
        (next.run schema (s.perform schema c).2).2) :=
  rfl

/-- The session behind a scope: the sink from before is active again. -/
def afterScope (schema : Schema E) (sink : Nat) (body : Script E K) (s : Session E K) :
    Session E K :=
  (body.run schema (s.activate (some sink))).2.activate s.recorder.active

theorem run_within (sink : Nat) (body next : Script E K) (s : Session E K) :
    (within sink body next).run schema s =
      ((body.run schema (s.activate (some sink))).1 ++
          (next.run schema (afterScope schema sink body s)).1,
        (next.run schema (afterScope schema sink body s)).2) :=
  rfl

/-- A script that goes on with another one runs one after the other. -/
theorem run_append (p q : Script E K) (s : Session E K) :
    (p.append q).run schema s =
      ((p.run schema s).1 ++ (q.run schema (p.run schema s).2).1,
        (q.run schema (p.run schema s).2).2) := by
  induction p generalizing s with
  | done => rfl
  | call c next ih => rw [append, run_call, ih, run_call, List.cons_append]
  | tick now next ih => exact ih (s.setClock now)
  | within sink body next _ ihnext =>
      rw [append, run_within, ihnext, run_within, List.append_assoc]

end Script

/-! ## Delivering events -/

/-- Deliver an event to a sink, or count it. -/
def Metrics.Recorder.deliver (sink? : Option Nat) (r : Recorder) (e : Event) : Recorder :=
  match sink? with
  | none => { r with counters := r.counters.record e }
  | some sink => { r with received := r.received ++ [(sink, e)] }

namespace Metrics.Recorder

variable {r : Recorder} {sink? : Option Nat}

/-- Events are delivered to the active sink. -/
theorem recordAll_eq (r : Recorder) (es : List Event) :
    r.recordAll es = es.foldl (deliver r.active) r := by
  induction es generalizing r with
  | nil => rfl
  | cons e es ih =>
      have hrecord : r.record e = deliver r.active r e := rfl
      have hactive : (deliver r.active r e).active = r.active := hrecord ▸ active_record r e
      rw [recordAll, List.foldl_cons, ← recordAll, List.foldl_cons, hrecord, ih, hactive]

/-- Which sink is active does not matter for deliveries to a given one. -/
theorem foldl_deliver_leave (es : List Event) (active : Option Nat) :
    es.foldl (deliver sink?) (r.leave active) = (es.foldl (deliver sink?) r).leave active := by
  induction es generalizing r with
  | nil => rfl
  | cons e es ih =>
      have hdeliver : deliver sink? (r.leave active) e = (deliver sink? r e).leave active := by
        cases sink? <;> rfl
      rw [List.foldl_cons, hdeliver, ih]
      rfl

/-- What is delivered to a sink is not counted. -/
theorem counters_foldl_deliver_some (sink : Nat) (es : List Event) :
    (es.foldl (deliver (some sink)) r).counters = r.counters := by
  induction es generalizing r with
  | nil => rfl
  | cons e es ih => exact ih

end Metrics.Recorder

/-! ## Calls -/

namespace Session

variable [DecidableEq K]

/-- The events that a call reports. -/
def eventsOf (schema : Schema E) (s : Session E K) : Call E K → List Event
  | .create e row => ((s.service e).create schema row).events
  | .createAll e rows => ((s.service e).createAll schema rows).events
  | .delete e key => ((s.service e).delete schema key).events
  | .filter e request => ((s.service e).filter schema request).events
  | .filterAs e view request => ((s.service e).filterAs schema view request).events
  | .filterWith e spec request => ((s.service e).filterWith schema spec request).events
  | .filterMerged e search default operator =>
    ((s.service e).filterMerged schema search default operator).events
  | .count e request => ((s.service e).count schema request).events
  | .countSpecification e spec => ((s.service e).countSpecification schema spec).events
  | .countMerged e search default operator =>
    ((s.service e).countMerged schema search default operator).events
  | .explain e request => ((s.service e).specification schema request).events
  | .explainMerged e search default operator =>
    ((s.service e).mergedSpecification schema search default operator).events
  | _ => []

/-- What a call does to a recorder, if its events go to a given sink. -/
def deliverCall (schema : Schema E) (s : Session E K) (sink? : Option Nat) (r : Recorder) :
    Call E K → Recorder
  | .reset => r.reset
  | c => (s.eventsOf schema c).foldl (Recorder.deliver sink?) r

section

variable {schema : Schema E} {s s' : Session E K} {r : Recorder}

/-- What a call reports depends on the services only. -/
theorem eventsOf_congr (h : s.service = s'.service) (c : Call E K) :
    s.eventsOf schema c = s'.eventsOf schema c := by
  cases c <;> simp only [eventsOf, h]

theorem deliverCall_congr (h : s.service = s'.service) (sink? : Option Nat) (c : Call E K) :
    s.deliverCall schema sink? r c = s'.deliverCall schema sink? r c := by
  cases c <;> simp only [deliverCall, eventsOf_congr h]

theorem deliverCall_leave (sink? active : Option Nat) (c : Call E K) :
    s.deliverCall schema sink? (r.leave active) c =
      (s.deliverCall schema sink? r c).leave active := by
  cases c <;> first | rfl | exact Recorder.foldl_deliver_leave _ _

/-- What a call without a sink leads to in the counters depends on the counters only. -/
theorem counters_deliverCall_none {r r' : Recorder} (h : r.counters = r'.counters) (c : Call E K) :
    (s.deliverCall schema none r c).counters = (s.deliverCall schema none r' c).counters := by
  have hfold : ∀ es : List Event, (es.foldl (Recorder.deliver none) r).counters =
      (es.foldl (Recorder.deliver none) r').counters := by
    intro es
    induction es generalizing r r' with
    | nil => exact h
    | cons e es ih => exact ih (congrArg (Counters.record · e) h)
  cases c <;> first | rfl | exact hfold _

end

variable [DecidableEq E] {schema : Schema E} {s s' : Session E K} {r : Recorder}

/-- What calls do to a recorder, if the events of each go to a given sink.  The calls are
made from a session on, one after another. -/
def deliverAll (schema : Schema E) :
    List (Option Nat × Call E K) → Session E K → Recorder → Recorder
  | [], _, r => r
  | (sink?, c) :: calls, s, r =>
    deliverAll schema calls (s.perform schema c).2 (s.deliverCall schema sink? r c)

/-- The session after calls of which those with a sink are not instrumented: they report
nothing at all. -/
def runUninstrumented (schema : Schema E) :
    List (Option Nat × Call E K) → Session E K → Session E K
  | [], s => s
  | (none, c) :: calls, s => runUninstrumented schema calls (s.perform schema c).2
  | (some _, c) :: calls, s =>
    runUninstrumented schema calls { (s.perform schema c).2 with
      recorder := match c with
        | .reset => s.recorder.reset
        | _ => s.recorder }

/-- A call delivers its events to the active sink. -/
theorem recorder_perform (schema : Schema E) (s : Session E K) (c : Call E K) :
    (s.perform schema c).2.recorder =
      s.deliverCall schema s.recorder.active s.recorder c := by
  cases c <;> first | rfl | exact Recorder.recordAll_eq _ _

/-- The services after a call depend on those before it only. -/
theorem service_perform_congr (schema : Schema E) (h : s.service = s'.service) (c : Call E K) :
    (s.perform schema c).2.service = (s'.perform schema c).2.service := by
  cases c <;> simp only [perform, update, answer, h]

theorem deliverAll_leave (calls : List (Option Nat × Call E K)) (active : Option Nat) :
    deliverAll schema calls s (r.leave active) = (deliverAll schema calls s r).leave active := by
  induction calls generalizing s r with
  | nil => rfl
  | cons x calls ih => rw [deliverAll, deliverAll, deliverCall_leave, ih]

/-- Deliveries leave the active sink alone. -/
theorem active_deliverAll (calls : List (Option Nat × Call E K)) :
    (deliverAll schema calls s r).active = r.active := by
  have hleave : deliverAll schema calls s r = (deliverAll schema calls s r).leave r.active :=
    deliverAll_leave calls r.active
  rw [hleave]
  rfl

/-- The session after calls, whichever sinks they have. -/
def performAll (schema : Schema E) (calls : List (Option Nat × Call E K)) (s : Session E K) :
    Session E K :=
  calls.foldl (fun s x => (s.perform schema x.2).2) s

theorem performAll_append (calls calls' : List (Option Nat × Call E K)) :
    performAll schema (calls ++ calls') s =
      performAll schema calls' (performAll schema calls s) :=
  List.foldl_append

theorem deliverAll_append (calls calls' : List (Option Nat × Call E K)) :
    deliverAll schema (calls ++ calls') s r =
      deliverAll schema calls' (performAll schema calls s) (deliverAll schema calls s r) := by
  induction calls generalizing s r with
  | nil => rfl
  | cons x calls ih =>
      rw [List.cons_append, deliverAll, ih]
      rfl

/-! ## What is counted -/

/-- The counters after deliveries are those of the calls without a sink alone. -/
theorem counters_deliverAll {calls : List (Option Nat × Call E K)} (h : s.service = s'.service)
    (hcounters : r.counters = s'.recorder.counters)
    (hactive : ∀ x ∈ calls, x.1 = none → s'.recorder.active = none) :
    (deliverAll schema calls s r).counters =
      (runUninstrumented schema calls s').recorder.counters := by
  induction calls generalizing s s' r with
  | nil => exact hcounters
  | cons x calls ih =>
      have hservice := service_perform_congr schema h x.2
      obtain ⟨sink?, c⟩ := x
      cases sink? with
      | none =>
          have hnone : s'.recorder.active = none := hactive _ List.mem_cons_self rfl
          refine ih hservice ?_ fun x hx hxnone => ?_
          · rw [recorder_perform, hnone, deliverCall_congr h]
            exact counters_deliverCall_none hcounters c
          · rw [active_perform]
            exact hactive x (List.mem_cons_of_mem _ hx) hxnone
      | some sink =>
          refine ih hservice ?_ fun x hx hxnone => ?_
          · cases c <;> first
              | rfl
              | exact (Recorder.counters_foldl_deliver_some _ _).trans hcounters
          · have hnone := hactive x (List.mem_cons_of_mem _ hx) hxnone
            cases c <;> exact hnone

end Session

/-! ## Replies -/

/-- Two replies are the same, or both are reports: a report shows what has been counted. -/
def Reply.Agrees (reply reply' : Reply E) : Prop :=
  reply = reply' ∨ ∃ report report', reply = .report report ∧ reply' = .report report'

/-- What a call answers depends on the services only, a report apart. -/
theorem Session.agrees_perform [DecidableEq E] [DecidableEq K] {schema : Schema E}
    {s s' : Session E K} (h : s.service = s'.service) (c : Call E K) :
    (s.perform schema c).1.Agrees (s'.perform schema c).1 := by
  cases c with
  | report start => exact .inr ⟨_, _, rfl, rfl⟩
  | _ => exact .inl (by simp only [perform, update, answer, h])

/-! ## Scripts -/

namespace Script

variable [DecidableEq E] [DecidableEq K] {schema : Schema E} {s s' : Session E K}

/-- A script delivers the events of its calls to their innermost sinks. -/
theorem recorder_run (schema : Schema E) (p : Script E K) (h : s.service = s'.service) :
    (p.run schema s).2.recorder =
        Session.deliverAll schema (p.scopedCalls s.recorder.active) s' s.recorder ∧
      (p.run schema s).2.service =
        (Session.performAll schema (p.scopedCalls s.recorder.active) s').service := by
  induction p generalizing s s' with
  | done => exact ⟨rfl, h⟩
  | call c next ih =>
      have hnext := ih (Session.service_perform_congr schema h c)
      rw [Session.active_perform, Session.recorder_perform, Session.deliverCall_congr h] at hnext
      exact hnext
  | tick now next ih => exact ih (s := s.setClock now) h
  | within sink body next ihbody ihnext =>
      obtain ⟨hrecorder, hservice⟩ := ihbody (s := s.activate (some sink)) h
      -- inside of the scope only the active sink is another one, and it is given back
      have hafter : (afterScope schema sink body s).recorder =
          Session.deliverAll schema (body.scopedCalls (some sink)) s' s.recorder := by
        have hgiven : (afterScope schema sink body s).recorder =
            (body.run schema (s.activate (some sink))).2.recorder.leave s.recorder.active := rfl
        have hinside : (s.activate (some sink)).recorder = s.recorder.leave (some sink) := rfl
        rw [hgiven, hrecorder, hinside, Session.deliverAll_leave]
        exact (Session.deliverAll_leave _ _).symm
      have hnext := ihnext (s := afterScope schema sink body s) hservice
      have hactive : (afterScope schema sink body s).recorder.active = s.recorder.active := rfl
      rw [hactive, hafter] at hnext
      rw [run_within, scopedCalls, Session.deliverAll_append, Session.performAll_append]
      exact hnext

/-- Without its scopes a script answers the same and leaves the same rows. -/
theorem agrees_unscoped (schema : Schema E) (p : Script E K) (h : s.service = s'.service) :
    (p.run schema s).2.service = (p.unscoped.run schema s').2.service ∧
      List.Forall₂ Reply.Agrees (p.run schema s).1 (p.unscoped.run schema s').1 := by
  induction p generalizing s s' with
  | done => exact ⟨h, .nil⟩
  | call c next ih =>
      obtain ⟨hservice, hreplies⟩ := ih (Session.service_perform_congr schema h c)
      exact ⟨hservice, .cons (Session.agrees_perform h c) hreplies⟩
  | tick now next ih =>
      have hclock : (s.setClock now).service = (s'.setClock now).service := h
      exact ih hclock
  | within sink body next ihbody ihnext =>
      obtain ⟨hservice, hreplies⟩ := ihbody (s := s.activate (some sink)) h
      obtain ⟨hservice', hreplies'⟩ := ihnext (s := afterScope schema sink body s) hservice
      rw [run_within, unscoped, run_append]
      exact ⟨hservice', List.rel_append hreplies hreplies'⟩

/-- A script of calls with scopes around parts of it, nested in any way.  Every event of
every call is delivered once: to the sink of the innermost scope around the call, or to the
sink that is active around the script, and it is counted if there is neither.  Behind the
script, which may be a single scope, the sink from before is active again.  The counters are
those of the script whose calls inside of scopes are not instrumented.  The rows and the
replies are those of the script without scopes; a report shows the counters. -/
theorem scopes_route_events (schema : Schema E) (p : Script E K) (s : Session E K) :
    (p.run schema s).2.recorder =
        Session.deliverAll schema (p.scopedCalls s.recorder.active) s s.recorder ∧
      (p.run schema s).2.recorder.active = s.recorder.active ∧
      (p.run schema s).2.recorder.counters =
        (Session.runUninstrumented schema (p.scopedCalls s.recorder.active) s).recorder.counters ∧
      (p.run schema s).2.service = (p.unscoped.run schema s).2.service ∧
      List.Forall₂ Reply.Agrees (p.run schema s).1 (p.unscoped.run schema s).1 := by
  obtain ⟨hrecorder, -⟩ := recorder_run schema p (rfl : s.service = s.service)
  obtain ⟨hservice, hreplies⟩ := agrees_unscoped schema p (rfl : s.service = s.service)
  refine ⟨hrecorder, ?_, ?_, hservice, hreplies⟩
  · rw [hrecorder]
    exact Session.active_deliverAll _
  · rw [hrecorder]
    exact Session.counters_deliverAll rfl rfl fun x hx hnone => active_of_mem_scopedCalls hx hnone

end Script

end EntityQuery
