import EntityQuery.Metrics.Counters

/-!
# Recording events

Events go to the counters unless a sink is active.  A scope makes its sink the active one
and afterwards gives the place back to the sink that was active before, so the innermost
scope around an event receives it.

Main results:

- Definition `Recorder.record`: where an event goes.
- Definitions `Recorder.enter` and `Recorder.leave`: the ends of a scope.
- Theorem `counters_recordAll`: without a scope around them events are counted.
-/

namespace EntityQuery.Metrics

/-- The counters, the active sink if there is one, and what sinks have received, in
order. -/
structure Recorder where
  counters : Counters := {}
  active : Option Nat := none
  received : List (Nat × Event) := []
deriving DecidableEq, Repr

namespace Recorder

/-- Deliver an event to the active sink, or count it. -/
def record (r : Recorder) (e : Event) : Recorder :=
  match r.active with
  | none => { r with counters := r.counters.record e }
  | some sink => { r with received := r.received ++ [(sink, e)] }

/-- Deliver events one after another. -/
def recordAll (r : Recorder) (es : List Event) : Recorder :=
  es.foldl record r

/-- Make a sink the active one. -/
def enter (r : Recorder) (sink : Nat) : Recorder :=
  { r with active := some sink }

/-- Give the place of the active sink back. -/
def leave (r : Recorder) (previous : Option Nat) : Recorder :=
  { r with active := previous }

/-- What a sink has received, in order. -/
def receivedBy (r : Recorder) (sink : Nat) : List Event :=
  r.received.filterMap fun (s, e) => if s = sink then some e else none

/-- Forget all counts. -/
def reset (r : Recorder) : Recorder :=
  { r with counters := {} }

@[simp] theorem active_record (r : Recorder) (e : Event) : (r.record e).active = r.active := by
  unfold record
  cases r.active <;> rfl

@[simp] theorem active_recordAll (r : Recorder) (es : List Event) :
    (r.recordAll es).active = r.active := by
  induction es generalizing r with
  | nil => rfl
  | cons e es ih => exact (ih (r.record e)).trans (active_record r e)

/-- Without an active sink the events are counted. -/
theorem counters_recordAll {r : Recorder} (h : r.active = none) (es : List Event) :
    (r.recordAll es).counters = r.counters.recordAll es := by
  induction es generalizing r with
  | nil => rfl
  | cons e es ih =>
      have hrecord : (r.record e).counters = r.counters.record e := by
        rw [record, h]
      have hrest := ih ((active_record r e).trans h)
      rw [hrecord] at hrest
      exact hrest

end Recorder

end EntityQuery.Metrics
