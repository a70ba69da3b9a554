import EntityQuery.Failure
import EntityQuery.Metrics.Event

/-!
# Services

A service answers calls about the rows of one entity: it saves and deletes rows, runs
requests and counts.  A call yields its result together with the events it reports.

Main results:

- Definition `Service.specification`: what a request searches for.
- Definition `Service.mergedSpecification`: the same for a search on top of defaults.
- Definitions `Service.filter`, `Service.count` and their variants.
-/

namespace EntityQuery

open Metrics

/-! ## Results with events -/

/-- A result and the events reported on the way. -/
structure Traced (α : Type) where
  result : α
  events : List Event

namespace Traced

variable {α β ε : Type}

/-- A result without events. -/
def silent (result : α) : Traced α := ⟨result, []⟩

/-- Go on with a result, unless it is a failure. -/
def andThen (t : Traced (Except ε α)) (f : α → Traced (Except ε β)) : Traced (Except ε β) :=
  match t.result with
  | .error e => ⟨.error e, t.events⟩
  | .ok a =>
    let next := f a
    ⟨next.result, t.events ++ next.events⟩

end Traced

/-! ## Services -/

/-- The rows of an entity, with keys of some type, under a configuration. -/
structure Service (E K : Type) where
  entity : E
  config : Config
  table : Table K

/-- Which of two merged requests decides about page and order. -/
inductive MergeSide where
  | search
  | default
deriving DecidableEq, Repr

namespace Service

variable {E K : Type}

/-- A service without rows. -/
def new (keyOf : Row → K) (entity : E) (config : Config) : Service E K :=
  ⟨entity, config, .empty keyOf⟩

/-- The path that events about the service carry. -/
def path (schema : Schema E) (s : Service E K) : String := (schema.entity s.entity).path

/-! ## Saving and deleting -/

section Keyed

variable [DecidableEq K]

/-- Save a row. -/
def create (schema : Schema E) (s : Service E K) (row : Row) : Traced (Service E K) :=
  ⟨{ s with table := s.table.save row },
    [.started .save (s.path schema), .finished .save (s.path schema) 1]⟩

/-- Save rows. -/
def createAll (schema : Schema E) (s : Service E K) (rows : List Row) : Traced (Service E K) :=
  ⟨{ s with table := s.table.saveAll rows },
    [.started .save (s.path schema), .finished .save (s.path schema) rows.length]⟩

/-- Delete the row under a key. -/
def delete (schema : Schema E) (s : Service E K) (key : K) : Traced (Service E K) :=
  ⟨{ s with table := s.table.delete key },
    [.started .delete (s.path schema),
      .finished .delete (s.path schema) (if s.table.contains key then 1 else 0)]⟩

end Keyed

/-! ## Specifications -/

/-- A refused criterion is reported. -/
def compiled {α : Type} (schema : Schema E) (s : Service E K) :
    Except CriterionError α → Traced (Except Failure α)
  | .ok a => .silent (.ok a)
  | .error e => ⟨.error (.criterion e), [.compileFailed (s.path schema)]⟩

/-- A request with a fault is refused before anything else. -/
def validated (r : Request) : Traced (Except Failure Unit) :=
  .silent (r.validate.mapError .request)

/-- What a request searches for. -/
def specification (schema : Schema E) (s : Service E K) (r : Request) :
    Traced (Except Failure (Specification E)) :=
  (validated r).andThen fun _ =>
    s.compiled schema (Specification.ofRequest schema s.config s.entity r)

/-- The page that a request asks for. -/
def pageRequest (s : Service E K) (r : Request) : PageRequest :=
  .ofRequest r s.config

/-- The predicates of a search and of defaults over common joins. -/
def mergedPredicates (schema : Schema E) (s : Service E K) (search default : Request) :
    Except CriterionError ((Option Predicate × Option Predicate) × Scope E) :=
  match (Scope.new s.entity).requestPredicate schema s.config search with
  | (.error e, _) => .error e
  | (.ok left, scope) =>
    match scope.requestPredicate schema s.config default with
    | (.error e, _) => .error e
    | (.ok right, scope') => .ok ((left, right), scope')

/-- The side that decides about page and order: the search, unless only the defaults
restrict the rows. -/
def pagingSide : Option Predicate → Option Predicate → MergeSide
  | none, some _ => .default
  | _, _ => .search

/-- What a search on top of defaults searches for, and whose page is meant. -/
def mergedSpecification (schema : Schema E) (s : Service E K) (search default : Request)
    (operator : GroupOperator) : Traced (Except Failure (Specification E × MergeSide)) :=
  (validated search).andThen fun _ =>
    (validated default).andThen fun _ =>
      (s.compiled schema (s.mergedPredicates schema search default)).andThen
        fun ((left, right), scope) =>
          .silent (.ok (scope.finish (Predicate.merge operator left right), pagingSide left right))

/-- The request of a side. -/
def MergeSide.pick (search default : Request) : MergeSide → Request
  | .search => search
  | .default => default

/-! ## Running specifications -/

/-- How a specification looks for rows. -/
def planOf (spec : Specification E) : PlanKind :=
  if spec.isUnfiltered then .fullScan else .filtered

/-- The event of a failed selection, if it is a mismatch. -/
def mismatchEvents (schema : Schema E) (s : Service E K) : SelectionError → List Event
  | .kind _ => [.typeMismatch (s.path schema)]
  | .sort _ => []

/-- Run an operation on a specification and report its start, its plan and its end. -/
def traced {α : Type} (schema : Schema E) (s : Service E K) (operation : Operation)
    (spec : Specification E) (rows : α → Nat) (result : Except SelectionError α) :
    Traced (Except Failure α) :=
  let before := [.started operation (s.path schema), .planned (planOf spec)]
  match result with
  | .ok a => ⟨.ok a, before ++ [.finished operation (s.path schema) (rows a)]⟩
  | .error e =>
    ⟨.error (.selection e),
      before ++ s.mismatchEvents schema e ++ [.finished operation (s.path schema) 0]⟩

/-- A page of the rows that a specification selects. -/
def findPage (schema : Schema E) (s : Service E K) (spec : Specification E) (page : PageRequest) :
    Traced (Except Failure (Page Row)) :=
  s.traced schema .filter spec Page.elements (s.table.page schema s.entity spec page)

/-- How many rows a specification selects; without one, all rows. -/
def countSpecification (schema : Schema E) (s : Service E K) (spec : Option (Specification E)) :
    Traced (Except Failure Nat) :=
  let spec := spec.getD .unfiltered
  s.traced schema .count spec id (s.table.count spec)

/-! ## Requests -/

/-- The page that a request asks for. -/
def filter (schema : Schema E) (s : Service E K) (r : Request) :
    Traced (Except Failure (Page Row)) :=
  (s.specification schema r).andThen fun spec => s.findPage schema spec (s.pageRequest r)

/-- The page that a request asks for, with its rows in another form. -/
def filterAs {α : Type} (schema : Schema E) (s : Service E K) (view : Row → α) (r : Request) :
    Traced (Except Failure (Page α)) :=
  (s.filter schema r).andThen fun page => .silent (.ok (page.map view))

/-- The page that a request asks for, of the rows that a specification selects. -/
def filterWith (schema : Schema E) (s : Service E K) (spec : Specification E) (r : Request) :
    Traced (Except Failure (Page Row)) :=
  (validated r).andThen fun _ => s.findPage schema spec (s.pageRequest r)

/-- The page of a search on top of defaults. -/
def filterMerged (schema : Schema E) (s : Service E K) (search default : Request)
    (operator : GroupOperator) : Traced (Except Failure (Page Row)) :=
  (s.mergedSpecification schema search default operator).andThen fun (spec, side) =>
    s.findPage schema spec (s.pageRequest (MergeSide.pick search default side))

/-- How many rows a request selects. -/
def count (schema : Schema E) (s : Service E K) (r : Request) : Traced (Except Failure Nat) :=
  (s.specification schema r).andThen fun spec => s.countSpecification schema (some spec)

/-- How many rows a search on top of defaults selects. -/
def countMerged (schema : Schema E) (s : Service E K) (search default : Request)
    (operator : GroupOperator) : Traced (Except Failure Nat) :=
  (s.mergedSpecification schema search default operator).andThen fun (spec, _) =>
    s.countSpecification schema (some spec)

end Service

end EntityQuery
