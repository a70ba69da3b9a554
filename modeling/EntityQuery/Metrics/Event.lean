/-!
# Events

What a service reports while it works.  An operation on an entity starts and finishes,
and in between a plan may be chosen or a mismatch be found.

Main results:

- Definition `Event.path?`: the entity that an event is about.
-/

namespace EntityQuery.Metrics

/-- The operations that are counted. -/
inductive Operation where
  | filter
  | count
  | save
  | delete
deriving DecidableEq, Repr

/-- The name of an operation. -/
def Operation.name : Operation → String
  | filter => "filter"
  | count => "count"
  | save => "save"
  | delete => "delete"

/-- How rows are looked for: by a predicate, or all of them. -/
inductive PlanKind where
  | filtered
  | fullScan
deriving DecidableEq, Repr

/-- The name of a way to look for rows. -/
def PlanKind.name : PlanKind → String
  | filtered => "filtered"
  | fullScan => "fullscan"

/-- What happened, and to which entity. -/
inductive Event where
  | started (operation : Operation) (path : String)
  | finished (operation : Operation) (path : String) (rows : Nat)
  | compileFailed (path : String)
  | typeMismatch (path : String)
  | planned (kind : PlanKind)
deriving DecidableEq, Repr

/-- The entity that an event is about; plans are counted for all entities together. -/
def Event.path? : Event → Option String
  | started _ path => some path
  | finished _ path _ => some path
  | compileFailed path => some path
  | typeMismatch path => some path
  | planned _ => none

end EntityQuery.Metrics
