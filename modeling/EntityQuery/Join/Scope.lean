import EntityQuery.Predicate.Basic

/-!
# Joins of a query

The rows that a query may look at are the root row and, for every join that has been
opened, a row related to the root or to the row of an earlier join.  A scope holds the
joins opened so far; opening one appends it.

Main results:

- Theorem `joins_of_join`: opening a join appends one and changes nothing else.
- Theorem `wellFormed_join`: the joins of a scope stay well-formed.
-/

namespace EntityQuery

/-! ## Joins -/

/-- A join: its place, the source of its parent rows, and the relation it follows. -/
structure Join (E : Type) where
  id : Nat
  parent : Source
  relation : Relation E
deriving DecidableEq, Repr

/-- A source that is the root or one of the first joins. -/
def Source.IsBefore (n : Nat) : Source → Prop
  | root => True
  | join id => id < n

instance (n : Nat) (s : Source) : Decidable (s.IsBefore n) := by
  cases s <;> unfold Source.IsBefore <;> infer_instance

/-- Every join is numbered by its place and follows the root or an earlier join. -/
def WellFormedJoins {E : Type} (joins : List (Join E)) : Prop :=
  ∀ i, ∀ h : i < joins.length, joins[i].id = i ∧ joins[i].parent.IsBefore i

/-! ## Faults -/

/-- Why a criterion or a name in it is refused. -/
inductive NameError where
  | unknownField (entity field : String)
  | unknownRelation (entity relation : String)
deriving DecidableEq, Repr

/-! ## Scopes -/

/-- The root entity of a query and the joins opened so far. -/
structure Scope (E : Type) where
  root : E
  joins : List (Join E)
deriving DecidableEq, Repr

namespace Scope

variable {E : Type}

/-- A scope without joins. -/
def new (root : E) : Scope E := ⟨root, []⟩

/-- The entity of the rows of a source; that of the root for a join that is not open. -/
def entityAt (s : Scope E) : Source → E
  | .root => s.root
  | .join id =>
    match s.joins[id]? with
    | some join => join.relation.target
    | none => s.root

/-- The field of a name at a source. -/
def field (schema : Schema E) (s : Scope E) (source : Source) (name : String) :
    Except NameError FieldRef :=
  let entity := schema.entity (s.entityAt source)
  match entity.field? name with
  | some field => .ok ⟨source, field.name, field.kind⟩
  | none => .error (.unknownField entity.name name)

/-- Open a join along the relation of a name at a source. -/
def join (schema : Schema E) (s : Scope E) (source : Source) (name : String) :
    Except NameError (Source × Scope E) :=
  let entity := schema.entity (s.entityAt source)
  match entity.relation? name with
  | some relation =>
    .ok (.join s.joins.length, { s with joins := s.joins ++ [⟨s.joins.length, source, relation⟩] })
  | none => .error (.unknownRelation entity.name name)

/-- Open the joins of a path one after another.  Those before a fault stay open. -/
def openPath (schema : Schema E) : Scope E → Source → List String →
    Except NameError Source × Scope E
  | s, source, [] => (.ok source, s)
  | s, source, hop :: hops =>
    match s.join schema source hop with
    | .error e => (.error e, s)
    | .ok (next, s') => openPath schema s' next hops

/-- Opening a join appends one and changes nothing else. -/
theorem joins_of_join {schema : Schema E} {s s' : Scope E} {source next : Source} {name : String}
    (h : s.join schema source name = .ok (next, s')) :
    s'.root = s.root ∧ next = .join s.joins.length ∧
      ∃ r, (schema.entity (s.entityAt source)).relation? name = some r ∧
        s'.joins = s.joins ++ [⟨s.joins.length, source, r⟩] := by
  unfold join at h
  dsimp only at h
  split at h
  · next r hr => cases h; exact ⟨rfl, rfl, r, hr, rfl⟩
  · cases h

/-- A join opened at a source of the scope keeps the joins well-formed. -/
theorem wellFormed_join {schema : Schema E} {s s' : Scope E} {source next : Source}
    {name : String} (hs : WellFormedJoins s.joins) (hsource : source.IsBefore s.joins.length)
    (h : s.join schema source name = .ok (next, s')) : WellFormedJoins s'.joins := by
  obtain ⟨_, _, r, _, hj⟩ := joins_of_join h
  rw [hj]
  intro i hi
  by_cases hlt : i < s.joins.length
  · rw [List.getElem_append_left hlt]
    exact hs i hlt
  · have hi' : i = s.joins.length := by simp at hi; omega
    subst hi'
    simp [hsource]

end Scope

end EntityQuery
