import EntityQuery.Join.Scope

/-!
# Joins that predicates share

Predicates that must hold together can be searched for one by one if they do not look
at the same joins.  A predicate reads the joins of its fields and all joins that those
hang on; conjuncts that share a join, directly or through others, form a group.

Main results:

- Definition `readJoins`: the joins that a predicate reads.
- Definition `separableGroups`: the groups of a list of conjuncts.
- Theorem `mem_insertJoin`: sets of joins are ascending lists.
-/

namespace EntityQuery

/-! ## Sets of joins -/

/-- A set of joins, given by their places in ascending order. -/
abbrev JoinSet := List Nat

/-- Add a join to a set. -/
def insertJoin (id : Nat) : JoinSet → JoinSet
  | [] => [id]
  | j :: js => if id < j then id :: j :: js else if id = j then j :: js else j :: insertJoin id js

/-- All joins of two sets. -/
def unionJoins (a b : JoinSet) : JoinSet :=
  a.foldr insertJoin b

/-- Whether two sets have no join in common. -/
def disjointJoins (a b : JoinSet) : Bool :=
  a.all fun id => !b.contains id

theorem mem_insertJoin {id k : Nat} {js : JoinSet} : k ∈ insertJoin id js ↔ k = id ∨ k ∈ js := by
  induction js with
  | nil => simp [insertJoin]
  | cons j js ih =>
    simp only [insertJoin]
    split
    · simp
    · split
      · next h => subst h; simp
      · simp only [List.mem_cons, ih]
        constructor
        · rintro (h | h | h) <;> simp [h]
        · rintro (h | h | h) <;> simp [h]

theorem mem_unionJoins {k : Nat} {a b : JoinSet} : k ∈ unionJoins a b ↔ k ∈ a ∨ k ∈ b := by
  induction a with
  | nil => simp [unionJoins]
  | cons i a ih =>
    have h : unionJoins (i :: a) b = insertJoin i (unionJoins a b) := rfl
    simp [h, mem_insertJoin, ih, or_assoc]

theorem disjointJoins_iff {a b : JoinSet} :
    disjointJoins a b = true ↔ ∀ k ∈ a, k ∉ b := by
  simp [disjointJoins]

/-! ## Joins of a predicate -/

variable {E : Type}

/-- A join and the joins it hangs on, the root excepted.  The parent of a join comes
before it. -/
def ancestors (joins : List (Join E)) (id : Nat) : List Nat :=
  match joins[id]? with
  | none => [id]
  | some join =>
    match join.parent with
    | .root => [id]
    | .join parent => if parent < id then id :: ancestors joins parent else [id]
termination_by id

/-- The joins that a source needs. -/
def sourceJoins (joins : List (Join E)) : Source → List Nat
  | .root => []
  | .join id => ancestors joins id

/-- The joins that a predicate reads, with all joins they hang on. -/
def readJoins (joins : List (Join E)) (p : Predicate) : JoinSet :=
  (p.fields.flatMap fun field => sourceJoins joins field.source).foldr insertJoin []

/-! ## Groups -/

/-- Conjuncts that belong together, and the joins they read. -/
structure Group (α : Type) where
  members : List α
  joins : JoinSet

/-- Take into a group every group of a list that shares a join with it.  What the group
takes in counts for the groups behind.  The groups left over come second. -/
def absorb {α : Type} (g : Group α) : List (Group α) → Group α × List (Group α)
  | [] => (g, [])
  | h :: hs =>
    if disjointJoins h.joins g.joins then
      let (g', rest) := absorb g hs
      (g', h :: rest)
    else absorb ⟨g.members ++ h.members, unionJoins h.joins g.joins⟩ hs

/-- Add a conjunct to groups that share no joins. -/
def addConjunct {α : Type} (reads : α → JoinSet) (groups : List (Group α)) (conjunct : α) :
    List (Group α) :=
  let (g, rest) := absorb ⟨[conjunct], reads conjunct⟩ groups
  rest ++ [g]

/-- The groups of conjuncts that share joins, directly or through others. -/
def separableGroups {α : Type} (reads : α → JoinSet) (conjuncts : List α) : List (Group α) :=
  conjuncts.foldl (addConjunct reads) []

end EntityQuery
