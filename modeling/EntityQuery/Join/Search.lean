import EntityQuery.Join.Grouping
import EntityQuery.Predicate.Evaluation

/-!
# Search for rows

A root row is selected when some choice of related rows makes the predicate true.  A
join takes any one row related to its parent, or no row when there is none.  Branches
of an alternative are searched one by one, and so are groups of conjuncts that share no
join; within a group, the joins are chosen one after another, and a choice is given up
when the group can no longer become true.

Main results:

- Definition `existsChoice`: the search within a group.
- Definition `Plan.ofPredicate`: how a predicate is searched for.
- Definition `selects`: whether a root row is selected.
-/

namespace EntityQuery

variable {E : Type}

/-! ## One group -/

/-- What can be chosen for a join: the rows related to its parent, or the absence of a
row when there are none. -/
def candidates (join : Join E) (c : Choice) : List Slot :=
  match (c.row? join.parent).map (·.related join.relation.name) with
  | none | some [] => [.empty]
  | some rows => rows.map .row

/-- Whether the listed joins can be chosen so that all predicates become true. -/
def existsChoice (joins : List (Join E)) (predicates : List Predicate) :
    List Nat → Choice → Bool
  | order, c =>
    let reachable := Outcomes.all (predicates.map (·.outcomes c))
    if reachable.isCertain then true
    else if !reachable.canBeTrue then false
    else
      match order with
      | [] => false
      | id :: rest =>
        match joins[id]? with
        | none => false
        | some join =>
          (candidates join c).any fun slot => existsChoice joins predicates rest (c.choose id slot)

/-! ## Plans -/

/-- How a predicate is searched for. -/
inductive Plan where
  | all (plans : List Plan)
  | any (plans : List Plan)
  | search (predicates : List Predicate) (joins : JoinSet)

namespace Plan

/-- The plan of a group of conjuncts, each given with a plan of its own: a single
conjunct keeps its plan, and several are searched together. -/
def ofGroup (g : Group (Predicate × Plan)) : Plan :=
  match g.members with
  | [(_, plan)] => plan
  | members => search (members.map (·.1)) g.joins

mutual

/-- The plan of a predicate. -/
def ofPredicate (joins : List (Join E)) : Predicate → Plan
  | .any parts => any ((ofEach joins parts).map (·.2))
  | .all parts =>
    all ((separableGroups (fun part => readJoins joins part.1) (ofEach joins parts)).map ofGroup)
  | .const b => search [.const b] (readJoins joins (.const b))
  | .not part => search [.not part] (readJoins joins (.not part))
  | .test field t => search [.test field t] (readJoins joins (.test field t))

/-- Parts of a group with their plans. -/
def ofEach (joins : List (Join E)) : List Predicate → List (Predicate × Plan)
  | [] => []
  | part :: parts => (part, ofPredicate joins part) :: ofEach joins parts

end

mutual

/-- Whether a plan finds a choice that starts from a root row. -/
def run (joins : List (Join E)) (start : Choice) : Plan → Bool
  | all plans => runAll joins start plans
  | any plans => runAny joins start plans
  | search predicates order => existsChoice joins predicates order start

/-- Whether every plan of a list does. -/
def runAll (joins : List (Join E)) (start : Choice) : List Plan → Bool
  | [] => true
  | plan :: plans => plan.run joins start && runAll joins start plans

/-- Whether a plan of a list does. -/
def runAny (joins : List (Join E)) (start : Choice) : List Plan → Bool
  | [] => false
  | plan :: plans => plan.run joins start || runAny joins start plans

end

end Plan

/-! ## Rows -/

/-- Whether a plan selects a root row. -/
def Plan.selects (plan : Plan) (joins : List (Join E)) (root : Row) : Bool :=
  plan.run joins (.start root joins.length)

/-- Whether a predicate over joins selects a root row. -/
def selects (joins : List (Join E)) (p : Predicate) (root : Row) : Bool :=
  (Plan.ofPredicate joins p).selects joins root

end EntityQuery
