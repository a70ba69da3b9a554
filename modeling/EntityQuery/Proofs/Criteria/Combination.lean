import EntityQuery.Proofs.Criteria.Placement
import EntityQuery.Proofs.Table.Selection

/-!
# Combinations of criteria

A request combines its criteria and its alternatives under an operator.  The same
combination is formed three times: of predicates, when a request is compiled; of probes,
when its predicate is bound; and of what the probes find, when it selects a row.

Main results:

- Definition `Combines`: the combination of what is known of criteria and alternatives.
- Theorem `bindOptional_ofPlacements`: binding a combination of probes binds the probes.
- Theorem `selectsRow_ofPlacements_iff`: what a combination of bound probes selects.
-/

namespace EntityQuery

variable {E : Type}

/-! ## Combinations -/

section Combinations

variable {α β : Type}

/-- The combination of criteria and alternatives under an operator, when it is known
which of them hold. -/
def Combines (operator : GroupOperator) (holds : α → Prop) : List α → List α → Prop
  | [], [] => True
  | c :: cs, [] =>
    match operator with
    | .and => ∀ a ∈ c :: cs, holds a
    | .or => ∃ a ∈ c :: cs, holds a
  | [], o :: os => ∃ a ∈ o :: os, holds a
  | c :: cs, o :: os =>
    match operator with
    | .and => (∀ a ∈ c :: cs, holds a) ∧ ∃ a ∈ o :: os, holds a
    | .or => (∀ a ∈ c :: cs, holds a) ∨ ∃ a ∈ o :: os, holds a

/-- A combination does not see the difference between matched lists. -/
theorem Matched.combines_iff {related : α → β → Prop} {as : List α} {bs : List β}
    {holds : α → Prop} {holds' : β → Prop} {as' : List α} {bs' : List β} (operator : GroupOperator)
    (h : Matched related as bs) (h' : Matched related as' bs')
    (hholds : ∀ a b, related a b → (holds a ↔ holds' b)) :
    Combines operator holds as as' ↔ Combines operator holds' bs bs' := by
  have hall := h.forall_iff hholds
  have hsome := h.exists_iff hholds
  have hsome' := h'.exists_iff hholds
  cases as with
  | nil =>
      obtain rfl := h.nil_iff.mp rfl
      cases as' with
      | nil =>
          obtain rfl := h'.nil_iff.mp rfl
          exact Iff.rfl
      | cons a' as' =>
          cases bs' with
          | nil => cases h'.nil_iff.mpr rfl
          | cons b' bs' => exact hsome'
  | cons a as =>
      cases bs with
      | nil => cases h.nil_iff.mpr rfl
      | cons b bs =>
          cases as' with
          | nil =>
              obtain rfl := h'.nil_iff.mp rfl
              cases operator with
              | and => exact hall
              | or => exact hsome
          | cons a' as' =>
              cases bs' with
              | nil => cases h'.nil_iff.mpr rfl
              | cons b' bs' =>
                  cases operator with
                  | and => exact and_congr hall hsome'
                  | or => exact or_congr hall hsome'

end Combinations

/-! ## Combinations of placed probes -/

/-- A group of predicates under an operator. -/
def Predicate.group : GroupOperator → List Predicate → Predicate
  | .and, parts => all parts
  | .or, parts => any parts

/-- The combination of placed probes that a request asks for, if it asks for any. -/
def Predicate.ofPlacements (operator : GroupOperator) :
    List (Placement E) → List (Placement E) → Option Predicate
  | [], [] => none
  | x :: xs, [] => some (group operator ((x :: xs).map (·.predicate)))
  | [], y :: ys => some (any ((y :: ys).map (·.predicate)))
  | x :: xs, y :: ys => some (combine operator (all ((x :: xs).map (·.predicate)))
      (any ((y :: ys).map (·.predicate))))

section Combination

variable {operator : GroupOperator} {a b : Nat} {qs os : List (Probe E)}

theorem ofPlacements_of_alternatives_nil (h : qs ≠ []) :
    Predicate.ofPlacements operator (placements a qs) (placements b []) =
      some (.group operator (placedPredicates a qs)) := by
  cases qs with
  | nil => exact absurd rfl h
  | cons q qs => rfl

theorem ofPlacements_of_criteria_nil (h : os ≠ []) :
    Predicate.ofPlacements operator (placements a []) (placements b os) =
      some (.any (placedPredicates b os)) := by
  cases os with
  | nil => exact absurd rfl h
  | cons o os => rfl

theorem ofPlacements_of_ne_nil (h : qs ≠ []) (h' : os ≠ []) :
    Predicate.ofPlacements operator (placements a qs) (placements b os) =
      some (.combine operator (.all (placedPredicates a qs)) (.any (placedPredicates b os))) := by
  cases qs with
  | nil => exact absurd rfl h
  | cons q qs =>
      cases os with
      | nil => exact absurd rfl h'
      | cons o os => rfl

end Combination

/-! ## Binding -/

/-- Whether a specification with a bound predicate selects a root row. -/
def Specification.selectsRow (spec : Specification E) (row : Row) : Bool :=
  match spec.predicate with
  | none => true
  | some p => EntityQuery.selects spec.joins p row

/-- A group is bound part by part. -/
theorem Predicate.bind_group (operator : GroupOperator) (parts : List Predicate) :
    (group operator parts).bind = (bindEach parts).map (group operator) := by
  cases operator <;> rw [group, bind] <;> rfl

/-- Two predicates under an operator are bound one after the other. -/
theorem Predicate.bind_combine (operator : GroupOperator) (left right : Predicate) :
    (combine operator left right).bind =
      match left.bind with
      | .error e => .error e
      | .ok bound => right.bind.map (combine operator bound) := by
  cases operator <;>
    simp only [combine, Predicate.and, Predicate.or, bind, bindEach] <;>
    cases left.bind <;> cases right.bind <;> rfl

/-- A predicate with its operands bound, if there is one. -/
def Predicate.bindOptional : Option Predicate → Except KindMismatch (Option Predicate)
  | none => .ok none
  | some p => p.bind.map some

/-- The test of a specification is that of its bound predicate. -/
theorem Specification.rowTest_eq (spec : Specification E) :
    spec.rowTest =
      (Predicate.bindOptional spec.predicate).map fun p => selectsRow ⟨p, spec.joins⟩ := by
  obtain ⟨p, joins⟩ := spec
  cases p with
  | none => rfl
  | some p =>
      simp only [rowTest, Predicate.bindOptional]
      cases p.bind <;> rfl

/-- Binding the combination of placed probes binds the probes. -/
theorem Predicate.bindOptional_ofPlacements (operator : GroupOperator) (a b : Nat)
    (qs os : List (Probe E)) :
    bindOptional (ofPlacements operator (placements a qs) (placements b os)) =
      match Probe.bindEach qs with
      | .error e => .error e
      | .ok bqs => (Probe.bindEach os).map fun bos =>
          ofPlacements operator (placements a bqs) (placements b bos) := by
  have hne : ∀ {qs bound : List (Probe E)}, Probe.bindEach qs = .ok bound → qs ≠ [] →
      bound ≠ [] := by
    intro qs bound hbound hqs hnil
    rw [hnil] at hbound
    exact hqs (List.length_eq_zero_iff.mp (length_of_collect hbound).symm)
  have hnil : Probe.bindEach ([] : List (Probe E)) = .ok [] := rfl
  by_cases hqs : qs = []
  · subst hqs
    by_cases hos : os = []
    · subst hos
      rfl
    · rw [ofPlacements_of_criteria_nil hos]
      simp only [bindOptional, hnil, bind, bindEach_placedPredicates]
      cases hbos : Probe.bindEach os with
      | error e => rfl
      | ok bos => simp only [Except.map, ofPlacements_of_criteria_nil (hne hbos hos)]
  · by_cases hos : os = []
    · subst hos
      rw [ofPlacements_of_alternatives_nil hqs]
      simp only [bindOptional, hnil, bind_group, bindEach_placedPredicates]
      cases hbqs : Probe.bindEach qs with
      | error e => rfl
      | ok bqs => simp only [Except.map, ofPlacements_of_alternatives_nil (hne hbqs hqs)]
    · rw [ofPlacements_of_ne_nil hqs hos]
      simp only [bindOptional, bind_combine, bind, bindEach_placedPredicates]
      cases hbqs : Probe.bindEach qs with
      | error e => rfl
      | ok bqs =>
          cases hbos : Probe.bindEach os with
          | error e => rfl
          | ok bos => simp only [Except.map, ofPlacements_of_ne_nil (hne hbqs hqs) (hne hbos hos)]

/-- The test of a combination of placed probes is that of the bound probes. -/
theorem rowTest_ofPlacements (operator : GroupOperator) (joins : List (Join E)) (a b : Nat)
    (qs os : List (Probe E)) :
    Specification.rowTest
        ⟨Predicate.ofPlacements operator (placements a qs) (placements b os), joins⟩ =
      match Probe.bindEach qs with
      | .error e => .error e
      | .ok bqs => (Probe.bindEach os).map fun bos => Specification.selectsRow
          ⟨Predicate.ofPlacements operator (placements a bqs) (placements b bos), joins⟩ := by
  rw [Specification.rowTest_eq, Predicate.bindOptional_ofPlacements]
  cases Probe.bindEach qs with
  | error e => rfl
  | ok bqs => cases Probe.bindEach os <;> rfl

/-! ## Selection -/

namespace Decides

variable {joins : List (Join E)} {xs : List (Placement E)} {place : Nat} {qs : List (Probe E)}

/-- All of some placed probes decide whether all of them find something. -/
theorem all_placed (hj : WellFormedJoins joins) (h : ∀ x ∈ placements place qs, x ∈ xs)
    (hjoins : ∀ x ∈ xs, ∀ join ∈ x.joins, join ∈ joins) :
    Decides joins xs (.all (placedPredicates place qs)) fun row => ∀ q ∈ qs, q.Finds row := by
  have hplaced : ∀ x ∈ placements place qs, Decides joins xs x.predicate x.probe.Finds :=
    fun x hx => Decides.placed hj (h x hx) (hjoins x (h x hx))
  have hall := Decides.all hplaced
  have hiff : ∀ row, (∀ q ∈ qs, q.Finds row) ↔ ∀ x ∈ placements place qs, x.probe.Finds row := by
    intro row
    constructor
    · exact fun hq x hx => hq x.probe (mem_of_mem_placements hx)
    · intro hx q hq
      obtain ⟨x, hmem, rfl⟩ := exists_placement place hq
      exact hx x hmem
  simp only [hiff]
  exact hall

/-- One of some placed probes decides whether one of them finds something. -/
theorem any_placed (hj : WellFormedJoins joins) (h : ∀ x ∈ placements place qs, x ∈ xs)
    (hjoins : ∀ x ∈ xs, ∀ join ∈ x.joins, join ∈ joins) :
    Decides joins xs (.any (placedPredicates place qs)) fun row => ∃ q ∈ qs, q.Finds row := by
  have hplaced : ∀ x ∈ placements place qs, Decides joins xs x.predicate x.probe.Finds :=
    fun x hx => Decides.placed hj (h x hx) (hjoins x (h x hx))
  have hany := Decides.any hplaced
  have hiff : ∀ row, (∃ q ∈ qs, q.Finds row) ↔ ∃ x ∈ placements place qs, x.probe.Finds row := by
    intro row
    constructor
    · rintro ⟨q, hq, hfinds⟩
      obtain ⟨x, hmem, rfl⟩ := exists_placement place hq
      exact ⟨x, hmem, hfinds⟩
    · rintro ⟨x, hx, hfinds⟩
      exact ⟨x.probe, mem_of_mem_placements hx, hfinds⟩
  simp only [hiff]
  exact hany

end Decides

/-- The combination of placed probes decides the combination of what they find. -/
theorem decides_ofPlacements {joins : List (Join E)} {xs : List (Placement E)}
    (hj : WellFormedJoins joins) (operator : GroupOperator) {a b : Nat} {qs os : List (Probe E)}
    (hqs : ∀ x ∈ placements a qs, x ∈ xs) (hos : ∀ x ∈ placements b os, x ∈ xs)
    (hjoins : ∀ x ∈ xs, ∀ join ∈ x.joins, join ∈ joins) {p : Predicate}
    (hp : Predicate.ofPlacements operator (placements a qs) (placements b os) = some p) :
    Decides joins xs p fun row => Combines operator (fun q => q.Finds row) qs os := by
  have hall := Decides.all_placed hj hqs hjoins
  have hsome := Decides.any_placed hj hqs hjoins
  have hany := Decides.any_placed hj hos hjoins
  cases qs with
  | nil =>
      cases os with
      | nil => cases hp
      | cons o os =>
          cases hp
          exact hany
  | cons q qs =>
      cases os with
      | nil =>
          cases hp
          cases operator with
          | and => exact hall
          | or => exact hsome
      | cons o os =>
          cases hp
          cases operator with
          | and => exact hall.and hany
          | or => exact hall.or hany

/-- An optional predicate restricts root rows to those with a property: it decides the
property if it is there, and otherwise all rows have it. -/
def Restricts (joins : List (Join E)) (xs : List (Placement E)) :
    Option Predicate → (Row → Prop) → Prop
  | none, property => ∀ row, property row
  | some p, property => Decides joins xs p property

/-- A specification selects the rows to which its predicate restricts, if there is one. -/
theorem Restricts.selectsRow_iff {s : Scope E} (hs : WellFormedJoins s.joins)
    {qs : List (Probe E)} {p : Option Predicate} {property : Row → Prop}
    (h : Restricts (s.openAll qs).joins (placements s.joins.length qs) p property) (row : Row) :
    Specification.selectsRow ⟨p, (s.openAll qs).joins⟩ row = true ↔ property row := by
  cases p with
  | none => exact iff_of_true rfl (h row)
  | some p => exact Decides.selects_iff hs h row

/-- The combination of the probes of a scope restricts to the rows for which the same
combination of findings holds. -/
theorem restricts_ofPlacements {joins : List (Join E)} {xs : List (Placement E)}
    (hj : WellFormedJoins joins) (operator : GroupOperator) {s : Scope E}
    {qs os : List (Probe E)} (hxs : ∀ x ∈ placements s.joins.length (qs ++ os), x ∈ xs)
    (hjoins : ∀ x ∈ xs, ∀ join ∈ x.joins, join ∈ joins) :
    Restricts joins xs
      (Predicate.ofPlacements operator (placements s.joins.length qs)
        (placements (s.openAll qs).joins.length os))
      fun row => Combines operator (fun q => q.Finds row) qs os := by
  rw [Scope.placements_append] at hxs
  have hqs := fun x hx => hxs x (List.mem_append_left _ hx)
  have hos := fun x hx => hxs x (List.mem_append_right _ hx)
  cases hp : Predicate.ofPlacements operator (placements s.joins.length qs)
      (placements (s.openAll qs).joins.length os) with
  | none =>
      cases qs with
      | cons q qs => cases os <;> cases hp
      | nil =>
          cases os with
          | cons o os => cases hp
          | nil => exact fun _ => trivial
  | some p => exact decides_ofPlacements hj operator hqs hos hjoins hp

/-- The combination of the bound probes of a scope selects the rows for which the same
combination of findings holds. -/
theorem selectsRow_ofPlacements_iff (operator : GroupOperator) (entity : E)
    (qs os : List (Probe E)) (row : Row) :
    Specification.selectsRow ⟨Predicate.ofPlacements operator (placements 0 qs)
        (placements ((Scope.new entity).openAll qs).joins.length os),
        (((Scope.new entity).openAll qs).openAll os).joins⟩ row = true ↔
      Combines operator (fun q => q.Finds row) qs os := by
  rw [← Scope.openAll_append]
  have hnew := Scope.wellFormed_new entity
  exact (restricts_ofPlacements (Scope.wellFormed_openAll hnew (qs ++ os)) operator
    (fun _ hx => hx) fun _ hx _ hjoin => Scope.mem_joins_openAll hx hjoin).selectsRow_iff hnew row

end EntityQuery
