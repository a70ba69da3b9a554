import EntityQuery.Proofs.Criteria.Requests
import EntityQuery.Service.Basic

/-!
# A search on top of defaults

Two requests are merged by compiling both into one scope, each under its own operator,
and combining the two predicates under a third.  The rows selected are those that the
same combination of the two requests' own selections asks for; a request without
criteria does not take part.

Main results:

- Definition `Merges`: the combination of two requests' selections.
- Theorem `Restricts.merge`: merged predicates restrict to the combination.
- Theorem `Service.exists_mergedPredicates`: two requests that run are merged.
- Theorem `Service.merged_combination`: what merged requests select, count and page.
-/

namespace EntityQuery

variable {E K : Type}

/-! ## Combinations of two selections -/

/-- The combination of two selections under an operator; one without criteria does not
take part. -/
def Merges (operator : GroupOperator) (hasLeft hasRight : Bool) (left right : Prop) : Prop :=
  match hasLeft, hasRight with
  | true, true =>
    match operator with
    | .and => left ∧ right
    | .or => left ∨ right
  | true, false => left
  | false, true => right
  | false, false => True

instance (operator : GroupOperator) (hasLeft hasRight : Bool) (left right : Prop)
    [Decidable left] [Decidable right] :
    Decidable (Merges operator hasLeft hasRight left right) := by
  cases hasLeft <;> cases hasRight <;> cases operator <;> unfold Merges <;> infer_instance

/-- Merged predicates are bound one after the other. -/
theorem Predicate.bindOptional_merge (operator : GroupOperator) (left right : Option Predicate) :
    bindOptional (merge operator left right) =
      match bindOptional left with
      | .error e => .error e
      | .ok bound => (bindOptional right).map (merge operator bound) := by
  cases left with
  | none =>
      simp only [merge]
      cases right with
      | none => rfl
      | some right =>
          simp only [bindOptional]
          cases right.bind <;> rfl
  | some left =>
      cases right with
      | none =>
          simp only [merge, bindOptional]
          cases left.bind <;> rfl
      | some right =>
          simp only [merge, bindOptional, bind_combine]
          cases left.bind with
          | error e => rfl
          | ok bound => cases right.bind <;> rfl

/-- Merged predicates restrict to the rows for which the combination of what they restrict
to holds. -/
theorem Restricts.merge {joins : List (Join E)} {xs : List (Placement E)}
    {left right : Option Predicate} {m n : Row → Prop} (hl : Restricts joins xs left m)
    (hr : Restricts joins xs right n) (operator : GroupOperator) :
    Restricts joins xs (Predicate.merge operator left right)
      fun row => Merges operator left.isSome right.isSome (m row) (n row) := by
  cases left with
  | none =>
      cases right with
      | none => exact fun _ => trivial
      | some right => exact hr
  | some left =>
      cases right with
      | none => exact hl
      | some right =>
          cases operator with
          | and => exact Decides.and hl hr
          | or => exact Decides.or hl hr

/-! ## Requests with probes -/

/-- The combination of probes that are placed in a scope. -/
def Scope.combined (s : Scope E) (operator : GroupOperator) (qs os : List (Probe E)) :
    Option Predicate :=
  Predicate.ofPlacements operator (placements s.joins.length qs)
    (placements (s.openAll qs).joins.length os)

/-- There is a combination as soon as there is a probe. -/
theorem Scope.isSome_combined (s : Scope E) (operator : GroupOperator) (qs os : List (Probe E)) :
    (s.combined operator qs os).isSome = (!qs.isEmpty || !os.isEmpty) := by
  cases qs <;> cases os <;> rfl

/-- The criteria and alternatives of a request have probes, and these are bound. -/
structure Request.Probed (schema : Schema E) (config : Config) (root : E) (r : Request)
    (qs os bqs bos : List (Probe E)) : Prop where
  criteria : Criterion.probes schema config.escape root r.criteria = .ok qs
  alternatives : Criterion.probes schema config.escape root r.orCriteria = .ok os
  criteria_bind : Probe.bindEach qs = .ok bqs
  alternatives_bind : Probe.bindEach os = .ok bos

namespace Request

variable {schema : Schema E} {config : Config} {root : E} {r : Request}

/-- The operator that combines the criteria of a request with its alternatives. -/
def operator (config : Config) (r : Request) : GroupOperator :=
  r.criteriaOperator.getD config.defaultOperator

/-- A request that runs has probes. -/
theorem exists_probed (h : ∃ test, r.Runs schema config root test) :
    ∃ qs os bqs bos, r.Probed schema config root qs os bqs bos := by
  obtain ⟨test, htest⟩ := h
  obtain ⟨qs, os, bqs, bos, hqs, hos, hbqs, hbos, -⟩ := runs_iff.mp htest
  exact ⟨qs, os, bqs, bos, hqs, hos, hbqs, hbos⟩

namespace Probed

variable {qs os bqs bos : List (Probe E)}

/-- In any scope of the entity the request asks for the combination of its probes. -/
theorem requestPredicate_eq {s : Scope E} (h : r.Probed schema config s.root qs os bqs bos) :
    s.requestPredicate schema config r =
      (.ok (s.combined (r.operator config) qs os), s.openAll (qs ++ os)) := by
  rw [Scope.requestPredicate_of_probes h.criteria h.alternatives, Scope.openAll_append]
  rfl

/-- Binding leaves the joins of the probes. -/
theorem openAll_eq (h : r.Probed schema config root qs os bqs bos) (s : Scope E) :
    s.openAll (qs ++ os) = s.openAll (bqs ++ bos) := by
  rw [Scope.openAll_append, Scope.openAll_append, Scope.openAll_of_bindEach h.criteria_bind,
    Scope.openAll_of_bindEach h.alternatives_bind]

/-- Binding the combination of the probes gives that of the bound probes. -/
theorem bindOptional_combined (h : r.Probed schema config root qs os bqs bos) (s : Scope E)
    (operator : GroupOperator) :
    Predicate.bindOptional (s.combined operator qs os) = .ok (s.combined operator bqs bos) := by
  rw [Scope.combined, Predicate.bindOptional_ofPlacements, h.criteria_bind, h.alternatives_bind,
    Scope.combined, Scope.openAll_of_bindEach h.criteria_bind]
  rfl

/-- There is a combination of the probes exactly when the request has criteria. -/
theorem isSome_combined (h : r.Probed schema config root qs os bqs bos) (s : Scope E)
    (operator : GroupOperator) : (s.combined operator qs os).isSome = r.hasCriteria := by
  rw [Scope.isSome_combined, isEmpty_of_collect h.criteria, isEmpty_of_collect h.alternatives]
  rfl

/-- There is a combination of the bound probes exactly when the request has criteria. -/
theorem isSome_combined_bound (h : r.Probed schema config root qs os bqs bos) (s : Scope E)
    (operator : GroupOperator) : (s.combined operator bqs bos).isSome = r.hasCriteria := by
  rw [← h.isSome_combined s operator, Scope.isSome_combined, Scope.isSome_combined,
    isEmpty_of_collect h.criteria_bind, isEmpty_of_collect h.alternatives_bind]

/-- The request selects the rows for which the combination of what its bound probes find
holds. -/
theorem selects_iff (h : r.Probed schema config root qs os bqs bos) {row : Row} :
    r.Selects schema config root row ↔
      Combines (r.operator config) (fun q => q.Finds row) bqs bos := by
  have hruns : r.Runs schema config root _ := runs_iff.mpr
    ⟨qs, os, bqs, bos, h.criteria, h.alternatives, h.criteria_bind, h.alternatives_bind, rfl⟩
  rw [hruns.selects_iff, selectsRow_ofPlacements_iff]
  rfl

end Probed

/-- A request without criteria selects all rows. -/
theorem selects_of_not_hasCriteria (schema : Schema E) (config : Config) (root : E)
    (h : r.hasCriteria = false) (row : Row) : r.Selects schema config root row := by
  obtain ⟨hcriteria, halternatives⟩ : r.criteria = [] ∧ r.orCriteria = [] := by
    simpa [hasCriteria] using h
  have hprobed : r.Probed schema config root [] [] [] [] := by
    refine ⟨?_, ?_, rfl, rfl⟩
    · rw [hcriteria]
      rfl
    · rw [halternatives]
      rfl
  exact hprobed.selects_iff.mpr trivial

end Request

/-! ## Merging -/

/-- A result is handed on to what follows it. -/
theorem Traced.result_andThen {α β ε : Type} {t : Traced (Except ε α)} {a : α}
    (h : t.result = .ok a) (f : α → Traced (Except ε β)) :
    (t.andThen f).result = (f a).result := by
  rw [andThen, h]

namespace Service

variable {schema : Schema E} {s : Service E K} {search default : Request}

/-- Requests that run are merged: there is a predicate for each that has criteria, and
the merged ones select the combination of what each request selects alone. -/
theorem exists_mergedPredicates (operator : GroupOperator)
    (hsearch : ∃ test, search.Runs schema s.config s.entity test)
    (hdefault : ∃ test, default.Runs schema s.config s.entity test) :
    ∃ left right scope test,
      s.mergedPredicates schema search default = .ok ((left, right), scope) ∧
      left.isSome = search.hasCriteria ∧ right.isSome = default.hasCriteria ∧
      (scope.finish (Predicate.merge operator left right)).rowTest = .ok test ∧
      ∀ row, test row = true ↔ Merges operator search.hasCriteria default.hasCriteria
        (search.Selects schema s.config s.entity row)
        (default.Selects schema s.config s.entity row) := by
  obtain ⟨qs, os, bqs, bos, h⟩ := Request.exists_probed hsearch
  obtain ⟨qs', os', bqs', bos', h'⟩ := Request.exists_probed hdefault
  -- The search opens its joins in a new scope, the defaults open theirs behind them.
  let start : Scope E := .new s.entity
  let middle : Scope E := start.openAll (bqs ++ bos)
  let last : Scope E := middle.openAll (bqs' ++ bos')
  let op := search.operator s.config
  let op' := default.operator s.config
  let merged := Predicate.merge operator (start.combined op bqs bos)
    (middle.combined op' bqs' bos')
  have hmerged : s.mergedPredicates schema search default =
      .ok ((start.combined op qs os, middle.combined op' qs' os'), last) := by
    have hleft := h.requestPredicate_eq (s := start)
    have hright := h'.requestPredicate_eq (s := middle)
    rw [h.openAll_eq] at hleft
    rw [h'.openAll_eq] at hright
    rw [mergedPredicates, hleft]
    simp only [middle] at hright
    simp only [hright]
    rfl
  have htest : (last.finish (Predicate.merge operator (start.combined op qs os)
      (middle.combined op' qs' os'))).rowTest =
        .ok (Specification.selectsRow ⟨merged, last.joins⟩) := by
    rw [Specification.rowTest_eq, Scope.finish, Predicate.bindOptional_merge,
      h.bindOptional_combined, h'.bindOptional_combined]
    rfl
  refine ⟨_, _, last, _, hmerged, h.isSome_combined .., h'.isSome_combined .., htest, ?_⟩
  intro row
  let xs := placements start.joins.length ((bqs ++ bos) ++ (bqs' ++ bos'))
  have hlast : last = start.openAll ((bqs ++ bos) ++ (bqs' ++ bos')) :=
    (Scope.openAll_append ..).symm
  have hxs : xs = placements start.joins.length (bqs ++ bos) ++
      placements middle.joins.length (bqs' ++ bos') := Scope.placements_append ..
  have hjoins : ∀ x ∈ xs, ∀ join ∈ x.joins, join ∈ last.joins := by
    intro x hx join hjoin
    rw [hlast]
    exact Scope.mem_joins_openAll hx hjoin
  have hnew : WellFormedJoins start.joins := Scope.wellFormed_new s.entity
  have hj : WellFormedJoins last.joins := by
    rw [hlast]
    exact Scope.wellFormed_openAll hnew _
  have hleft : Restricts last.joins xs (start.combined op bqs bos) fun row =>
      Combines op (fun q => q.Finds row) bqs bos := by
    refine restricts_ofPlacements hj op (fun x hx => ?_) hjoins
    rw [hxs]
    exact List.mem_append_left _ hx
  have hright : Restricts last.joins xs (middle.combined op' bqs' bos') fun row =>
      Combines op' (fun q => q.Finds row) bqs' bos' := by
    refine restricts_ofPlacements hj op' (fun x hx => ?_) hjoins
    rw [hxs]
    exact List.mem_append_right _ hx
  have hboth := hleft.merge hright operator
  rw [h.isSome_combined_bound, h'.isSome_combined_bound, hlast] at hboth
  rw [h.selects_iff, h'.selects_iff, hlast]
  exact hboth.selectsRow_iff hnew row

/-! ## Calls -/

/-- Tracing an operation changes nothing but the kind of its failures. -/
theorem result_traced {α : Type} (operation : Metrics.Operation) (spec : Specification E)
    (rows : α → Nat) (result : Except SelectionError α) :
    (s.traced schema operation spec rows result).result = result.mapError .selection := by
  cases result <;> rfl

/-- The defaults decide about page and order when they alone restrict the rows. -/
theorem pagingSide_eq (left right : Option Predicate) :
    pagingSide left right =
      if left.isSome = false ∧ right.isSome = true then .default else .search := by
  cases left <;> cases right <;> rfl

/-- Whether a search on top of defaults selects a row. -/
def MergedSelects (schema : Schema E) (s : Service E K) (search default : Request)
    (operator : GroupOperator) (row : Row) : Prop :=
  Merges operator search.hasCriteria default.hasCriteria
    (search.Selects schema s.config s.entity row) (default.Selects schema s.config s.entity row)

instance (schema : Schema E) (s : Service E K) (search default : Request)
    (operator : GroupOperator) (row : Row) :
    Decidable (s.MergedSelects schema search default operator row) := by
  unfold MergedSelects
  infer_instance

/-- A search and defaults that are valid and run alone are merged, whatever the rows, the
configuration and the operator.  The merged specification selects, and counting counts,
the rows that the combination of both selects; page and order are those of the defaults
when they alone have criteria, and those of the search otherwise.  A request without
criteria selects all rows. -/
theorem merged_combination (schema : Schema E) (s : Service E K) {search default : Request}
    (hvalid : search.validate = .ok ()) (hvalid' : default.validate = .ok ())
    (hsearch : ∃ test, search.Runs schema s.config s.entity test)
    (hdefault : ∃ test, default.Runs schema s.config s.entity test) (operator : GroupOperator) :
    (∃ spec,
      (s.mergedSpecification schema search default operator).result =
        .ok (spec, if search.hasCriteria = false ∧ default.hasCriteria = true then .default
          else .search) ∧
      (spec.rowTest = .ok fun row => s.MergedSelects schema search default operator row) ∧
      (s.countMerged schema search default operator).result =
        .ok (s.table.rows.filter fun row =>
          s.MergedSelects schema search default operator row).length ∧
      (s.filterMerged schema search default operator).result =
        (s.table.page schema s.entity spec (s.pageRequest
          (if search.hasCriteria = false ∧ default.hasCriteria = true then default
            else search))).mapError .selection) ∧
    ∀ r : Request, r.hasCriteria = false → ∀ row, r.Selects schema s.config s.entity row := by
  obtain ⟨left, right, scope, test, hmerged, hleft, hright, htest, hiff⟩ :=
    exists_mergedPredicates operator hsearch hdefault
  have hspec : (s.mergedSpecification schema search default operator).result =
      .ok (scope.finish (Predicate.merge operator left right), pagingSide left right) := by
    rw [mergedSpecification, Traced.result_andThen (a := ()) (by rw [validated, hvalid]; rfl),
      Traced.result_andThen (a := ()) (by rw [validated, hvalid']; rfl), hmerged]
    rfl
  have hselected : test = fun row =>
      decide (s.MergedSelects schema search default operator row) := by
    funext row
    rw [Bool.eq_iff_iff, decide_eq_true_iff]
    exact hiff row
  rw [hselected] at htest
  rw [pagingSide_eq, hleft, hright] at hspec
  refine ⟨⟨_, hspec, htest, ?_, ?_⟩, fun r h => r.selects_of_not_hasCriteria _ _ _ h⟩
  · rw [countMerged, Traced.result_andThen hspec]
    dsimp only
    rw [countSpecification, result_traced, Option.getD_some, Table.count_of_rowTest htest]
    rfl
  · rw [filterMerged, Traced.result_andThen hspec]
    dsimp only
    rw [findPage, result_traced]
    split <;> rfl

/-- Of three authors the first two have a book of the title sought, and the last two one
of the years that the defaults ask for. -/
theorem merged_combination_books :
    let book : Entity Bool := ⟨"book", "Book", "id", [⟨"title", .text⟩, ⟨"year", .int⟩], []⟩
    let author : Entity Bool := ⟨"author", "Author", "id", [], [⟨"books", true, .many⟩]⟩
    let schema : Schema Bool := ⟨fun isBook => if isBook then book else author⟩
    let search : Request := {
      page := 3, criteria := [⟨"books.title", .contain, [.text "EM"]⟩] }
    let default : Request := {
      page := 0
      criteriaOperator := some .or
      criteria := [⟨"books.year", .lesserThan, [.int 1815]⟩]
      orCriteria := [⟨"books.year", .equals, [.text "1817"]⟩] }
    let row (title : String) (years : List Int64) : Row := .mk [] [("books",
      years.map fun year => .mk [("title", .text title), ("year", .int year)] [])]
    let s : Service Bool Int64 := ⟨false, {}, ⟨(·.key "id"),
      [row "Emma" [1815], row "Emma" [1815, 1817], row "Persuasion" [1817]]⟩⟩
    search.validate = .ok () ∧ default.validate = .ok () ∧
      (s.countMerged schema search default .and).result = .ok 1 ∧
      (s.countMerged schema search default .or).result = .ok 3 := by
  intro book author schema search default row s
  have hvalid : search.validate = .ok () := rfl
  have hvalid' : default.validate = .ok () := rfl
  have hrow : search.Selects schema {} false (row "Emma" [1815, 1817]) := by decide +kernel
  have hrow' : default.Selects schema {} false (row "Emma" [1815, 1817]) := by decide +kernel
  obtain ⟨test, hsearch, -⟩ := hrow
  obtain ⟨test', hdefault, -⟩ := hrow'
  have hmerged := merged_combination schema s hvalid hvalid' ⟨test, hsearch⟩ ⟨test', hdefault⟩
  obtain ⟨⟨-, -, -, hand, -⟩, -⟩ := hmerged .and
  obtain ⟨⟨-, -, -, hor, -⟩, -⟩ := hmerged .or
  refine ⟨hvalid, hvalid', ?_, ?_⟩
  · rw [hand]
    congr 1
    decide +kernel
  · rw [hor]
    congr 1
    decide +kernel

end Service

end EntityQuery
