import EntityQuery.Proofs.Criteria.Combination

/-!
# Requests as combinations of criteria

A request runs exactly when each of its criteria runs alone, and the rows it selects
are found by combining, row by row, what its criteria select alone.  It makes no
difference that all criteria share one list of joins and one predicate.

Main results:

- Definition `Request.Runs`: what a request asks of root rows.
- Theorem `requestPredicate_of_probes`: the predicate of a request in terms of probes.
- Theorem `Request.Runs.test_iff`: the selected rows in terms of what criteria find.
- Theorem `Request.runs_combination`: the same in terms of requests of one criterion.
-/

namespace EntityQuery

variable {E : Type}

/-! ## Running a request -/

/-- A request compiles and binds, and this is what it asks of root rows. -/
def Request.Runs (schema : Schema E) (config : Config) (root : E) (r : Request)
    (test : Row → Bool) : Prop :=
  ∃ spec, Specification.ofRequest schema config root r = .ok spec ∧ spec.rowTest = .ok test

/-- A request runs and selects a root row. -/
def Request.Selects (schema : Schema E) (config : Config) (root : E) (r : Request)
    (row : Row) : Prop :=
  ∃ test, r.Runs schema config root test ∧ test row = true

/-- What a request asks of root rows, if it compiles and binds. -/
def Request.rowTest? (schema : Schema E) (config : Config) (root : E) (r : Request) :
    Option (Row → Bool) :=
  (Specification.ofRequest schema config root r).toOption.bind fun spec => spec.rowTest.toOption

/-- What a request asks can be computed. -/
theorem Request.runs_iff_rowTest?_eq {schema : Schema E} {config : Config} {root : E}
    {r : Request} {test : Row → Bool} :
    r.Runs schema config root test ↔ r.rowTest? schema config root = some test := by
  unfold Runs rowTest?
  cases Specification.ofRequest schema config root r with
  | error e => simp [Except.toOption]
  | ok spec => cases h : spec.rowTest <;> simp [Except.toOption, h]

instance (schema : Schema E) (config : Config) (root : E) (r : Request) (row : Row) :
    Decidable (r.Selects schema config root row) :=
  decidable_of_iff ((r.rowTest? schema config root).any (· row) = true) <| by
    simp [Request.Selects, Request.runs_iff_rowTest?_eq, Option.any_eq_true]

/-- A request that runs selects the rows that pass its test. -/
theorem Request.Runs.selects_iff {schema : Schema E} {config : Config} {root : E} {r : Request}
    {test : Row → Bool} (h : r.Runs schema config root test) {row : Row} :
    r.Selects schema config root row ↔ test row = true := by
  constructor
  · rintro ⟨test', htest', hyes⟩
    rw [runs_iff_rowTest?_eq] at h htest'
    rw [h, Option.some.injEq] at htest'
    rw [htest']
    exact hyes
  · exact fun hyes => ⟨test, h, hyes⟩

/-- The request of a single criterion. -/
def Request.only (c : Criterion) : Request := { page := 0, criteria := [c] }

/-! ## The predicate of a request -/

variable {schema : Schema E} {config : Config} {root : E} {r : Request}

namespace Scope

variable {s : Scope E}

/-- A request whose criteria have probes asks for the combination of the probes. -/
theorem requestPredicate_of_probes {qs os : List (Probe E)}
    (hqs : Criterion.probes schema config.escape s.root r.criteria = .ok qs)
    (hos : Criterion.probes schema config.escape s.root r.orCriteria = .ok os) :
    s.requestPredicate schema config r =
      (.ok (Predicate.ofPlacements (r.criteriaOperator.getD config.defaultOperator)
        (placements s.joins.length qs) (placements (s.openAll qs).joins.length os)),
        (s.openAll qs).openAll os) := by
  have hall := compileEach_of_probes (s := s) hqs
  have hany := compileEach_of_probes (s := s.openAll qs) hos
  have hlen := length_of_collect hqs
  have hlen' := length_of_collect hos
  unfold requestPredicate
  generalize r.criteriaOperator.getD config.defaultOperator = operator
  generalize r.criteria = cs at *
  generalize r.orCriteria = cs' at *
  cases cs with
  | nil =>
      rw [List.length_nil, List.length_eq_zero_iff] at hlen
      subst hlen
      rw [openAll_nil] at hany ⊢
      cases cs' with
      | nil =>
          rw [List.length_nil, List.length_eq_zero_iff] at hlen'
          subst hlen'
          rw [openAll_nil]
          rfl
      | cons c' cs' =>
          cases os with
          | nil => cases hlen'
          | cons o os =>
              simp only [anyOf, hany, List.isEmpty_nil, List.isEmpty_cons, Bool.false_eq_true,
                if_false, Except.map]
              rfl
  | cons c cs =>
      cases qs with
      | nil => cases hlen
      | cons q qs =>
          cases cs' with
          | nil =>
              rw [List.length_nil, List.length_eq_zero_iff] at hlen'
              subst hlen'
              rw [openAll_nil]
              cases operator <;>
                simp only [groupOf, allOf, anyOf, hall, List.isEmpty_nil, List.isEmpty_cons,
                  Bool.false_eq_true, if_false, Except.map] <;>
                rfl
          | cons c' cs' =>
              cases os with
              | nil => cases hlen'
              | cons o os =>
                  simp only [allOf, anyOf, hall, hany, List.isEmpty_cons, Bool.false_eq_true,
                    if_false, Except.map]
                  rfl

/-- A criterion without a probe stops the compilation of a request. -/
theorem requestPredicate_of_probes_error {fault : CriterionError}
    (h : Criterion.probes schema config.escape s.root r.criteria = .error fault) :
    (s.requestPredicate schema config r).1 = .error fault := by
  have hall := compileEach_of_probes_error (s := s) h
  unfold requestPredicate
  generalize r.criteriaOperator.getD config.defaultOperator = operator
  generalize r.criteria = cs at *
  cases cs with
  | nil => cases h
  | cons c cs =>
      cases hcompile : s.compileEach schema config.escape (c :: cs) with
      | mk result s' =>
          rw [hcompile] at hall
          cases hall
          cases r.orCriteria <;> cases operator <;>
            simp [groupOf, allOf, anyOf, hcompile, Except.map]

/-- An alternative without a probe stops the compilation of a request. -/
theorem requestPredicate_of_probes_error' {qs : List (Probe E)} {fault : CriterionError}
    (hqs : Criterion.probes schema config.escape s.root r.criteria = .ok qs)
    (h : Criterion.probes schema config.escape s.root r.orCriteria = .error fault) :
    (s.requestPredicate schema config r).1 = .error fault := by
  have hall := compileEach_of_probes (s := s) hqs
  have hany := compileEach_of_probes_error (s := s.openAll qs) h
  have hlen := length_of_collect hqs
  unfold requestPredicate
  generalize r.criteriaOperator.getD config.defaultOperator = operator
  generalize r.criteria = cs at *
  generalize r.orCriteria = cs' at *
  cases cs' with
  | nil => cases h
  | cons c' cs' =>
      cases hcompile : (s.openAll qs).compileEach schema config.escape (c' :: cs') with
      | mk result s' =>
          rw [hcompile] at hany
          cases hany
          cases cs with
          | nil =>
              rw [List.length_nil, List.length_eq_zero_iff] at hlen
              subst hlen
              rw [openAll_nil] at hcompile
              simp [anyOf, hcompile, Except.map]
          | cons c cs => simp [allOf, anyOf, hall, hcompile, Except.map]

end Scope

/-! ## Criteria that compile and bind -/

/-- A criterion compiles and binds, and this is what it looks for. -/
def Criterion.Seeks (schema : Schema E) (escape : Char) (root : E) (c : Criterion)
    (q : Probe E) : Prop :=
  ∃ raw, c.probe schema escape root = .ok raw ∧ raw.bind = .ok q

/-- A criterion finds something for a root row. -/
def Criterion.Finds (schema : Schema E) (escape : Char) (root : E) (c : Criterion)
    (row : Row) : Prop :=
  ∃ q, c.Seeks schema escape root q ∧ q.Finds row

namespace Criterion

variable {escape : Char} {c : Criterion} {q : Probe E}

/-- A criterion looks for one thing. -/
theorem Seeks.unique {q' : Probe E} (h : c.Seeks schema escape root q)
    (h' : c.Seeks schema escape root q') : q = q' := by
  obtain ⟨raw, hraw, hq⟩ := h
  obtain ⟨raw', hraw', hq'⟩ := h'
  rw [hraw, Except.ok.injEq] at hraw'
  rw [← hraw', hq, Except.ok.injEq] at hq'
  exact hq'

/-- A criterion finds what its probe finds. -/
theorem Seeks.finds_iff (h : c.Seeks schema escape root q) {row : Row} :
    c.Finds schema escape root row ↔ q.Finds row := by
  constructor
  · rintro ⟨q', hq', hfinds⟩
    rw [h.unique hq']
    exact hfinds
  · intro hfinds
    exact ⟨q, h, hfinds⟩

/-- The bound probes of criteria are what the criteria look for. -/
theorem matched_probes {cs : List Criterion} {qs bound : List (Probe E)}
    (hqs : probes schema escape root cs = .ok qs) (hbound : Probe.bindEach qs = .ok bound) :
    Matched (Seeks schema escape root) cs bound :=
  (matched_collect hqs).trans (matched_collect hbound)

/-- Criteria that each compile and bind have bound probes. -/
theorem exists_probes {cs : List Criterion}
    (h : ∀ c ∈ cs, ∃ q, c.Seeks schema escape root q) :
    ∃ qs bound, probes schema escape root cs = .ok qs ∧ Probe.bindEach qs = .ok bound := by
  obtain ⟨qs, hqs⟩ : ∃ qs, probes schema escape root cs = .ok qs := by
    apply exists_collect
    intro c hc
    obtain ⟨-, raw, hraw, -⟩ := h c hc
    exact ⟨raw, hraw⟩
  obtain ⟨bound, hbound⟩ : ∃ bound, Probe.bindEach qs = .ok bound := by
    apply exists_collect
    intro raw hraw
    obtain ⟨c, hc, hprobe⟩ := (matched_collect hqs).back raw hraw
    obtain ⟨q, raw', hprobe', hq⟩ := h c hc
    rw [hprobe, Except.ok.injEq] at hprobe'
    rw [hprobe']
    exact ⟨q, hq⟩
  exact ⟨qs, bound, hqs, hbound⟩

end Criterion

namespace Request

/-- A request runs when its criteria and alternatives have bound probes, and asks for
the combination of them. -/
theorem runs_iff {test : Row → Bool} :
    r.Runs schema config root test ↔ ∃ qs os bqs bos,
      Criterion.probes schema config.escape root r.criteria = .ok qs ∧
      Criterion.probes schema config.escape root r.orCriteria = .ok os ∧
      Probe.bindEach qs = .ok bqs ∧ Probe.bindEach os = .ok bos ∧
      test = Specification.selectsRow
        ⟨Predicate.ofPlacements (r.criteriaOperator.getD config.defaultOperator)
          (placements 0 bqs) (placements ((Scope.new root).openAll bqs).joins.length bos),
          (((Scope.new root).openAll bqs).openAll bos).joins⟩ := by
  unfold Runs Specification.ofRequest
  cases hqs : Criterion.probes schema config.escape root r.criteria with
  | error e =>
      have herror := Scope.requestPredicate_of_probes_error (s := Scope.new root) hqs
      cases hpredicate : (Scope.new root).requestPredicate schema config r with
      | mk result s =>
          rw [hpredicate] at herror
          cases herror
          simp [Except.map]
  | ok qs =>
      cases hos : Criterion.probes schema config.escape root r.orCriteria with
      | error e =>
          have herror := Scope.requestPredicate_of_probes_error' (s := Scope.new root) hqs hos
          cases hpredicate : (Scope.new root).requestPredicate schema config r with
          | mk result s =>
              rw [hpredicate] at herror
              cases herror
              simp [Except.map]
      | ok os =>
          rw [Scope.requestPredicate_of_probes (s := Scope.new root) hqs hos]
          simp only [Except.map, Scope.finish, Except.ok.injEq, exists_eq_left',
            rowTest_ofPlacements]
          cases hbqs : Probe.bindEach qs with
          | error e => simp [hbqs]
          | ok bqs =>
              cases hbos : Probe.bindEach os with
              | error e => simp [hbos]
              | ok bos =>
                  rw [← Scope.openAll_of_bindEach hbqs, ← Scope.openAll_of_bindEach hbos]
                  simp [hbqs, hbos, Scope.new, eq_comm]

/-- A request runs exactly when each of its criteria compiles and binds. -/
theorem exists_runs_iff :
    (∃ test, r.Runs schema config root test) ↔
      ∀ c ∈ r.criteria ++ r.orCriteria, ∃ q, c.Seeks schema config.escape root q := by
  constructor
  · rintro ⟨test, htest⟩ c hc
    obtain ⟨qs, os, bqs, bos, hqs, hos, hbqs, hbos, -⟩ := runs_iff.mp htest
    rcases List.mem_append.mp hc with hc | hc
    · obtain ⟨q, -, hq⟩ := (Criterion.matched_probes hqs hbqs).forth c hc
      exact ⟨q, hq⟩
    · obtain ⟨q, -, hq⟩ := (Criterion.matched_probes hos hbos).forth c hc
      exact ⟨q, hq⟩
  · intro h
    obtain ⟨qs, bqs, hqs, hbqs⟩ := Criterion.exists_probes
      fun c hc => h c (List.mem_append_left _ hc)
    obtain ⟨os, bos, hos, hbos⟩ := Criterion.exists_probes
      fun c hc => h c (List.mem_append_right _ hc)
    exact ⟨_, runs_iff.mpr ⟨qs, os, bqs, bos, hqs, hos, hbqs, hbos, rfl⟩⟩

/-- A request that runs selects the rows for which the combination of what its criteria
find holds. -/
theorem Runs.test_iff {test : Row → Bool} (h : r.Runs schema config root test) (row : Row) :
    test row = true ↔ Combines (r.criteriaOperator.getD config.defaultOperator)
      (fun c => c.Finds schema config.escape root row) r.criteria r.orCriteria := by
  obtain ⟨qs, os, bqs, bos, hqs, hos, hbqs, hbos, rfl⟩ := runs_iff.mp h
  rw [selectsRow_ofPlacements_iff]
  exact ((Criterion.matched_probes hqs hbqs).combines_iff _
    (Criterion.matched_probes hos hbos) fun c q hq => hq.finds_iff).symm

/-- The request of a single criterion runs when the criterion compiles and binds. -/
theorem exists_runs_only_iff {c : Criterion} :
    (∃ test, (only c).Runs schema config root test) ↔
      ∃ q, c.Seeks schema config.escape root q := by
  rw [exists_runs_iff]
  simp [only]

/-- A request with a single criterion selects the rows that the criterion finds something
for. -/
theorem selects_iff_of_single {c : Criterion} (hcriteria : r.criteria = [c])
    (halternatives : r.orCriteria = []) {row : Row} :
    r.Selects schema config root row ↔ c.Finds schema config.escape root row := by
  have hsingle : ∀ test, r.Runs schema config root test →
      (r.Selects schema config root row ↔ c.Finds schema config.escape root row) := by
    intro test htest
    rw [htest.selects_iff, htest.test_iff row, hcriteria, halternatives]
    cases r.criteriaOperator.getD config.defaultOperator <;> simp [Combines]
  constructor
  · intro hselects
    obtain ⟨test, htest, -⟩ := id hselects
    exact (hsingle test htest).mp hselects
  · intro hfinds
    obtain ⟨q, hq, -⟩ := id hfinds
    obtain ⟨test, htest⟩ : ∃ test, r.Runs schema config root test := by
      rw [exists_runs_iff, hcriteria, halternatives]
      simpa using ⟨q, hq⟩
    exact (hsingle test htest).mpr hfinds

/-- The request of a single criterion selects the rows that the criterion finds
something for. -/
theorem selects_only_iff {c : Criterion} {row : Row} :
    (only c).Selects schema config root row ↔ c.Finds schema config.escape root row :=
  selects_iff_of_single rfl rfl

/-- Requests with the same criteria and alternatives, in any order and however often, run
alike. -/
theorem Runs.of_same_criteria {r' : Request} {test : Row → Bool}
    (h : r.Runs schema config root test) (hoperator : r'.criteriaOperator = r.criteriaOperator)
    (hcs : ∀ c, c ∈ r'.criteria ↔ c ∈ r.criteria)
    (hos : ∀ c, c ∈ r'.orCriteria ↔ c ∈ r.orCriteria) : r'.Runs schema config root test := by
  have hseeks : ∀ c ∈ r'.criteria ++ r'.orCriteria, ∃ q, c.Seeks schema config.escape root q := by
    intro c hc
    apply exists_runs_iff.mp ⟨test, h⟩
    rw [List.mem_append, hcs, hos, ← List.mem_append] at hc
    exact hc
  obtain ⟨test', htest'⟩ := exists_runs_iff.mpr hseeks
  have hsame : test' = test := by
    funext row
    apply Bool.eq_iff_iff.mpr
    rw [htest'.test_iff row, h.test_iff row, hoperator]
    exact (Matched.of_mem_iff hcs).combines_iff _ (Matched.of_mem_iff hos)
      fun c c' hc => by rw [hc]
  rw [← hsame]
  exact htest'

/-- A request runs exactly when each of its criteria runs alone, and then it selects the
rows for which the combination of its criteria's own selections holds.  Order and
repetition inside a group make no difference. -/
theorem runs_combination (schema : Schema E) (config : Config) (root : E) (r : Request) :
    ((∃ test, r.Runs schema config root test) ↔
      ∀ c ∈ r.criteria ++ r.orCriteria, ∃ test, (only c).Runs schema config root test) ∧
    (∀ test, r.Runs schema config root test → ∀ row, test row = true ↔
      Combines (r.criteriaOperator.getD config.defaultOperator)
        (fun c => (only c).Selects schema config root row) r.criteria r.orCriteria) ∧
    ∀ r' : Request, r'.criteriaOperator = r.criteriaOperator →
      (∀ c, c ∈ r'.criteria ↔ c ∈ r.criteria) → (∀ c, c ∈ r'.orCriteria ↔ c ∈ r.orCriteria) →
      ∀ test, r'.Runs schema config root test ↔ r.Runs schema config root test := by
  refine ⟨?_, ?_, ?_⟩
  · rw [exists_runs_iff]
    constructor
    · exact fun h c hc => exists_runs_only_iff.mpr (h c hc)
    · exact fun h c hc => exists_runs_only_iff.mp (h c hc)
  · intro test htest row
    rw [htest.test_iff row]
    simp only [selects_only_iff]
  · intro r' hoperator hcs hos test
    constructor
    · exact fun h => h.of_same_criteria hoperator.symm (fun c => (hcs c).symm)
        fun c => (hos c).symm
    · exact fun h => h.of_same_criteria hoperator hcs hos

/-- Two criteria and an alternative about the books of an author, which no single book
fulfils. -/
theorem runs_combination_books :
    let book : Entity Bool := ⟨"book", "Book", "id", [⟨"title", .text⟩, ⟨"year", .int⟩], []⟩
    let author : Entity Bool := ⟨"author", "Author", "id", [], [⟨"books", true, .many⟩]⟩
    let schema : Schema Bool := ⟨fun isBook => if isBook then book else author⟩
    let r : Request := {
      page := 0
      criteria := [⟨"books.title", .equals, [.text "Emma"]⟩,
        ⟨"books.year", .greaterThan, [.int 1816]⟩]
      orCriteria := [⟨"books.title", .notContain, [.text "em"]⟩] }
    let row : Row := .mk [] [("books", [
      .mk [("title", .text "Emma"), ("year", .int 1815)] [],
      .mk [("title", .text "Persuasion"), ("year", .int 1817)] []])]
    r.Selects schema {} false row ∧
      Combines .and (fun c => (only c).Selects schema {} false row) r.criteria r.orCriteria := by
  intro book author schema r row
  have h : r.Selects schema {} false row := by decide +kernel
  obtain ⟨test, htest, hyes⟩ := id h
  exact ⟨h, ((runs_combination schema {} false r).2.1 test htest row).mp hyes⟩

end Request

end EntityQuery
