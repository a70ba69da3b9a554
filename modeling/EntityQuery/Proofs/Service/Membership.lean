import EntityQuery.Proofs.Criteria.Membership
import EntityQuery.Proofs.Criteria.Opposites
import EntityQuery.Proofs.Service.Mismatches

/-!
# Requests for membership

A service answers a request that is valid, compiles and binds with the rows of its table
that the request selects.  A request for membership in a list of values is answered
exactly when the requests for equality with each of the values are, and with the union of
their rows.

Main results:

- Definition `Service.Yields`: the rows that a service answers a request with.
- Theorem `exists_yields_asking_iff`: when a request of a single criterion is answered.
- Theorem `membership_is_union`: membership yields the union of what equality yields.
-/

namespace EntityQuery

variable {E K : Type} {schema : Schema E} {s : Service E K} {r : Request} {rows : List Row}

/-- The request with a single criterion in place of its criteria and alternatives. -/
def Request.asking (r : Request) (c : Criterion) : Request :=
  { r with criteria := [c], orCriteria := [] }

theorem Request.asks_asking (r : Request) (c : Criterion) : (r.asking c).Asks c :=
  rfl

namespace Service

/-! ## Answered requests -/

/-- The request has a specification, and these are the rows of the table that it
selects. -/
def Yields (schema : Schema E) (s : Service E K) (r : Request) (rows : List Row) : Prop :=
  ∃ spec, (s.specification schema r).result = .ok spec ∧ s.table.matching spec = .ok rows

/-- A request has a specification when it is valid and compiles. -/
theorem result_specification_iff {spec : Specification E} :
    (s.specification schema r).result = .ok spec ↔
      r.validate = .ok () ∧ Specification.ofRequest schema s.config s.entity r = .ok spec := by
  cases hvalid : r.validate with
  | error fault =>
      have hrefused : (validated r).result = .error (.request fault) := by
        rw [validated, hvalid]
        rfl
      simp [specification, Traced.andThen, hrefused]
  | ok _ =>
      have hvalidated : (validated r).result = .ok () := by
        rw [validated, hvalid]
        rfl
      rw [specification, Traced.result_andThen hvalidated]
      cases hspec : Specification.ofRequest schema s.config s.entity r <;>
        simp [compiled, Traced.silent]

/-- The rows that a request yields are those that pass its test. -/
theorem yields_iff : s.Yields schema r rows ↔ r.validate = .ok () ∧
    ∃ test, r.Runs schema s.config s.entity test ∧ s.table.rows.filter test = rows := by
  constructor
  · rintro ⟨spec, hspec, hrows⟩
    obtain ⟨hvalid, hcompiled⟩ := result_specification_iff.mp hspec
    rw [Table.matching_eq] at hrows
    obtain ⟨test, htest, hfilter⟩ := exists_of_map_eq_ok hrows
    exact ⟨hvalid, test, ⟨spec, hcompiled, htest⟩, hfilter⟩
  · rintro ⟨hvalid, test, ⟨spec, hcompiled, htest⟩, rfl⟩
    exact ⟨spec, result_specification_iff.mpr ⟨hvalid, hcompiled⟩,
      Table.matching_of_rowTest htest⟩

/-! ## Requests of a single criterion -/

section Single

variable {c : Criterion}

/-- A request of a single criterion is answered when it sorts by no blank column and the
criterion compiles and binds. -/
theorem exists_yields_asking_iff : (∃ rows, s.Yields schema (r.asking c) rows) ↔
    (∀ d ∈ r.sort, Text.isBlankText d.column = false) ∧
      ∃ q, c.Seeks schema s.config.escape s.entity q := by
  constructor
  · rintro ⟨rows, hrows⟩
    obtain ⟨hvalid, test, htest, -⟩ := yields_iff.mp hrows
    exact ⟨(Request.validate_eq_ok_iff.mp hvalid).2.2,
      (r.asks_asking c).exists_runs_iff.mp ⟨test, htest⟩⟩
  · rintro ⟨hsort, q, hq⟩
    obtain ⟨test, htest⟩ := (r.asks_asking c).exists_runs_iff.mpr ⟨q, hq⟩
    obtain ⟨raw, hprobe, -⟩ := hq
    have hcompiles : ∀ d ∈ (r.asking c).criteria ++ (r.asking c).orCriteria,
        d.Compiles schema s.config.escape s.entity := by
      intro d hd
      rw [r.asks_asking c, List.mem_singleton] at hd
      rw [hd]
      exact Criterion.compiles_iff.mpr ⟨raw, hprobe⟩
    exact ⟨_, yields_iff.mpr
      ⟨Request.validate_of_compiles hcompiles hsort, test, htest, rfl⟩⟩

/-- The rows that a request of a single criterion yields are those of the table that the
criterion finds something for. -/
theorem Yields.mem_iff (h : s.Yields schema (r.asking c) rows) {row : Row} :
    row ∈ rows ↔ row ∈ s.table.rows ∧ c.Finds schema s.config.escape s.entity row := by
  obtain ⟨-, test, htest, rfl⟩ := yields_iff.mp h
  rw [List.mem_filter, (r.asks_asking c).test_iff htest]

end Single

/-! ## Membership -/

/-- A request for membership in values is answered exactly when every request for equality
with one of them is.  Then it yields rows of the table, in their order, and of these
exactly the ones that some request for equality yields. -/
theorem membership_is_union (schema : Schema E) (s : Service E K) (r : Request) (column : String)
    (values : List RawValue) (hvalues : values ≠ []) :
    ((∃ rows, s.Yields schema (r.asking ⟨column, .isIn, values⟩) rows) ↔
      ∀ raw ∈ values, ∃ rows, s.Yields schema (r.asking ⟨column, .equals, [raw]⟩) rows) ∧
    ∀ rows, s.Yields schema (r.asking ⟨column, .isIn, values⟩) rows →
      rows.Sublist s.table.rows ∧ ∀ row, row ∈ rows ↔ ∃ raw ∈ values, ∃ part,
        s.Yields schema (r.asking ⟨column, .equals, [raw]⟩) part ∧ row ∈ part := by
  have hanswered : (∃ rows, s.Yields schema (r.asking ⟨column, .isIn, values⟩) rows) ↔
      ∀ raw ∈ values, ∃ rows, s.Yields schema (r.asking ⟨column, .equals, [raw]⟩) rows := by
    simp only [exists_yields_asking_iff]
    rw [Criterion.exists_seeks_isIn_iff hvalues]
    constructor
    · rintro ⟨hsort, hseeks⟩ raw hraw
      exact ⟨hsort, hseeks raw hraw⟩
    · intro h
      obtain ⟨raw, hraw⟩ := List.exists_mem_of_ne_nil values hvalues
      exact ⟨(h raw hraw).1, fun raw hraw => (h raw hraw).2⟩
  refine ⟨hanswered, fun rows hrows => ⟨?_, fun row => ?_⟩⟩
  · obtain ⟨-, test, -, rfl⟩ := yields_iff.mp hrows
    exact List.filter_sublist
  · obtain ⟨-, q, hq⟩ := exists_yields_asking_iff.mp ⟨rows, hrows⟩
    rw [hrows.mem_iff, Criterion.finds_isIn_iff hq hvalues]
    constructor
    · rintro ⟨hrow, raw, hraw, hfinds⟩
      obtain ⟨part, hpart⟩ := hanswered.mp ⟨rows, hrows⟩ raw hraw
      exact ⟨raw, hraw, part, hpart, hpart.mem_iff.mpr ⟨hrow, hfinds⟩⟩
    · rintro ⟨raw, hraw, part, hpart, hmem⟩
      obtain ⟨hrow, hfinds⟩ := hpart.mem_iff.mp hmem
      exact ⟨hrow, raw, hraw, hfinds⟩

/-- An author with a draft among the books, where the draft state is asked for by its name,
by its place and by its name again. -/
theorem membership_is_union_books :
    let state : FieldKind := .enum ⟨"State", ["DRAFT", "PRINTED"]⟩
    let book : Entity Bool := ⟨"book", "Book", "id", [⟨"state", state⟩, ⟨"before", state⟩], []⟩
    let author : Entity Bool := ⟨"author", "Author", "id", [], [⟨"books", true, .many⟩]⟩
    let schema : Schema Bool := ⟨fun isBook => if isBook then book else author⟩
    let printed : List (String × Value) := [("state", .enum ⟨1, "PRINTED"⟩)]
    let row : Row := .mk [] [("books", [.mk printed [],
      .mk (("before", .enum ⟨0, "DRAFT"⟩) :: printed) []])]
    let s : Service Bool Int64 :=
      ⟨false, {}, ⟨(·.key "id"), [.mk [] [("books", [.mk printed []])], row, .mk [] []]⟩⟩
    let ask : Operator → List RawValue → Request := fun operator values =>
      Request.asking { page := 0 } ⟨"books.state, before", operator, values⟩
    let values : List RawValue := [.text "DRAFT", .int 0, .text "DRAFT"]
    ∃ rows, s.Yields schema (ask .isIn values) rows ∧ row ∈ rows ∧
      (∀ raw ∈ values, ∃ part, s.Yields schema (ask .equals [raw]) part) ∧
      ∃ raw ∈ values, ∃ part, s.Yields schema (ask .equals [raw]) part ∧ row ∈ part := by
  intro state book author schema printed row s ask values
  have hselects : (ask .isIn values).Selects schema s.config s.entity row := by
    decide +kernel
  obtain ⟨test, htest, hyes⟩ := hselects
  have hyields : s.Yields schema (ask .isIn values) (s.table.rows.filter test) :=
    yields_iff.mpr ⟨Request.validate_eq_ok_iff.mpr (by decide +kernel), test, htest, rfl⟩
  have hmem : row ∈ s.table.rows.filter test := List.mem_filter.mpr ⟨by simp [s], hyes⟩
  obtain ⟨hanswered, hrows⟩ := membership_is_union schema s { page := 0 } "books.state, before"
    values (by simp [values])
  exact ⟨_, hyields, hmem, hanswered.mp ⟨_, hyields⟩, ((hrows _ hyields).2 row).mp hmem⟩

end Service

end EntityQuery
