import EntityQuery.Proofs.Criteria.Spellings
import EntityQuery.Proofs.Join.Search
import EntityQuery.Proofs.Service.Membership

/-!
# Spellings in requests to a service

A number and its decimal text are two spellings of an integer.  For columns of integers, of
timestamps and of members of enumerations, it makes no difference to a service which of them a
request has: the service yields the same rows, or fails with the same failure.

Main results:

- Definition `Specification.Interchangeable`: specifications that select the same rows.
- Theorem `Specification.Interchangeable.matching_eq`: whatever rows the table has.
- Theorem `Service.parallel_specification`: what requests in different spellings search for.
- Theorem `Service.spellings_interchange`: spellings make no difference to a service.
-/

namespace EntityQuery

variable {E K : Type} {schema : Schema E} {s : Service E K}

/-! ## Specifications -/

namespace Specification

variable {spec spec' : Specification E}

/-- The specifications have the same joins and interchangeable predicates, if any. -/
structure Interchangeable (spec spec' : Specification E) : Prop where
  joins_eq : spec'.joins = spec.joins
  wellFormed : WellFormedJoins spec.joins
  predicate : Option.Rel Predicate.Interchangeable spec.predicate spec'.predicate

namespace Interchangeable

/-- Interchangeable specifications ask the same of root rows. -/
theorem rowTest_eq (h : spec.Interchangeable spec') : spec'.rowTest = spec.rowTest := by
  obtain ⟨p, joins⟩ := spec
  obtain ⟨p', joins'⟩ := spec'
  obtain ⟨hjoins, hj, hp⟩ := h
  cases hjoins
  cases hp with
  | none => rfl
  | some hp =>
      refine (Agree.eq (hp.map fun b b' _ _ hsame => ?_)).symm
      funext root
      rw [Bool.eq_iff_iff, selects_iff_exists_assignment hj, selects_iff_exists_assignment hj]
      simp only [hsame _]

/-- Interchangeable specifications select the same rows of a table, or are refused with the
same fault. -/
theorem matching_eq (h : spec.Interchangeable spec') (t : Table K) :
    t.matching spec' = t.matching spec := by
  rw [Table.matching_eq, Table.matching_eq, h.rowTest_eq]

/-- Interchangeable specifications look for rows in the same way. -/
theorem planOf_eq (h : spec.Interchangeable spec') :
    Service.planOf spec' = Service.planOf spec := by
  obtain ⟨p, joins⟩ := spec
  obtain ⟨p', joins'⟩ := spec'
  cases h.predicate <;> rfl

/-- The pages of interchangeable specifications are the same. -/
theorem findPage_eq (h : spec.Interchangeable spec') (page : PageRequest) :
    s.findPage schema spec' page = s.findPage schema spec page := by
  simp only [Service.findPage, Service.traced, Table.page, h.matching_eq, h.planOf_eq]

/-- The counts of interchangeable specifications are the same. -/
theorem countSpecification_eq (h : spec.Interchangeable spec') :
    s.countSpecification schema (some spec') = s.countSpecification schema (some spec) := by
  simp only [Service.countSpecification, Service.traced, Table.count, Option.getD_some,
    h.matching_eq, h.planOf_eq]

end Interchangeable

end Specification

/-! ## Results with events -/

namespace Traced

variable {ε α β : Type} {related : α → α → Prop} {related' : β → β → Prop}
  {t t' : Traced (Except ε α)}

/-- The results agree and come with the same events. -/
structure Parallel (related : α → α → Prop) (t t' : Traced (Except ε α)) : Prop where
  events_eq : t'.events = t.events
  agree : Agree related t.result t'.result

/-- Results that agree up to equality are equal, with their events. -/
theorem Parallel.eq (h : Parallel Eq t t') : t' = t := by
  obtain ⟨x, events⟩ := t
  obtain ⟨x', events'⟩ := t'
  obtain ⟨hevents, hagree⟩ := h
  rw [show events' = events from hevents, show x = x' from hagree.eq]

theorem Parallel.refl (t : Traced (Except ε α)) : Parallel Eq t t :=
  ⟨rfl, .refl (fun _ => rfl) _⟩

/-- Going on alike keeps results in agreement. -/
theorem Parallel.andThen {f g : α → Traced (Except ε β)} (h : Parallel related t t')
    (hnext : ∀ a a', related a a' → Parallel related' (f a) (g a')) :
    Parallel related' (t.andThen f) (t'.andThen g) := by
  obtain ⟨x, events⟩ := t
  obtain ⟨x', events'⟩ := t'
  obtain ⟨hevents, hagree⟩ := h
  cases hevents
  cases hagree with
  | error e => exact ⟨rfl, .error e⟩
  | ok ha =>
      have hrest := hnext _ _ ha
      exact ⟨congrArg (events ++ ·) hrest.events_eq, hrest.agree⟩

end Traced

/-! ## Requests -/

namespace Request

variable {root : E} {r r' : Request}

/-- Spelling does not change the columns of criteria. -/
theorem map_column_eq {cs cs' : List Criterion}
    (h : List.Forall₂ (Criterion.SameUpToSpelling schema root) cs cs') :
    cs'.map (·.column) = cs.map (·.column) := by
  induction h with
  | nil => rfl
  | cons hfirst _ ih =>
      have hcolumn := hfirst.elim (congrArg Criterion.column) (·.column_eq)
      rw [List.map_cons, List.map_cons, ih, hcolumn]

namespace SameUpToSpelling

/-- Spelling does not change the validity of a request. -/
theorem validate_eq (h : r.SameUpToSpelling schema root r') : r'.validate = r.validate := by
  simp only [validate, fault?, map_column_eq h.criteria, map_column_eq h.orCriteria, h.sort_eq]

/-- Spelling does not change the page that a request asks for. -/
theorem pageRequest_eq (h : r.SameUpToSpelling schema root r') :
    s.pageRequest r' = s.pageRequest r := by
  simp only [Service.pageRequest, PageRequest.ofRequest, normalizedSize, h.page_eq, h.size_eq,
    h.sort_eq]

/-- Requests that are the same up to spelling have interchangeable specifications, or are
refused with the same fault. -/
theorem agree_ofRequest (h : r.SameUpToSpelling schema root r') (config : Config) :
    Agree Specification.Interchangeable (Specification.ofRequest schema config root r)
      (Specification.ofRequest schema config root r') := by
  unfold Specification.ofRequest
  rcases (Scope.parallel_requestPredicate config (.new schema root) rfl h).cases with
    ⟨e, scope, hx, hy, -, -⟩ | ⟨p, p', scope, hx, hy, hp, hscope, -⟩
  · rw [hx, hy]
    exact .error e
  · rw [hx, hy]
    exact .ok ⟨rfl, hscope.wellFormed, hp⟩

end SameUpToSpelling

end Request

/-! ## Services -/

namespace Service

variable {r r' search search' default default' : Request}

/-- What is refused alike is reported alike. -/
theorem parallel_compiled {α : Type} {related : α → α → Prop} {x y : Except CriterionError α}
    (h : Agree related x y) : Traced.Parallel related (s.compiled schema x) (s.compiled schema y) := by
  cases h with
  | error e => exact ⟨rfl, .error _⟩
  | ok ha => exact ⟨rfl, .ok ha⟩

/-- Requests that are the same up to spelling search for interchangeable specifications. -/
theorem parallel_specification (h : r.SameUpToSpelling schema s.entity r') :
    Traced.Parallel Specification.Interchangeable (s.specification schema r)
      (s.specification schema r') := by
  rw [specification, specification, validated, validated, h.validate_eq]
  exact (Traced.Parallel.refl _).andThen fun _ _ _ => parallel_compiled (h.agree_ofRequest s.config)

/-- The predicates of a search and of defaults are interchangeable when both requests are the
same up to spelling. -/
theorem agree_mergedPredicates (hsearch : search.SameUpToSpelling schema s.entity search')
    (hdefault : default.SameUpToSpelling schema s.entity default') :
    Agree (fun x y => Option.Rel Predicate.Interchangeable x.1.1 y.1.1 ∧
        Option.Rel Predicate.Interchangeable x.1.2 y.1.2 ∧ y.2 = x.2 ∧ x.2.Sound schema)
      (s.mergedPredicates schema search default) (s.mergedPredicates schema search' default') := by
  unfold mergedPredicates
  rcases (Scope.parallel_requestPredicate s.config (.new schema s.entity) rfl hsearch).cases with
    ⟨e, scope, hx, hy, -, -⟩ | ⟨p, p', scope, hx, hy, hp, hscope, hroot⟩
  · rw [hx, hy]
    exact .error e
  · rw [hx, hy]
    dsimp only
    rcases (Scope.parallel_requestPredicate s.config hscope hroot hdefault).cases with
      ⟨e, scope', hx', hy', -, -⟩ | ⟨q, q', scope', hx', hy', hq, hscope', -⟩
    · rw [hx', hy']
      exact .error e
    · rw [hx', hy']
      exact .ok ⟨hp, hq, rfl, hscope'⟩

/-- A search on top of defaults searches for interchangeable specifications and takes the page
of the same side. -/
theorem parallel_mergedSpecification (operator : GroupOperator)
    (hsearch : search.SameUpToSpelling schema s.entity search')
    (hdefault : default.SameUpToSpelling schema s.entity default') :
    Traced.Parallel (fun x y => x.1.Interchangeable y.1 ∧ y.2 = x.2)
      (s.mergedSpecification schema search default operator)
      (s.mergedSpecification schema search' default' operator) := by
  unfold mergedSpecification validated
  rw [hsearch.validate_eq, hdefault.validate_eq]
  refine (Traced.Parallel.refl _).andThen fun _ _ _ => ?_
  refine (Traced.Parallel.refl _).andThen fun _ _ _ => ?_
  refine (parallel_compiled (agree_mergedPredicates hsearch hdefault)).andThen ?_
  rintro ⟨⟨left, right⟩, scope⟩ ⟨⟨left', right'⟩, _⟩ ⟨hleft, hright, rfl, hscope⟩
  refine ⟨rfl, .ok ⟨⟨rfl, hscope.wellFormed, ?_⟩, ?_⟩⟩
  · exact Predicate.Interchangeable.merge operator hleft hright
  · cases hleft <;> cases hright <;> rfl

/-- A service takes a number and its decimal text for the same integer wherever columns of
integers, timestamps or members of enumerations are asked for it.  Requests that differ in such
spellings yield the same rows, and the same pages and counts or the same failure, each with the
same events; and so do searches on top of defaults. -/
theorem spellings_interchange (schema : Schema E) (s : Service E K)
    (h : r.SameUpToSpelling schema s.entity r') :
    (∀ rows, s.Yields schema r' rows ↔ s.Yields schema r rows) ∧
    s.filter schema r' = s.filter schema r ∧ s.count schema r' = s.count schema r ∧
    ∀ (d d' : Request) (operator : GroupOperator), d.SameUpToSpelling schema s.entity d' →
      s.filterMerged schema r' d' operator = s.filterMerged schema r d operator ∧
      s.countMerged schema r' d' operator = s.countMerged schema r d operator := by
  have hspec := parallel_specification h
  refine ⟨fun rows => ?_, ?_, ?_, fun d d' operator hd => ?_⟩
  · refine (hspec.agree.exists_ok_iff fun spec spec' hsame => ?_).symm
    rw [hsame.matching_eq]
  · refine (hspec.andThen fun spec spec' hsame => ?_).eq
    rw [hsame.findPage_eq, h.pageRequest_eq]
    exact .refl _
  · refine (hspec.andThen fun spec spec' hsame => ?_).eq
    rw [hsame.countSpecification_eq]
    exact .refl _
  · have hmerged := parallel_mergedSpecification operator h hd
    constructor
    · refine (hmerged.andThen ?_).eq
      rintro ⟨spec, _⟩ ⟨spec', side⟩ ⟨hsame, rfl⟩
      have hpage : s.pageRequest (MergeSide.pick r' d' side) =
          s.pageRequest (MergeSide.pick r d side) := by
        cases side with
        | search => exact h.pageRequest_eq
        | default => exact hd.pageRequest_eq
      dsimp only
      rw [hsame.findPage_eq, hpage]
      exact .refl _
    · refine (hmerged.andThen ?_).eq
      rintro ⟨spec, _⟩ ⟨spec', side⟩ ⟨hsame, rfl⟩
      dsimp only
      rw [hsame.countSpecification_eq]
      exact .refl _

/-- Of the integers that years and states of books are sought among, 0 and 1 are places of
states and -5 is none. -/
theorem spellings_interchange_books :
    let state : FieldKind := .enum ⟨"State", ["DRAFT", "PRINTED"]⟩
    let book : Entity Bool := ⟨"book", "Book", "id",
      [⟨"title", .text⟩, ⟨"year", .int⟩, ⟨"state", state⟩], []⟩
    let author : Entity Bool := ⟨"author", "Author", "id", [], [⟨"books", true, .many⟩]⟩
    let schema : Schema Bool := ⟨fun isBook => if isBook then book else author⟩
    let emma : Row :=
      .mk [("title", .text "Emma"), ("year", .int 1815), ("state", .enum ⟨1, "PRINTED"⟩)] []
    let s : Service Bool Int64 :=
      ⟨false, {}, ⟨(·.key "id"), [.mk [] [("books", [emma])], .mk [] []]⟩⟩
    let asks : List RawValue → Request := fun values =>
      { page := 0
        criteria := [⟨"books.year, state", .isIn, values⟩, ⟨"books.title", .contain, [.text "m"]⟩] }
    let r := asks [.int 1, .text "0", .int 1]
    let r' := asks [.text "1", .int 0, .int 1]
    let wrong := asks [.int 1, .text "-5"]
    let wrong' := asks [.text "1", .int (-5)]
    (r.SameUpToSpelling schema s.entity r' ∧ s.filter schema r' = s.filter schema r ∧
      s.count schema r' = s.count schema r ∧ (s.count schema r').result.toOption = some 1) ∧
    (wrong.SameUpToSpelling schema s.entity wrong' ∧
      s.count schema wrong' = s.count schema wrong ∧
      (s.count schema wrong').result.toOption = none) := by
  intro state book author schema emma s asks r r' wrong wrong'
  have hkinds : ∀ values f, Criterion.Names schema false ⟨"books.year, state", .isIn, values⟩ f →
      f.kind.ReadsIntegers := by
    rintro values f ⟨path, rs, hpath, hfollow, hmem, hf⟩
    have hcolumn : Path.ofColumn? "books.year, state" = some ⟨["books"], ["year", "state"]⟩ := by
      decide +kernel
    rw [hcolumn, Option.some.injEq] at hpath
    subst hpath
    cases hfollow
    simp only [List.mem_cons, List.not_mem_nil, or_false] at hmem
    rcases hmem with hname | hname <;> rw [hname] at hf <;> cases hf <;> trivial
  have hread : ∀ n text, Text.int64Text n = text → RawValue.Respells (.text text) (.int n) := by
    rintro n _ rfl
    exact .read n
  have hwritten : ∀ n text, Text.int64Text n = text → RawValue.Respells (.int n) (.text text) := by
    rintro n _ rfl
    exact .written n
  have hasks : ∀ values values', List.Forall₂ RawValue.Respells values values' →
      (asks values).SameUpToSpelling schema false (asks values') := fun values values' h =>
    ⟨rfl, rfl, rfl, rfl, .cons (Or.inr ⟨rfl, rfl, h, hkinds values⟩) (.cons (Or.inl rfl) .nil), .nil⟩
  have hright : r.SameUpToSpelling schema s.entity r' :=
    hasks _ _ (.cons (hwritten 1 _ (by decide +kernel))
      (.cons (hread 0 _ (by decide +kernel)) (.cons (.same _) .nil)))
  have hwrong : wrong.SameUpToSpelling schema s.entity wrong' :=
    hasks _ _ (.cons (hwritten 1 _ (by decide +kernel))
      (.cons (hread (-5) _ (by decide +kernel)) .nil))
  obtain ⟨-, hfilter, hcount, -⟩ := spellings_interchange schema s hright
  obtain ⟨-, -, hcountWrong, -⟩ := spellings_interchange schema s hwrong
  exact ⟨⟨hright, hfilter, hcount, by decide +kernel⟩, hwrong, hcountWrong, by decide +kernel⟩

end Service

end EntityQuery
