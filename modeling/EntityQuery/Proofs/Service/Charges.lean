import EntityQuery.Proofs.Metrics.Entries
import EntityQuery.Proofs.Service.Accounting
import EntityQuery.Proofs.Table.Selection

/-!
# What a search or a count is charged

A search or a count passes through stages: its requests are checked, their criteria are
compiled, the order of a search is resolved, and the predicate is bound.  How far it gets
decides what it answers and what is counted, and nothing is counted twice: a refused
request costs nothing, a refused criterion one failure, and from then on the call, its plan
and either a mismatch or the rows are counted.

Main results:

- Definition `Inquiry`: what a call asks for.
- Definition `Inquiry.Reaches`: how far it gets.
- Definition `Stage.adds`: what is counted then.
- Theorem `Inquiry.Reaches.unique`: a call ends at one stage only.
- Theorem `Session.ordered_run`: the entries are in order behind every script.
- Theorem `Session.charges`: every search and every count is charged for its stage.
-/

namespace EntityQuery

open Metrics

variable {E K : Type}

/-! ## Inquiries -/

/-- What a search or a count asks for: the requests that have to be valid, what the rows are
selected by, and the page of a search. -/
structure Inquiry (E : Type) where
  requests : List Request
  compiled : Except CriterionError (Specification E × Option PageRequest)

/-- The fault of the first request that has one. -/
def Inquiry.fault? (q : Inquiry E) : Option RequestError :=
  q.requests.findSome? Request.fault?

namespace Service

/-- What a request asks for. -/
def inquiry (schema : Schema E) (s : Service E K) (r : Request) (page? : Option PageRequest) :
    Inquiry E :=
  ⟨[r], (Specification.ofRequest schema s.config s.entity r).map (·, page?)⟩

/-- What a search on top of defaults asks for. -/
def mergedInquiry (schema : Schema E) (s : Service E K) (search default : Request)
    (operator : GroupOperator) (page? : MergeSide → Option PageRequest) : Inquiry E :=
  ⟨[search, default], (s.mergedPredicates schema search default).map fun ((left, right), scope) =>
    (scope.finish (Predicate.merge operator left right), page? (pagingSide left right))⟩

end Service

/-- The entity of a search or a count, and what it asks for. -/
def Call.inquiry? (schema : Schema E) (service : E → Service E K) :
    Call E K → Option (E × Inquiry E)
  | .filter e r => some (e, (service e).inquiry schema r (some ((service e).pageRequest r)))
  | .filterWith e spec r => some (e, ⟨[r], .ok (spec, some ((service e).pageRequest r))⟩)
  | .filterMerged e search default operator =>
    some (e, (service e).mergedInquiry schema search default operator fun side =>
      some ((service e).pageRequest (Service.MergeSide.pick search default side)))
  | .count e r => some (e, (service e).inquiry schema r none)
  | .countSpecification e spec => some (e, ⟨[], .ok (spec.getD .unfiltered, none)⟩)
  | .countMerged e search default operator =>
    some (e, (service e).mergedInquiry schema search default operator fun _ => none)
  | _ => none

/-! ## Stages -/

/-- How far a search or a count gets, with what stops it or what it yields. -/
inductive Stage (E : Type) where
  | invalid (fault : RequestError)
  | uncompiled (fault : CriterionError)
  | unsorted (spec : Specification E) (fault : SortError)
  | mismatched (operation : Operation) (spec : Specification E) (fault : KindMismatch)
  | loaded (spec : Specification E) (page : Page Row)
  | counted (spec : Specification E) (total : Nat)

/-- The stage that an inquiry reaches.  The order of a search is resolved before the
predicate is bound, so it does not matter there whether the predicate can be bound. -/
inductive Inquiry.Reaches (schema : Schema E) (s : Service E K) (q : Inquiry E) : Stage E → Prop
  | invalid {fault : RequestError} (h : q.fault? = some fault) : Reaches schema s q (.invalid fault)
  | uncompiled {fault : CriterionError} (hvalid : q.fault? = none) (h : q.compiled = .error fault) :
      Reaches schema s q (.uncompiled fault)
  | unsorted {spec : Specification E} {page : PageRequest} {fault : SortError}
      (hvalid : q.fault? = none) (hcompiled : q.compiled = .ok (spec, some page))
      (h : SortKey.resolveEach schema s.entity page.order = .error fault) :
      Reaches schema s q (.unsorted spec fault)
  | unbound {spec : Specification E} {page : PageRequest} {keys : List SortKey}
      {fault : KindMismatch} (hvalid : q.fault? = none)
      (hcompiled : q.compiled = .ok (spec, some page))
      (hsorted : SortKey.resolveEach schema s.entity page.order = .ok keys)
      (h : spec.rowTest = .error fault) : Reaches schema s q (.mismatched .filter spec fault)
  | uncounted {spec : Specification E} {fault : KindMismatch} (hvalid : q.fault? = none)
      (hcompiled : q.compiled = .ok (spec, none)) (h : spec.rowTest = .error fault) :
      Reaches schema s q (.mismatched .count spec fault)
  | loaded {spec : Specification E} {request : PageRequest} {keys : List SortKey}
      {test : Row → Bool} {page : Page Row} (hvalid : q.fault? = none)
      (hcompiled : q.compiled = .ok (spec, some request))
      (hsorted : SortKey.resolveEach schema s.entity request.order = .ok keys)
      (hbound : spec.rowTest = .ok test)
      (h : s.table.page schema s.entity spec request = .ok page) :
      Reaches schema s q (.loaded spec page)
  | counted {spec : Specification E} {test : Row → Bool} {total : Nat}
      (hvalid : q.fault? = none) (hcompiled : q.compiled = .ok (spec, none))
      (hbound : spec.rowTest = .ok test) (h : s.table.count spec = .ok total) :
      Reaches schema s q (.counted spec total)

namespace Stage

/-- What a call answers that gets this far. -/
def result : Stage E → Except Failure (Page Row ⊕ Nat)
  | invalid fault => .error (.request fault)
  | uncompiled fault => .error (.criterion fault)
  | unsorted _ fault => .error (.selection (.sort fault))
  | mismatched _ _ fault => .error (.selection (.kind fault))
  | loaded _ page => .ok (.inl page)
  | counted _ total => .ok (.inr total)

/-- One call, and one plan: all rows are scanned exactly when there is no predicate. -/
def callAdds (operation : Operation) (spec : Specification E) : Counter → Nat
  | .calls operation' => if operation' = operation then 1 else 0
  | .plans .fullScan => if spec.predicate.isNone then 1 else 0
  | .plans .filtered => if spec.predicate.isNone then 0 else 1
  | _ => 0

/-- What is counted for a call that gets this far. -/
def adds : Stage E → Counter → Nat
  | invalid _, _ => 0
  | uncompiled _, counter => if counter = .compileFailures then 1 else 0
  | unsorted spec _, counter => callAdds .filter spec counter
  | mismatched operation spec _, counter =>
    callAdds operation spec counter + if counter = .typeMismatches then 1 else 0
  | loaded spec page, counter =>
    callAdds .filter spec counter + if counter = .rowsLoaded then page.items.length else 0
  | counted spec total, counter =>
    callAdds .count spec counter + if counter = .rowsCounted then total else 0

/-- What such a call reports. -/
def events (path : String) : Stage E → List Event
  | invalid _ => []
  | uncompiled _ => [.compileFailed path]
  | unsorted spec _ =>
    [.started .filter path, .planned (Service.planOf spec), .finished .filter path 0]
  | mismatched operation spec _ =>
    [.started operation path, .planned (Service.planOf spec), .typeMismatch path,
      .finished operation path 0]
  | loaded spec page =>
    [.started .filter path, .planned (Service.planOf spec),
      .finished .filter path page.items.length]
  | counted spec total =>
    [.started .count path, .planned (Service.planOf spec), .finished .count path total]

/-- The events are about the entity of the call or about none. -/
theorem path?_of_mem_events {path : String} {stage : Stage E} {e : Event}
    (h : e ∈ stage.events path) : e.path? = none ∨ e.path? = some path := by
  cases stage <;>
    simp only [events, List.mem_cons, List.not_mem_nil, or_false] at h <;>
    rcases h with rfl | rfl | rfl | rfl <;>
    simp [Event.path?]

/-- The start and the plan of a call add one call and one plan. -/
theorem adds_started_add_adds_planned (operation : Operation) (path : String)
    (spec : Specification E) (counter : Counter) :
    (Event.started operation path).adds counter +
      (Event.planned (Service.planOf spec)).adds counter = callAdds operation spec counter := by
  cases counter with
  | calls operation' => cases operation <;> cases operation' <;> rfl
  | plans kind =>
      unfold Service.planOf Specification.isUnfiltered
      cases kind <;> cases hscan : spec.predicate.isNone <;> simp [callAdds, hscan, Event.adds]
  | _ => rfl

/-- The events of a call add to each counter what is counted for its stage. -/
theorem tally_events (path : String) (stage : Stage E) (counter : Counter) :
    tally (stage.events path) counter = stage.adds counter := by
  cases stage with
  | invalid fault => rfl
  | uncompiled fault => cases counter <;> rfl
  | unsorted spec fault =>
      have hcall := adds_started_add_adds_planned .filter path spec counter
      have hend : (Event.finished .filter path 0).adds counter = 0 := by cases counter <;> rfl
      simp only [events, tally_cons, tally_nil, adds]
      omega
  | mismatched operation spec fault =>
      have hcall := adds_started_add_adds_planned operation path spec counter
      have hend : (Event.finished operation path 0).adds counter = 0 := by
        cases operation <;> cases counter <;> rfl
      have hmismatch : (Event.typeMismatch path).adds counter =
          if counter = .typeMismatches then 1 else 0 := by
        cases counter <;> rfl
      simp only [events, tally_cons, tally_nil, adds]
      omega
  | loaded spec page =>
      have hcall := adds_started_add_adds_planned .filter path spec counter
      have hend : (Event.finished .filter path page.items.length).adds counter =
          if counter = .rowsLoaded then page.items.length else 0 := by
        cases counter <;> rfl
      simp only [events, tally_cons, tally_nil, adds]
      omega
  | counted spec total =>
      have hcall := adds_started_add_adds_planned .count path spec counter
      have hend : (Event.finished .count path total).adds counter =
          if counter = .rowsCounted then total else 0 := by
        cases counter <;> rfl
      simp only [events, tally_cons, tally_nil, adds]
      omega

end Stage

/-! ## Calls of a service -/

namespace Inquiry

variable {schema : Schema E} {s : Service E K} {q : Inquiry E}

/-- An inquiry reaches one stage only: what leads to a stage excludes all others. -/
theorem Reaches.unique {a b : Stage E} (h : q.Reaches schema s a) (h' : q.Reaches schema s b) :
    a = b := by
  -- Different constructors disagree on one of their conditions, and equal ones agree on
  -- what the conditions name.
  cases h <;> cases h' <;> simp_all

/-- An answer and events are those of the stage that an inquiry reaches. -/
def Settles (schema : Schema E) (s : Service E K) (q : Inquiry E)
    (result : Except Failure (Page Row ⊕ Nat)) (events : List Event) : Prop :=
  ∃ stage, q.Reaches schema s stage ∧ result = stage.result ∧ events = stage.events (s.path schema)

theorem settles_invalid {fault : RequestError} (h : q.fault? = some fault) :
    q.Settles schema s (.error (.request fault)) [] :=
  ⟨_, .invalid h, rfl, rfl⟩

theorem settles_uncompiled {fault : CriterionError} (hvalid : q.fault? = none)
    (h : q.compiled = .error fault) :
    q.Settles schema s (.error (.criterion fault)) [.compileFailed (s.path schema)] :=
  ⟨_, .uncompiled hvalid h, rfl, rfl⟩

variable {spec : Specification E} {page : PageRequest}

/-- A search of a valid inquiry that compiles. -/
theorem settles_findPage (hvalid : q.fault? = none) (h : q.compiled = .ok (spec, some page)) :
    q.Settles schema s ((s.findPage schema spec page).result.map .inl)
      (s.findPage schema spec page).events := by
  rw [Service.findPage]
  cases hsorted : SortKey.resolveEach schema s.entity page.order with
  | error fault =>
      have hpage : s.table.page schema s.entity spec page = .error (.sort fault) := by
        rw [Table.page, hsorted]
      rw [hpage]
      exact ⟨_, .unsorted hvalid h hsorted, rfl, rfl⟩
  | ok keys =>
      cases hbound : spec.rowTest with
      | error fault =>
          have hpage : s.table.page schema s.entity spec page = .error (.kind fault) := by
            rw [Table.page, hsorted, Table.matching_eq, hbound]
            rfl
          rw [hpage]
          exact ⟨_, .unbound hvalid h hsorted hbound, rfl, rfl⟩
      | ok test =>
          have hpage := Table.page_of_rowTest (t := s.table) hbound hsorted
          rw [hpage]
          exact ⟨_, .loaded hvalid h hsorted hbound hpage, rfl, rfl⟩

/-- A count of a valid inquiry that compiles. -/
theorem settles_countSpecification (hvalid : q.fault? = none) (h : q.compiled = .ok (spec, none)) :
    q.Settles schema s ((s.countSpecification schema (some spec)).result.map .inr)
      (s.countSpecification schema (some spec)).events := by
  rw [Service.countSpecification, Option.getD_some]
  cases hbound : spec.rowTest with
  | error fault =>
      have hcount : s.table.count spec = .error (.kind fault) := by
        rw [Table.count, Table.matching_eq, hbound]
        rfl
      rw [hcount]
      exact ⟨_, .uncounted hvalid h hbound, rfl, rfl⟩
  | ok test =>
      have hcount := Table.count_of_rowTest (t := s.table) hbound
      rw [hcount]
      exact ⟨_, .counted hvalid h hbound hcount, rfl, rfl⟩

end Inquiry

namespace Service

variable {schema : Schema E} {s : Service E K} {r search default : Request} {α : Type}

theorem validated_of_fault {fault : RequestError} (h : r.fault? = some fault) :
    validated r = ⟨.error (.request fault), []⟩ := by
  rw [validated, Request.validate, h]
  rfl

theorem validated_of_valid (h : r.fault? = none) : validated r = ⟨.ok (), []⟩ := by
  rw [validated, Request.validate, h]
  rfl

/-- What follows the specification of a request settles what the request asks for, if it
does so for every specification. -/
theorem settles_specification {page? : Option PageRequest} {yield : α → Page Row ⊕ Nat}
    {f : Specification E → Traced (Except Failure α)}
    (hf : ∀ q : Inquiry E, ∀ spec, q.fault? = none → q.compiled = .ok (spec, page?) →
      q.Settles schema s ((f spec).result.map yield) (f spec).events) :
    (s.inquiry schema r page?).Settles schema s
      (((s.specification schema r).andThen f).result.map yield)
      ((s.specification schema r).andThen f).events := by
  have hfaults : (s.inquiry schema r page?).fault? = r.fault? := by
    rw [Inquiry.fault?, inquiry, List.findSome?_singleton]
  have hcompiled : (s.inquiry schema r page?).compiled =
      (Specification.ofRequest schema s.config s.entity r).map (·, page?) := rfl
  rw [specification]
  cases hfault : r.fault? with
  | some fault =>
      rw [validated_of_fault hfault]
      exact Inquiry.settles_invalid (hfaults.trans hfault)
  | none =>
      rw [validated_of_valid hfault]
      cases hspec : Specification.ofRequest schema s.config s.entity r with
      | error fault =>
          rw [hspec] at hcompiled
          exact Inquiry.settles_uncompiled (hfaults.trans hfault) hcompiled
      | ok spec =>
          rw [hspec] at hcompiled
          exact hf _ spec (hfaults.trans hfault) hcompiled

/-- So it is for a search on top of defaults. -/
theorem settles_mergedSpecification {operator : GroupOperator}
    {page? : MergeSide → Option PageRequest} {yield : α → Page Row ⊕ Nat}
    {f : Specification E × MergeSide → Traced (Except Failure α)}
    (hf : ∀ q : Inquiry E, ∀ spec side, q.fault? = none → q.compiled = .ok (spec, page? side) →
      q.Settles schema s ((f (spec, side)).result.map yield) (f (spec, side)).events) :
    (s.mergedInquiry schema search default operator page?).Settles schema s
      (((s.mergedSpecification schema search default operator).andThen f).result.map yield)
      ((s.mergedSpecification schema search default operator).andThen f).events := by
  have hfaults : (s.mergedInquiry schema search default operator page?).fault? =
      search.fault?.or default.fault? := by
    rw [Inquiry.fault?, mergedInquiry, List.findSome?_cons, List.findSome?_singleton]
    cases search.fault? <;> rfl
  have hcompiled : (s.mergedInquiry schema search default operator page?).compiled =
      (s.mergedPredicates schema search default).map fun ((left, right), scope) =>
        (scope.finish (Predicate.merge operator left right), page? (pagingSide left right)) := rfl
  rw [mergedSpecification]
  cases hfault : search.fault? with
  | some fault =>
      rw [validated_of_fault hfault]
      exact Inquiry.settles_invalid (hfaults.trans (by rw [hfault]; rfl))
  | none =>
      rw [validated_of_valid hfault]
      cases hfault' : default.fault? with
      | some fault =>
          rw [validated_of_fault hfault']
          exact Inquiry.settles_invalid (hfaults.trans (by rw [hfault, hfault']; rfl))
      | none =>
          rw [validated_of_valid hfault']
          have hvalid : (s.mergedInquiry schema search default operator page?).fault? = none :=
            hfaults.trans (by rw [hfault, hfault']; rfl)
          cases hmerged : s.mergedPredicates schema search default with
          | error fault =>
              rw [hmerged] at hcompiled
              exact Inquiry.settles_uncompiled hvalid hcompiled
          | ok merged =>
              obtain ⟨⟨left, right⟩, scope⟩ := merged
              rw [hmerged] at hcompiled
              exact hf _ _ _ hvalid hcompiled

/-- A search whose rows are shown in another form is reported like the search. -/
theorem filterAs_eq (view : Row → α) :
    s.filterAs schema view r =
      ⟨(s.filter schema r).result.map (·.map view), (s.filter schema r).events⟩ := by
  rw [filterAs, Traced.andThen]
  cases (s.filter schema r).result with
  | error fault => rfl
  | ok page => simp [Traced.silent, Except.map]

end Service

/-! ## Sessions -/

/-- The result of a search or a count in a reply. -/
def Reply.result? : Reply E → Option (Except Failure (Page Row ⊕ Nat))
  | .page result => some (result.map .inl)
  | .count result => some (result.map .inr)
  | _ => none

/-- The counters of all entities and those of one entity have grown, up to the largest
count, and no entry of another entity has changed. -/
structure Metrics.Counters.Charged (before after : Counters) (path : String)
    (adds : Counter → Nat) : Prop where
  totals : ∀ counter, (after.totals.get counter).toNat =
    min ((before.totals.get counter).toNat + adds counter) 0xFFFFFFFFFFFFFFFF
  entry : ∀ counter, counter.ofEntities = true →
    ((after.ofEntity path).get counter).toNat =
      min (((before.ofEntity path).get counter).toNat + adds counter) 0xFFFFFFFFFFFFFFFF
  others : ∀ p, p ≠ path → after.entity? p = before.entity? p
  ordered : after.entities.Ordered

/-- The events of a stage charge what is counted for it. -/
theorem Stage.charged {c : Counters} (h : c.entities.Ordered) (path : String) (stage : Stage E) :
    c.Charged (c.recordAll (stage.events path)) path stage.adds where
  totals counter := by rw [Counters.toNat_get_recordAll, tally_events]
  entry counter hcounter := by
    rw [Counters.toNat_get_of_recordAll h (fun e he => path?_of_mem_events he) hcounter,
      tally_events]
  others _ hp := Counters.entity?_recordAll_of_ne (fun e he => path?_of_mem_events he) hp
  ordered := Counters.ordered_recordAll h _

/-- Events keep the order of the entries, wherever they go. -/
theorem Metrics.Recorder.ordered_recordAll {r : Recorder} (h : r.counters.entities.Ordered)
    (es : List Event) : (r.recordAll es).counters.entities.Ordered := by
  induction es generalizing r with
  | nil => exact h
  | cons e es ih =>
      have hrecord : (r.record e).counters.entities.Ordered := by
        rw [Recorder.record]
        cases r.active with
        | none => exact Counters.ordered_record h e
        | some sink => exact h
      exact ih hrecord

namespace Session

variable [DecidableEq E] [DecidableEq K]

/-- A call keeps the order of the entries. -/
theorem ordered_perform (schema : Schema E) {s : Session E K}
    (h : s.recorder.counters.entities.Ordered) (c : Call E K) :
    (s.perform schema c).2.recorder.counters.entities.Ordered := by
  cases c with
  | reset => exact List.Pairwise.nil
  | _ => first | exact h | exact Recorder.ordered_recordAll h _

/-- The entries are in order behind every script, from a session on whose entries are, such
as a new one. -/
theorem ordered_run (schema : Schema E) {s : Session E K}
    (h : s.recorder.counters.entities.Ordered) (p : Script E K) :
    (p.run schema s).2.recorder.counters.entities.Ordered := by
  induction p generalizing s with
  | done => exact h
  | call c next ih => exact ih (ordered_perform schema h c)
  | tick now next ih => exact ih (s := s.setClock now) h
  | within sink body next ihbody ihnext => exact ihnext (ihbody h)

/-- A search or a count settles what it asks for and changes nothing but the recorder. -/
theorem exists_settled (schema : Schema E) (s : Session E K) {c : Call E K} {e : E}
    {q : Inquiry E} (h : c.inquiry? schema s.service = some (e, q)) :
    ∃ result events, (s.perform schema c).1.result? = some result ∧
      (s.perform schema c).2 = { s with recorder := s.recorder.recordAll events } ∧
      q.Settles schema (s.service e) result events := by
  cases c with
  | filter e r =>
      cases h
      exact ⟨_, _, rfl, rfl, Service.settles_specification fun q spec hvalid hcompiled =>
        Inquiry.settles_findPage hvalid hcompiled⟩
  | filterWith e spec r =>
      cases h
      refine ⟨_, _, rfl, rfl, ?_⟩
      have hfaults : Inquiry.fault? ⟨[r], .ok (spec, some ((s.service e).pageRequest r))⟩ =
          r.fault? := by
        rw [Inquiry.fault?, List.findSome?_singleton]
      rw [Service.filterWith]
      cases hfault : r.fault? with
      | some fault =>
          rw [Service.validated_of_fault hfault]
          exact Inquiry.settles_invalid (hfaults.trans hfault)
      | none =>
          rw [Service.validated_of_valid hfault]
          exact Inquiry.settles_findPage (hfaults.trans hfault) rfl
  | filterMerged e search default operator =>
      cases h
      exact ⟨_, _, rfl, rfl, Service.settles_mergedSpecification
        fun q spec side hvalid hcompiled => Inquiry.settles_findPage hvalid hcompiled⟩
  | count e r =>
      cases h
      exact ⟨_, _, rfl, rfl, Service.settles_specification fun q spec hvalid hcompiled =>
        Inquiry.settles_countSpecification hvalid hcompiled⟩
  | countSpecification e spec =>
      cases h
      exact ⟨_, _, rfl, rfl, Inquiry.settles_countSpecification rfl rfl⟩
  | countMerged e search default operator =>
      cases h
      exact ⟨_, _, rfl, rfl, Service.settles_mergedSpecification
        fun q spec side hvalid hcompiled => Inquiry.settles_countSpecification hvalid hcompiled⟩
  | _ => cases h

/-- Every search and every count reaches one stage and answers what belongs to it.  It is
charged for this stage, to all entities together and to its own entity, and a request that
is not valid changes no counter.  Showing the rows of a search in another form is charged
like the search and yields the same page of them, in a session as outside of it. -/
theorem charges (schema : Schema E) {s : Session E K} (hactive : s.recorder.active = none)
    (hordered : s.recorder.counters.entities.Ordered) :
    (∀ (c : Call E K) (e : E) (q : Inquiry E), c.inquiry? schema s.service = some (e, q) →
      ∃! stage, q.Reaches schema (s.service e) stage ∧
        (s.perform schema c).1.result? = some stage.result ∧
        s.recorder.counters.Charged (s.perform schema c).2.recorder.counters
          ((s.service e).path schema) stage.adds ∧
        ∀ fault, stage = .invalid fault →
          (s.perform schema c).2.recorder.counters = s.recorder.counters) ∧
    (∀ {α : Type} (e : E) (view : Row → α) (r : Request)
        (reply : Except Failure (Page α) → Reply E),
      (s.answer ((s.service e).filterAs schema view r) reply).2 =
        (s.perform schema (.filter e r)).2 ∧
      ((s.service e).filterAs schema view r).result =
        ((s.service e).filter schema r).result.map (·.map view)) ∧
    ∀ (e : E) (view : Row → Row) (r : Request),
      s.perform schema (.filterAs e view r) =
        (.page (((s.service e).filter schema r).result.map (·.map view)),
          (s.perform schema (.filter e r)).2) := by
  refine ⟨?_, ?_, ?_⟩
  · intro c e q hq
    obtain ⟨result, events, hreply, hsession, stage, hreaches, rfl, rfl⟩ :=
      exists_settled schema s hq
    have hcounters : (s.perform schema c).2.recorder.counters =
        s.recorder.counters.recordAll (stage.events ((s.service e).path schema)) := by
      rw [hsession]
      exact Recorder.counters_recordAll hactive _
    refine ⟨stage, ⟨hreaches, hreply, ?_, ?_⟩, fun other hother => hother.1.unique hreaches⟩
    · rw [hcounters]
      exact Stage.charged hordered _ stage
    · rintro fault rfl
      exact hcounters
  · intro α e view r reply
    rw [Service.filterAs_eq]
    exact ⟨rfl, rfl⟩
  · intro e view r
    have hperform : s.perform schema (.filterAs e view r) =
        s.answer ((s.service e).filterAs schema view r) .page := rfl
    rw [hperform, Service.filterAs_eq]
    rfl

/-- A page of one of two books is charged for one row, and the entry of the authors, of whom
one has been saved, stays as it is. -/
theorem charges_books :
    let book : Entity Bool := ⟨"book", "Book", "id", [⟨"year", .int⟩], []⟩
    let author : Entity Bool := ⟨"author", "Author", "id", [], [⟨"books", true, .many⟩]⟩
    let schema : Schema Bool := ⟨fun isBook => if isBook then book else author⟩
    let row (id : Int64) : Row := .mk [("id", .int id)] []
    let s := (((Session.new schema {} 0).load true [row 1, row 2]).perform schema
      (.create false (row 1))).2
    let ask : Call Bool := .filter true { page := 0, size := 1 }
    let after := (s.perform schema ask).2.recorder.counters
    s.recorder.active = none ∧ s.recorder.counters.entities.Ordered ∧
    (∃ stage e q, ask.inquiry? schema s.service = some (e, q) ∧
      q.Reaches schema (s.service e) stage ∧ stage.adds .rowsLoaded = 1 ∧
      stage.adds (.plans .fullScan) = 1) ∧
    after.entity? "author" = s.recorder.counters.entity? "author" := by
  intro book author schema row s ask after
  have hempty : ((Session.new schema {} 0).load true
      [row 1, row 2]).recorder.counters.entities.Ordered := List.Pairwise.nil
  have hordered : s.recorder.counters.entities.Ordered :=
    ordered_run schema hempty (.ofCalls [.create false (row 1)])
  obtain ⟨hcharges, -⟩ := charges schema (s := s) rfl hordered
  obtain ⟨stage, ⟨hreaches, -, hcharged, -⟩, -⟩ := hcharges ask true _ rfl
  have hrows := hcharged.totals .rowsLoaded
  have hplans := hcharged.totals (.plans .fullScan)
  have hbefore : (s.recorder.counters.totals.get .rowsLoaded).toNat = 0 ∧
      (s.recorder.counters.totals.get (.plans .fullScan)).toNat = 0 := by decide +kernel
  have hafter : (after.totals.get .rowsLoaded).toNat = 1 ∧
      (after.totals.get (.plans .fullScan)).toNat = 1 := by decide +kernel
  rw [hbefore.1, hafter.1] at hrows
  rw [hbefore.2, hafter.2] at hplans
  exact ⟨rfl, hordered, ⟨stage, true, _, rfl, hreaches, by omega, by omega⟩,
    hcharged.others "author" (by decide)⟩

end Session

end EntityQuery
