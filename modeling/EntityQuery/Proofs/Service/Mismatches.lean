import EntityQuery.Proofs.Criteria.Refusal
import EntityQuery.Proofs.Service.Merging

/-!
# Counting with criteria that do not fit

A request whose criteria compile can still ask a field for what its kind does not have.
Counting then fails before any row is read, in one and the same way for every table.

Main results:

- Theorem `Path.isBlankText_of_ofColumn?`: a column with a path is not blank.
- Theorem `Request.exists_compiled`: the mismatches of a request whose criteria compile.
- Theorem `Table.count_eq`: counting fails as binding does.
- Theorem `Service.refusals`: what compilation and what binding refuses.
-/

namespace EntityQuery

/-! ## Columns with a path -/

/-- A text of blanks has no separator, so it is one piece and nothing is left of it. -/
theorem Path.pieces_of_isBlankText {separator : Char} {s : String}
    (hseparator : Text.isBlank separator = false) (h : Text.isBlankText s = true) :
    pieces separator s = [""] := by
  rw [Text.isBlankText, List.isEmpty_iff] at h
  have hblank := Text.trimChars_eq_nil_iff.mp h
  have hmem : separator ∉ s.toList := by
    intro hmem
    rw [hblank separator hmem] at hseparator
    cases hseparator
  simp [pieces, Text.split, Text.splitChars_of_not_mem hmem, Text.trim, h]

/-- A column with a path is not blank. -/
theorem Path.isBlankText_of_ofColumn? {column : String} {path : Path}
    (h : ofColumn? column = some path) : Text.isBlankText column = false := by
  rw [← Bool.not_eq_true]
  intro hblank
  rw [ofColumn?, pieces_of_isBlankText (by decide) hblank] at h
  have hfields : pieces fieldSeparator "" = [""] := pieces_of_isBlankText (by decide) rfl
  simp [ofPieces?, hfields] at h

/-! ## Requests whose criteria compile -/

variable {E K : Type} {schema : Schema E} {config : Config} {root : E} {r : Request}

namespace Criterion

variable {escape : Char} {c : Criterion}

/-- The criterion compiles for the rows of an entity. -/
def Compiles (schema : Schema E) (escape : Char) (root : E) (c : Criterion) : Prop :=
  ∃ p, ((Scope.new root).compile schema escape c).1 = .ok p

instance : Decidable (c.Compiles schema escape root) :=
  decidable_of_iff (((Scope.new root).compile schema escape c).1.isOk = true) <| by
    rw [Compiles]
    cases ((Scope.new root).compile schema escape c).1 <;> simp [Except.isOk, Except.toBool]

/-- A criterion compiles when it looks for something. -/
theorem compiles_iff : c.Compiles schema escape root ↔ ∃ q, c.probe schema escape root = .ok q := by
  constructor
  · rintro ⟨p, hp⟩
    obtain ⟨q, hq, -, -⟩ := Scope.exists_probe_of_compile (Prod.ext hp rfl)
    exact ⟨q, hq⟩
  · rintro ⟨q, hq⟩
    have hcompile := Scope.compile_of_probe (s := Scope.new root) hq
    rw [Compiles, hcompile]
    exact ⟨_, rfl⟩

/-- The column of a criterion that compiles is not blank. -/
theorem Compiles.isBlankText_column (h : c.Compiles schema escape root) :
    Text.isBlankText c.column = false := by
  obtain ⟨q, hq⟩ := compiles_iff.mp h
  obtain ⟨path, -, -, hpath, -⟩ := exists_of_probe hq
  exact Path.isBlankText_of_ofColumn? hpath

end Criterion

/-- Criteria that compile look for something each. -/
theorem Criterion.exists_probes_of_compiles {escape : Char} {cs : List Criterion}
    (h : ∀ c ∈ cs, c.Compiles schema escape root) :
    ∃ qs, Criterion.probes schema escape root cs = .ok qs :=
  exists_collect fun c hc => compiles_iff.mp (h c hc)

/-- A criterion of a list whose probes are bound looks for something that can be bound. -/
theorem Criterion.exists_bound_of_bindEach {escape : Char} {cs : List Criterion}
    {qs bound : List (Probe E)} (hqs : Criterion.probes schema escape root cs = .ok qs)
    (hbound : Probe.bindEach qs = .ok bound) {c : Criterion} (hc : c ∈ cs) {q : Probe E}
    (hq : c.probe schema escape root = .ok q) : ∃ b, q.bind = .ok b := by
  obtain ⟨b, -, q', hq', hb⟩ := (matched_probes hqs hbound).forth c hc
  rw [hq, Except.ok.injEq] at hq'
  rw [hq']
  exact ⟨b, hb⟩

/-- A fault of binding the probes of a list is the fault of a criterion in it. -/
theorem Criterion.exists_fault_of_bindEach {escape : Char} {cs : List Criterion}
    {qs : List (Probe E)} (hqs : Criterion.probes schema escape root cs = .ok qs)
    {m : KindMismatch} (hm : Probe.bindEach qs = .error m) :
    ∃ c ∈ cs, ∃ q, c.probe schema escape root = .ok q ∧ q.bind = .error m := by
  obtain ⟨q, hq, hfault⟩ := exists_mem_of_collect_error hm
  obtain ⟨c, hc, hprobe⟩ := (matched_collect hqs).back q hq
  exact ⟨c, hc, q, hprobe, hfault⟩

namespace Request

/-- A request whose criteria compile has a specification.  Its test of rows is at fault
exactly when what some criterion looks for cannot be bound, and for the reason of one
such criterion. -/
theorem exists_specification
    (h : ∀ c ∈ r.criteria ++ r.orCriteria, c.Compiles schema config.escape root) :
    ∃ spec, Specification.ofRequest schema config root r = .ok spec ∧
      (∀ m, spec.rowTest = .error m → ∃ c ∈ r.criteria ++ r.orCriteria, ∃ q,
        c.probe schema config.escape root = .ok q ∧ q.bind = .error m) ∧
      ∀ test, spec.rowTest = .ok test → ∀ c ∈ r.criteria ++ r.orCriteria, ∀ q,
        c.probe schema config.escape root = .ok q → ∃ bound, q.bind = .ok bound := by
  obtain ⟨qs, hqs⟩ :=
    Criterion.exists_probes_of_compiles fun c hc => h c (List.mem_append_left _ hc)
  obtain ⟨os, hos⟩ :=
    Criterion.exists_probes_of_compiles fun c hc => h c (List.mem_append_right _ hc)
  have hspec := Scope.requestPredicate_of_probes (s := Scope.new root) hqs hos
  refine ⟨_, by rw [Specification.ofRequest, hspec]; rfl, ?_⟩
  rw [Scope.finish, rowTest_ofPlacements]
  cases hbqs : Probe.bindEach qs with
  | error e =>
      refine ⟨?_, fun test htest => by cases htest⟩
      intro m hm
      obtain ⟨c, hc, hfault⟩ := Criterion.exists_fault_of_bindEach hqs hbqs
      cases hm
      exact ⟨c, List.mem_append_left _ hc, hfault⟩
  | ok bqs =>
      cases hbos : Probe.bindEach os with
      | error e =>
          refine ⟨?_, fun test htest => by cases htest⟩
          intro m hm
          obtain ⟨c, hc, hfault⟩ := Criterion.exists_fault_of_bindEach hos hbos
          cases hm
          exact ⟨c, List.mem_append_right _ hc, hfault⟩
      | ok bos =>
          refine ⟨fun m hm => (by cases hm), ?_⟩
          intro test htest c hc q hq
          rcases List.mem_append.mp hc with hc | hc
          · exact Criterion.exists_bound_of_bindEach hqs hbqs hc hq
          · exact Criterion.exists_bound_of_bindEach hos hbos hc hq

/-- The test of a request whose criteria compile is at fault exactly when a sibling field
of a criterion refuses it, and the mismatch blames such a field. -/
theorem exists_compiled
    (h : ∀ c ∈ r.criteria ++ r.orCriteria, c.Compiles schema config.escape root) :
    ∃ spec, Specification.ofRequest schema config root r = .ok spec ∧
      ((∃ m, spec.rowTest = .error m) ↔
        ∃ c ∈ r.criteria ++ r.orCriteria, ∃ f, c.RefusedAt schema root f) ∧
      ∀ m, spec.rowTest = .error m → ∃ c ∈ r.criteria ++ r.orCriteria, ∃ f,
        c.RefusedAt schema root f ∧ m.Blames f.name f.kind := by
  obtain ⟨spec, hspec, herror, hok⟩ := exists_specification h
  have hblames : ∀ m, spec.rowTest = .error m → ∃ c ∈ r.criteria ++ r.orCriteria, ∃ f,
      c.RefusedAt schema root f ∧ m.Blames f.name f.kind := by
    intro m hm
    obtain ⟨c, hc, q, hq, hfault⟩ := herror m hm
    obtain ⟨f, hf⟩ := Criterion.exists_blamed_of_probe hq hfault
    exact ⟨c, hc, f, hf⟩
  refine ⟨spec, hspec, ?_, hblames⟩
  constructor
  · rintro ⟨m, hm⟩
    obtain ⟨c, hc, f, hf, -⟩ := hblames m hm
    exact ⟨c, hc, f, hf⟩
  · rintro ⟨c, hc, hrefused⟩
    obtain ⟨q, hq⟩ := Criterion.compiles_iff.mp (h c hc)
    obtain ⟨m, hm⟩ := (Criterion.exists_bind_error_iff_of_probe hq).mpr hrefused
    cases htest : spec.rowTest with
    | error m' => exact ⟨m', rfl⟩
    | ok test =>
        obtain ⟨bound, hbound⟩ := hok test htest c hc q hq
        rw [hm] at hbound
        cases hbound

theorem ofRequest_of_requestPredicate_error {fault : CriterionError}
    (h : ((Scope.new root).requestPredicate schema config r).1 = .error fault) :
    Specification.ofRequest schema config root r = .error fault := by
  rw [Specification.ofRequest, map_eq_error_iff]
  exact h

/-- The first criterion that does not compile decides about the fault of a request. -/
theorem ofRequest_of_first_fault {before after : List Criterion} {c : Criterion}
    {fault : CriterionError} (hcriteria : r.criteria ++ r.orCriteria = before ++ c :: after)
    (hbefore : ∀ d ∈ before, d.Compiles schema config.escape root)
    (hfault : c.probe schema config.escape root = .error fault) :
    Specification.ofRequest schema config root r = .error fault := by
  have hprobes : ∀ us vs : List Criterion, (∀ d ∈ us, d ∈ before) →
      Criterion.probes schema config.escape root (us ++ c :: vs) = .error fault := by
    intro us vs hus
    exact collect_of_first_error
      (fun d hd => Criterion.compiles_iff.mp (hbefore d (hus d hd))) hfault
  apply ofRequest_of_requestPredicate_error
  -- the criterion is an alternative, or the first alternative, or no alternative
  rcases List.append_eq_append_iff.mp hcriteria with ⟨us, rfl, hor⟩ | ⟨us, hand, hrest⟩
  · obtain ⟨qs, hqs⟩ :=
      Criterion.exists_probes_of_compiles fun d hd => hbefore d (List.mem_append_left _ hd)
    apply Scope.requestPredicate_of_probes_error' hqs
    rw [hor]
    exact hprobes us after fun d hd => List.mem_append_right _ hd
  · cases us with
    | nil =>
        rw [List.append_nil] at hand
        rw [← hand] at hbefore
        obtain ⟨qs, hqs⟩ := Criterion.exists_probes_of_compiles hbefore
        apply Scope.requestPredicate_of_probes_error' hqs
        rw [← hrest.trans (List.nil_append _)]
        exact hprobes [] after fun d hd => by cases hd
    | cons d us =>
        rw [List.cons_append, List.cons.injEq] at hrest
        apply Scope.requestPredicate_of_probes_error
        rw [hand, ← hrest.1]
        exact hprobes before us fun d hd => hd

/-- A request with a specification has criteria that compile. -/
theorem compiles_of_ofRequest {spec : Specification E}
    (h : Specification.ofRequest schema config root r = .ok spec) :
    ∀ c ∈ r.criteria ++ r.orCriteria, c.Compiles schema config.escape root := by
  cases hqs : Criterion.probes schema config.escape root r.criteria with
  | error fault =>
      rw [ofRequest_of_requestPredicate_error (Scope.requestPredicate_of_probes_error hqs)] at h
      cases h
  | ok qs =>
      cases hos : Criterion.probes schema config.escape root r.orCriteria with
      | error fault =>
          rw [ofRequest_of_requestPredicate_error
            (Scope.requestPredicate_of_probes_error' hqs hos)] at h
          cases h
      | ok os =>
          intro c hc
          rw [Criterion.compiles_iff]
          rcases List.mem_append.mp hc with hc | hc
          · obtain ⟨q, -, hq⟩ := (matched_collect hqs).forth c hc
            exact ⟨q, hq⟩
          · obtain ⟨q, -, hq⟩ := (matched_collect hos).forth c hc
            exact ⟨q, hq⟩

end Request

/-! ## Counting -/

/-- Counting fails as binding does, whatever the rows are. -/
theorem Table.count_eq (t : Table K) (spec : Specification E) :
    t.count spec =
      (spec.rowTest.map fun test => (t.rows.filter test).length).mapError .kind := by
  rw [count, matching_eq]
  cases spec.rowTest <;> rfl

/-- A request is valid when its criteria compile and no sort column is blank. -/
theorem Request.validate_of_compiles
    (h : ∀ c ∈ r.criteria ++ r.orCriteria, c.Compiles schema config.escape root)
    (hsort : ∀ d ∈ r.sort, Text.isBlankText d.column = false) : r.validate = .ok () := by
  rw [validate_eq_ok_iff]
  exact ⟨fun c hc => (h c (List.mem_append_left _ hc)).isBlankText_column,
    fun c hc => (h c (List.mem_append_right _ hc)).isBlankText_column, hsort⟩

namespace Service

variable {s : Service E K}

theorem result_countSpecification (spec : Specification E) :
    (s.countSpecification schema (some spec)).result =
      (s.table.count spec).mapError .selection := by
  rw [countSpecification, result_traced, Option.getD_some]

/-- A valid request with a specification is counted by it. -/
theorem result_count {spec : Specification E} (hvalid : r.validate = .ok ())
    (hspec : Specification.ofRequest schema s.config s.entity r = .ok spec) :
    (s.count schema r).result = (s.countSpecification schema (some spec)).result := by
  have hcompiled : (s.specification schema r).result = .ok spec := by
    rw [specification, Traced.result_andThen (a := ()) (by rw [validated, hvalid]; rfl), hspec]
    rfl
  rw [count, Traced.result_andThen hcompiled]

/-- A valid request with a fault in a criterion is not counted. -/
theorem result_count_of_error {fault : CriterionError} (hvalid : r.validate = .ok ())
    (hspec : Specification.ofRequest schema s.config s.entity r = .error fault) :
    (s.count schema r).result = .error (.criterion fault) := by
  rw [count, specification, Traced.andThen, Traced.result_andThen (a := ())
    (by rw [validated, hvalid]; rfl), hspec]
  rfl

/-- The refusals are divided between compilation and binding.

A criterion that compiles in a scope cannot be bound exactly when one of its sibling
fields refuses it.  A request of such criteria has a specification, and counting with it
fails exactly when a criterion is refused, for every table: with one failure whose only
cause is a mismatch of a field that refuses.  A value that coercion rejects stops the
compilation of its criterion and of every request with it, and it is what both stop with
if it is the first fault.  What coercion lets through for a kind that it converts to is
bound. -/
theorem refusals (schema : Schema E) (s : Service E K) :
    (∀ (scope scope' : Scope E) (c : Criterion) (p : Predicate),
      scope.compile schema s.config.escape c = (.ok p, scope') →
      ((∃ m, p.bind = .error m) ↔ ∃ f, c.RefusedAt schema scope.root f)) ∧
    (∀ r : Request,
      (∀ c ∈ r.criteria ++ r.orCriteria, c.Compiles schema s.config.escape s.entity) →
      ∃ spec, Specification.ofRequest schema s.config s.entity r = .ok spec ∧
        ((∃ m, spec.rowTest = .error m) ↔
          ∃ c ∈ r.criteria ++ r.orCriteria, ∃ f, c.RefusedAt schema s.entity f) ∧
        (∀ m, spec.rowTest = .error m →
          (∃ c ∈ r.criteria ++ r.orCriteria, ∃ f, c.RefusedAt schema s.entity f ∧
            m.Blames f.name f.kind) ∧
          ∃ failure : Failure, failure.kind = .illegalArgument ∧
            failure.message = "field type not support operator or value" ∧
            failure.causes = [m.message] ∧
            (s.countSpecification schema (some spec)).result = .error failure ∧
            ((∀ d ∈ r.sort, Text.isBlankText d.column = false) →
              (s.count schema r).result = .error failure)) ∧
        ∀ test, spec.rowTest = .ok test →
          (s.countSpecification schema (some spec)).result =
            .ok (s.table.rows.filter test).length) ∧
    (∀ (c : Criterion) (f : Field) (raw : RawValue) (cause : CoercionError),
      c.RejectedAt schema s.entity f raw cause →
      (∀ scope : Scope E, scope.root = s.entity →
        ∃ fault, (scope.compile schema s.config.escape c).1 = .error fault) ∧
      ∀ r : Request, c ∈ r.criteria ++ r.orCriteria →
        ∃ fault, Specification.ofRequest schema s.config s.entity r = .error fault) ∧
    (∀ (c : Criterion) (f : Field) (raw : RawValue) (cause : CoercionError),
      c.FirstRejectedAt schema s.entity f raw cause →
      (∀ scope : Scope E, scope.root = s.entity →
        (scope.compile schema s.config.escape c).1 = .error (.invalidValue f.name cause)) ∧
      ∀ (r : Request) (before after : List Criterion),
        r.criteria ++ r.orCriteria = before ++ c :: after →
        (∀ d ∈ before, d.Compiles schema s.config.escape s.entity) →
        Specification.ofRequest schema s.config s.entity r =
          .error (.invalidValue f.name cause) ∧
        (r.validate = .ok () → ∃ failure, (s.count schema r).result = .error failure ∧
          failure.kind = .invalidValue)) ∧
    ∀ (f : FieldRef) (raw : RawValue) (v : Value), f.kind.coercion ≠ .passthrough →
      coerce f.kind raw = .ok v → f.bindOperand v = .ok v := by
  refine ⟨?_, ?_, ?_, ?_, ?_⟩
  · intro scope scope' c p hcompile
    obtain ⟨q, hq, rfl, -⟩ := Scope.exists_probe_of_compile hcompile
    rw [← Criterion.exists_bind_error_iff_of_probe hq, Probe.bind_predicate]
    simp only [map_eq_error_iff]
  · intro r hcompiles
    obtain ⟨spec, hspec, hrefused, hblames⟩ := Request.exists_compiled hcompiles
    refine ⟨spec, hspec, hrefused, ?_, ?_⟩
    · intro m hm
      have hfailure : (s.countSpecification schema (some spec)).result =
          .error (.selection (.kind m)) := by
        rw [result_countSpecification, Table.count_eq, hm]
        rfl
      refine ⟨hblames m hm, .selection (.kind m), rfl, rfl, rfl, hfailure, ?_⟩
      intro hsort
      rw [result_count (Request.validate_of_compiles hcompiles hsort) hspec]
      exact hfailure
    · intro test htest
      rw [result_countSpecification, Table.count_eq, htest]
      rfl
  · intro c f raw cause hrejected
    constructor
    · intro scope hroot
      rw [← hroot] at hrejected
      exact hrejected.exists_compile_error
    · intro r hc
      cases hspec : Specification.ofRequest schema s.config s.entity r with
      | error fault => exact ⟨fault, rfl⟩
      | ok spec =>
          obtain ⟨p, hp⟩ := Request.compiles_of_ofRequest hspec c hc
          obtain ⟨fault, hfault⟩ :
              ∃ fault, ((Scope.new s.entity).compile schema s.config.escape c).1 = .error fault :=
            Criterion.RejectedAt.exists_compile_error hrejected
          rw [hp] at hfault
          cases hfault
  · intro c f raw cause hfirst
    constructor
    · intro scope hroot
      rw [← hroot] at hfirst
      exact hfirst.compile_eq
    · intro r before after hcriteria hbefore
      have hspec := Request.ofRequest_of_first_fault hcriteria hbefore hfirst.probe_eq
      exact ⟨hspec, fun hvalid => ⟨_, result_count_of_error hvalid hspec, rfl⟩⟩
  · intro f raw v hkind hcoerce
    exact FieldRef.bindOperand_eq_ok_iff.mpr (bindOperand?_of_coerce hkind hcoerce)

/-- A title is no year, and not the time of a release either: binding refuses the first
of two criteria and coercion the second, although there are no rows. -/
theorem refusals_books :
    let book : Entity Unit :=
      ⟨"book", "Book", "id", [⟨"title", .text⟩, ⟨"year", .int⟩, ⟨"released", .timestamp⟩], []⟩
    let schema : Schema Unit := ⟨fun _ => book⟩
    let s : Service Unit Int64 := ⟨(), {}, .empty (·.key "id")⟩
    let years : Criterion := ⟨"title, year", .equals, [.text "Emma"]⟩
    let releases : Criterion := ⟨"title, released", .isIn, [.text "5", .text "Emma"]⟩
    (∃ failure, (s.count schema (.only years)).result = .error failure ∧
      failure.kind = .illegalArgument) ∧
    ∃ failure, (s.count schema (.only releases)).result = .error failure ∧
      failure.kind = .invalidValue := by
  intro book schema s years releases
  obtain ⟨-, hbinding, -, hcoercion, -⟩ := refusals schema s
  constructor
  · have hcompiles : ∀ c ∈ (Request.only years).criteria ++ (Request.only years).orCriteria,
        c.Compiles schema s.config.escape s.entity := by
      decide +kernel
    have htakes : ¬ FieldKind.int.Takes (.text "Emma") := by
      rintro ⟨n, hn⟩
      have hnone : Text.int64? (Text.trim "Emma") = none := by decide +kernel
      rw [hnone] at hn
      cases hn
    have hrefused : years.RefusedAt schema () ⟨"year", .int⟩ :=
      ⟨⟨⟨[], ["title", "year"]⟩, [], by decide +kernel, rfl, by decide, rfl⟩,
        Or.inr (Or.inr ⟨rfl, .text "Emma", List.mem_cons_self, htakes⟩)⟩
    obtain ⟨spec, -, hiff, hfailure, -⟩ := hbinding (.only years) hcompiles
    obtain ⟨m, hm⟩ := hiff.mpr ⟨years, List.mem_cons_self, _, hrefused⟩
    obtain ⟨-, failure, hkind, -, -, -, hcount⟩ := hfailure m hm
    exact ⟨failure, hcount (by simp [Request.only]), hkind⟩
  · have hfirst : releases.FirstRejectedAt schema () ⟨"released", .timestamp⟩ (.text "Emma")
        (.invalidDate "Emma") := by
      refine ⟨⟨[], ["title", "released"]⟩, [], ["title"], [], [.text "5"], [], by decide +kernel,
        rfl, rfl, rfl, ?_, rfl, ?_, rfl⟩
      · intro name hname
        rw [List.mem_singleton.mp hname]
        exact ⟨⟨"title", .text⟩, rfl, fun raw _ => ⟨raw.toValue, rfl⟩⟩
      · intro u hu
        rw [List.mem_singleton.mp hu]
        exact ⟨_, rfl⟩
    obtain ⟨-, hrequest⟩ := hcoercion releases _ _ _ hfirst
    obtain ⟨-, hfailure⟩ := hrequest (.only releases) [] [] rfl (fun d hd => nomatch hd)
    exact hfailure (Request.validate_eq_ok_iff.mpr (by decide +kernel))

end Service

end EntityQuery
