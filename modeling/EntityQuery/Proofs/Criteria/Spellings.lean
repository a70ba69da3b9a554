import EntityQuery.Proofs.Criteria.Refusal
import EntityQuery.Proofs.Join.History
import EntityQuery.Proofs.Value.Spellings

/-!
# Spellings in criteria

A criterion on columns that read integers may have its integers as numbers or as decimal texts.
Both ways it opens the same joins and becomes interchangeable predicates, or it is refused with
the same fault, and so does a request whose criteria differ in such spellings.

Main results:

- Definition `Criterion.Respells`: criteria that differ in the spelling of integers.
- Theorem `Criterion.Respells.agree_predicatesFor`: on one field they agree.
- Definition `Scope.Parallel`: compilations that open the same joins and agree.
- Theorem `Scope.parallel_compile`: criteria are compiled alike in every scope.
- Theorem `Scope.parallel_requestPredicate`: and so are requests.
-/

namespace EntityQuery

variable {E : Type} {schema : Schema E} {root : E}

/-- The criteria are about the same columns, which read integers, with the same operator, and
differ in the spelling of integers among their values alone. -/
structure Criterion.Respells (schema : Schema E) (root : E) (c c' : Criterion) : Prop where
  column_eq : c'.column = c.column
  operator_eq : c'.operator = c.operator
  values : List.Forall₂ RawValue.Respells c.values c'.values
  readsIntegers : ∀ f, c.Names schema root f → f.kind.ReadsIntegers

/-! ## One field -/

namespace Criterion

variable {c c' : Criterion} {f : FieldRef} {escape : Char}

/-- Comparisons with the first value of either criterion can be interchanged. -/
theorem Respells.agree_compareFirst (h : c.Respells schema root c')
    (hkind : f.kind.ReadsIntegers) {comparison : Comparison} (hcomparison : comparison ≠ .isIn) :
    Agree Predicate.Interchangeable (c.compareFirst f comparison)
      (c'.compareFirst f comparison) := by
  have hvalues := h.values
  rw [compareFirst, compareFirst, h.column_eq, h.operator_eq]
  generalize c.values = raws at hvalues ⊢
  generalize c'.values = raws' at hvalues ⊢
  cases hvalues with
  | nil => exact .error _
  | cons hraw _ =>
      refine (hraw.agree_operand hkind).map fun v v' hv hv' hbind => ?_
      exact Predicate.interchangeable_compare hcomparison
        (ne_list_of_coerce (operand_eq_ok_iff.mp hv))
        (ne_list_of_coerce (operand_eq_ok_iff.mp hv')) hbind

/-- Membership tests of either criterion can be interchanged. -/
theorem Respells.agree_membership (h : c.Respells schema root c')
    (hkind : f.kind.ReadsIntegers) :
    Agree Predicate.Interchangeable (c.membership f) (c'.membership f) := by
  have hoperands := Agree.collect (h.values.imp fun _ _ hraw => hraw.agree_operand hkind)
  rw [← operands_eq_collect, ← operands_eq_collect] at hoperands
  exact hoperands.map fun vs vs' _ _ hvs => Predicate.interchangeable_membership hvs

/-- What is made of the texts of values is the same for either criterion. -/
theorem Respells.map_values_eq (h : c.Respells schema root c') {α : Type} {g : RawValue → α}
    (hg : ∀ raw raw' : RawValue, raw.display = raw'.display → g raw = g raw') :
    c.values.map g = c'.values.map g := by
  have hvalues := h.values
  generalize c.values = raws at hvalues ⊢
  generalize c'.values = raws' at hvalues ⊢
  induction hvalues with
  | nil => rfl
  | cons hraw _ ih => rw [List.map_cons, List.map_cons, hg _ _ hraw.display_eq, ih]

/-- On a field that reads integers, either criterion has the same predicates up to
interchange. -/
theorem Respells.agree_predicatesFor (h : c.Respells schema root c')
    (hkind : f.kind.ReadsIntegers) :
    Agree (List.Forall₂ Predicate.Interchangeable) (c.predicatesFor escape f)
      (c'.predicatesFor escape f) := by
  have hcontains : ∀ raw raw' : RawValue, raw.display = raw'.display →
      containsTest escape raw = containsTest escape raw' := by
    intro raw raw' hdisplay
    rw [containsTest, containsTest, hdisplay]
  have hwildcard : ∀ raw raw' : RawValue, raw.display = raw'.display →
      wildcardTest raw = wildcardTest raw' := by
    intro raw raw' hdisplay
    rw [wildcardTest, wildcardTest, hdisplay]
  have hsingle : ∀ {x y : Except CriterionError Predicate} (g : Predicate → Predicate),
      Agree Predicate.Interchangeable x y →
      (∀ p p' : Predicate, p.Interchangeable p' → (g p).Interchangeable (g p')) →
      Agree (List.Forall₂ Predicate.Interchangeable) (x.map fun p => [g p])
        (y.map fun p => [g p]) :=
    fun g hxy hg => hxy.map fun p p' _ _ hp => .cons (hg p p' hp) .nil
  unfold predicatesFor
  rw [h.operator_eq]
  cases c.operator with
  | contain | notContain =>
      apply Agree.ok
      rw [h.map_values_eq fun raw raw' hdisplay => by rw [hcontains raw raw' hdisplay]]
      exact Predicate.Interchangeable.forall₂_refl _
  | containWithWildcard | notContainWithWildcard =>
      apply Agree.ok
      rw [h.map_values_eq fun raw raw' hdisplay => by rw [hwildcard raw raw' hdisplay]]
      exact Predicate.Interchangeable.forall₂_refl _
  | isTrue | isFalse | isNull | notNull =>
      exact .ok (Predicate.Interchangeable.forall₂_refl _)
  | isIn => exact hsingle id (h.agree_membership hkind) fun _ _ hp => hp
  | notIn => exact hsingle .not (h.agree_membership hkind) fun _ _ hp => hp.not
  | equals | notEqual | greaterThan | lesserThan | greaterEquals | lesserEquals =>
      exact hsingle id (h.agree_compareFirst hkind (by decide)) fun _ _ hp => hp

end Criterion

/-! ## Requests -/

/-- The criteria are the same, or differ in the spelling of integers alone. -/
def Criterion.SameUpToSpelling (schema : Schema E) (root : E) (c c' : Criterion) : Prop :=
  c' = c ∨ c.Respells schema root c'

/-- The requests are the same, except that the integers in their criteria and alternatives may
be spelled in other ways. -/
structure Request.SameUpToSpelling (schema : Schema E) (root : E) (r r' : Request) : Prop where
  page_eq : r'.page = r.page
  size_eq : r'.size = r.size
  sort_eq : r'.sort = r.sort
  criteriaOperator_eq : r'.criteriaOperator = r.criteriaOperator
  criteria : List.Forall₂ (Criterion.SameUpToSpelling schema root) r.criteria r'.criteria
  orCriteria : List.Forall₂ (Criterion.SameUpToSpelling schema root) r.orCriteria r'.orCriteria

namespace Scope

variable {s : Scope E} {c c' : Criterion} {cs cs' : List Criterion}

/-- Two compilations end in the same sound scope of a root, and their results agree. -/
structure Parallel {α : Type} (schema : Schema E) (root : E) (related : α → α → Prop)
    (x y : Except CriterionError α × Scope E) : Prop where
  scope_eq : y.2 = x.2
  sound : x.2.Sound schema
  root_eq : x.2.root = root
  agree : Agree related x.1 y.1

namespace Parallel

variable {α β : Type} {related : α → α → Prop} {related' : β → β → Prop}
  {x y : Except CriterionError α × Scope E}

/-- Results can be mapped on both sides. -/
theorem map {g g' : α → β} (h : Parallel schema root related x y)
    (hg : ∀ a a', related a a' → related' (g a) (g' a')) :
    Parallel schema root related' (x.1.map g, x.2) (y.1.map g', y.2) :=
  ⟨h.scope_eq, h.sound, h.root_eq, h.agree.map fun a a' _ _ => hg a a'⟩

/-- Either both compilations fail with the same fault, or both have results, which are
related. -/
theorem cases (h : Parallel schema root related x y) :
    (∃ e s', x = (.error e, s') ∧ y = (.error e, s') ∧ s'.Sound schema ∧ s'.root = root) ∨
      ∃ a a' s', x = (.ok a, s') ∧ y = (.ok a', s') ∧ related a a' ∧ s'.Sound schema ∧
        s'.root = root := by
  obtain ⟨x, s'⟩ := x
  obtain ⟨y, s''⟩ := y
  obtain ⟨hscope, hsound, hroot, hagree⟩ := h
  cases hscope
  cases hagree with
  | error e => exact Or.inl ⟨e, s', rfl, rfl, hsound, hroot⟩
  | ok ha => exact Or.inr ⟨_, _, s', rfl, rfl, ha, hsound, hroot⟩

end Parallel

/-- The predicates on sibling fields agree when the fields read integers. -/
theorem agree_branches (escape : Char) {source : Source} {names : List String}
    (h : c.Respells schema root c')
    (hkinds : ∀ name ∈ names, ∀ f, s.field schema source name = .ok f → f.kind.ReadsIntegers) :
    Agree (List.Forall₂ Predicate.Interchangeable) (s.branches schema escape c source names)
      (s.branches schema escape c' source names) := by
  have hbranch : ∀ name ∈ names, Agree (List.Forall₂ Predicate.Interchangeable)
      (s.branch schema escape c source name) (s.branch schema escape c' source name) := by
    intro name hname
    unfold branch
    cases hf : s.field schema source name with
    | error e => exact .error _
    | ok f => exact h.agree_predicatesFor (hkinds name hname f hf)
  rw [branches_eq_collect, branches_eq_collect]
  exact (Agree.collect (List.forall₂_same.mpr hbranch)).map
    fun pss pss' _ _ hpss => List.rel_flatten hpss

/-- A criterion is compiled alike with its integers in another spelling. -/
theorem agree_compile_of_respells (escape : Char) (hroot : s.root = root)
    (h : c.Respells schema root c') :
    (s.compile schema escape c').2 = (s.compile schema escape c).2 ∧
      Agree Predicate.Interchangeable (s.compile schema escape c).1
        (s.compile schema escape c').1 := by
  have hempty : c'.values.isEmpty = c.values.isEmpty := by
    have hlength := h.values.length_eq
    rw [Bool.eq_iff_iff, List.isEmpty_iff_length_eq_zero, List.isEmpty_iff_length_eq_zero]
    omega
  unfold compile
  rw [h.column_eq, h.operator_eq, hempty]
  split
  · exact ⟨rfl, .error _⟩
  · cases hpath : Path.ofColumn? c.column with
    | none => exact ⟨rfl, .error _⟩
    | some path =>
        dsimp only
        rcases hopen : s.openPath schema .root path.hops with ⟨_ | source, s'⟩
        · exact ⟨rfl, .error _⟩
        · refine ⟨rfl, (agree_branches escape h ?_).map fun _ _ _ _ hps => .any hps⟩
          intro name hname f hf
          obtain ⟨rs, hfollow, rfl, rfl⟩ := exists_of_openPath hopen
          obtain ⟨field, hfield, rfl⟩ := field_eq_ok_iff.mp hf
          have hentity : s.entityAt .root = root := hroot
          rw [entityAt_chainEnd, hentity] at hfield
          rw [hentity] at hfollow
          have hfound := Entity.name_of_field? hfield
          subst hfound
          exact h.readsIntegers field ⟨path, rs, hpath, hfollow, hname, hfield⟩

/-- A criterion is compiled alike when it is the same up to spelling. -/
theorem parallel_compile (escape : Char) (hs : s.Sound schema) (hroot : s.root = root)
    (h : c.SameUpToSpelling schema root c') :
    Parallel schema root Predicate.Interchangeable (s.compile schema escape c)
      (s.compile schema escape c') := by
  obtain ⟨hsound, hext⟩ : (s.compile schema escape c).2.Sound schema ∧
      s.Extends (s.compile schema escape c).2 := hs.compile rfl
  rcases h with rfl | h
  · exact ⟨rfl, hsound, hext.root_eq.trans hroot, .refl .refl _⟩
  · obtain ⟨hscope, hagree⟩ := agree_compile_of_respells escape hroot h
    exact ⟨hscope, hsound, hext.root_eq.trans hroot, hagree⟩

/-- Criteria are compiled alike, one after another, when they are the same up to spelling. -/
theorem parallel_compileEach (escape : Char) (hs : s.Sound schema) (hroot : s.root = root)
    (h : List.Forall₂ (Criterion.SameUpToSpelling schema root) cs cs') :
    Parallel schema root (List.Forall₂ Predicate.Interchangeable) (s.compileEach schema escape cs)
      (s.compileEach schema escape cs') := by
  induction h generalizing s with
  | nil => exact ⟨rfl, hs, hroot, .ok .nil⟩
  | cons hfirst _ ih =>
      unfold compileEach
      rcases (parallel_compile escape hs hroot hfirst).cases with
        ⟨e, s', hx, hy, hs', hroot'⟩ | ⟨p, p', s', hx, hy, hp, hs', hroot'⟩
      · rw [hx, hy]
        exact ⟨rfl, hs', hroot', .error e⟩
      · rw [hx, hy]
        exact (ih hs' hroot').map fun _ _ hps => .cons hp hps

/-- Criteria that must all hold are compiled alike. -/
theorem parallel_allOf (escape : Char) (hs : s.Sound schema) (hroot : s.root = root)
    (h : List.Forall₂ (Criterion.SameUpToSpelling schema root) cs cs') :
    Parallel schema root Predicate.Interchangeable (s.allOf schema escape cs)
      (s.allOf schema escape cs') := by
  have hparts := parallel_compileEach escape hs hroot h
  cases h with
  | nil => exact ⟨rfl, hs, hroot, .ok (.refl _)⟩
  | cons _ _ => exact hparts.map fun _ _ => .all

/-- Criteria of which one must hold are compiled alike. -/
theorem parallel_anyOf (escape : Char) (hs : s.Sound schema) (hroot : s.root = root)
    (h : List.Forall₂ (Criterion.SameUpToSpelling schema root) cs cs') :
    Parallel schema root Predicate.Interchangeable (s.anyOf schema escape cs)
      (s.anyOf schema escape cs') := by
  have hparts := parallel_compileEach escape hs hroot h
  cases h with
  | nil => exact ⟨rfl, hs, hroot, .ok (.refl _)⟩
  | cons _ _ => exact hparts.map fun _ _ => .any

/-- Criteria under an operator are compiled alike. -/
theorem parallel_groupOf (escape : Char) (operator : GroupOperator) (hs : s.Sound schema)
    (hroot : s.root = root) (h : List.Forall₂ (Criterion.SameUpToSpelling schema root) cs cs') :
    Parallel schema root Predicate.Interchangeable (s.groupOf schema escape operator cs)
      (s.groupOf schema escape operator cs') := by
  cases operator with
  | and => exact parallel_allOf escape hs hroot h
  | or => exact parallel_anyOf escape hs hroot h

/-- Requests that are the same up to spelling have interchangeable predicates over the same
joins, or are refused with the same fault. -/
theorem parallel_requestPredicate (config : Config) {r r' : Request} (hs : s.Sound schema)
    (hroot : s.root = root) (h : r.SameUpToSpelling schema root r') :
    Parallel schema root (Option.Rel Predicate.Interchangeable)
      (s.requestPredicate schema config r) (s.requestPredicate schema config r') := by
  obtain ⟨-, -, -, hoperator, hcs, hos⟩ := h
  unfold requestPredicate
  rw [hoperator]
  generalize r.criteriaOperator.getD config.defaultOperator = operator
  generalize r.criteria = cs at hcs ⊢
  generalize r'.criteria = cs' at hcs ⊢
  generalize r.orCriteria = os at hos ⊢
  generalize r'.orCriteria = os' at hos ⊢
  have hgroup := parallel_groupOf config.escape operator hs hroot hcs
  have hall := parallel_allOf config.escape hs hroot hcs
  cases hcs with
  | nil =>
      have hany := parallel_anyOf config.escape hs hroot hos
      cases hos with
      | nil => exact ⟨rfl, hs, hroot, .ok .none⟩
      | cons _ _ => exact hany.map fun _ _ => .some
  | cons _ _ =>
      cases hos with
      | nil => exact hgroup.map fun _ _ => .some
      | cons ho hos =>
          dsimp only [List.isEmpty_cons]
          rcases hall.cases with
            ⟨e, s', hx, hy, hs', hroot'⟩ | ⟨p, p', s', hx, hy, hp, hs', hroot'⟩
          · rw [hx, hy]
            exact ⟨rfl, hs', hroot', .error e⟩
          · rw [hx, hy]
            exact (parallel_anyOf config.escape hs' hroot' (.cons ho hos)).map
              fun _ _ hq => .some (hp.combine operator hq)

end Scope

end EntityQuery
