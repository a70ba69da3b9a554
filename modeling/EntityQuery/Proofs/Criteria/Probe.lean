import EntityQuery.Proofs.Collect
import EntityQuery.Proofs.Join.Chain
import EntityQuery.Proofs.Predicate.Relocation

/-!
# What a criterion looks for

A criterion looks for a row at the end of a path of relations that fulfils a test.
Both are found without regard to other criteria: in a scope with joins the criterion
opens the joins of its path behind them, and moves its test to the end of the path.

Main results:

- Definition `Criterion.probe`: the relations of a criterion's path and its test.
- Theorem `compile_of_probe`: compiling in any scope places the probe there.
- Theorem `compile_of_probe_error`: and fails when there is no probe.
- Definition `Probe.Finds`: the root rows that the probe finds something for.
-/

namespace EntityQuery

variable {E : Type}

/-! ## Paths in a schema -/

/-- The relations of hops from an entity on. -/
def Schema.follow (schema : Schema E) : E → List String → Except NameError (List (Relation E))
  | _, [] => .ok []
  | e, hop :: hops =>
    match (schema.entity e).relation? hop with
    | none => .error (.unknownRelation (schema.entity e).name hop)
    | some r => (schema.follow r.target hops).map (r :: ·)

/-- The entity at the end of relations. -/
def lastEntity (e : E) : List (Relation E) → E
  | [] => e
  | r :: rs => lastEntity r.target rs

/-- Following a hop and the ones behind it finds a relation for it and for those. -/
theorem Schema.exists_of_follow_cons {schema : Schema E} {e : E} {hop : String}
    {hops : List String} {rs : List (Relation E)} (h : schema.follow e (hop :: hops) = .ok rs) :
    ∃ r rest, (schema.entity e).relation? hop = some r ∧ schema.follow r.target hops = .ok rest ∧
      rs = r :: rest := by
  rw [follow] at h
  cases hr : (schema.entity e).relation? hop with
  | none => simp [hr] at h
  | some r =>
      rw [hr] at h
      obtain ⟨rest, hrest, rfl⟩ := exists_of_map_eq_ok h
      exact ⟨r, rest, rfl, hrest, rfl⟩

/-- Following hops finds a relation of each hop's name. -/
theorem Schema.names_of_follow {schema : Schema E} {e : E} {hops : List String}
    {rs : List (Relation E)} (h : schema.follow e hops = .ok rs) : rs.map (·.name) = hops := by
  induction hops generalizing e rs with
  | nil =>
      cases h
      rfl
  | cons hop hops ih =>
      obtain ⟨r, rest, hr, hrest, rfl⟩ := exists_of_follow_cons h
      rw [List.map_cons, ih hrest, Entity.name_of_relation? hr]

/-! ## The predicates of a field -/

namespace Criterion

variable {c : Criterion} {f : FieldRef} {escape : Char} {p : Predicate} {ps : List Predicate}

/-- A comparison with the first value compares with its operand. -/
theorem exists_of_compareFirst {comparison : Comparison}
    (h : c.compareFirst f comparison = .ok p) :
    ∃ raw raws v, c.values = raw :: raws ∧ operand f raw = .ok v ∧
      p = .test f (.compare comparison v) := by
  unfold compareFirst at h
  cases hvalues : c.values with
  | nil => simp [hvalues] at h
  | cons raw raws =>
      rw [hvalues] at h
      obtain ⟨v, hv, rfl⟩ := exists_of_map_eq_ok h
      exact ⟨raw, raws, v, rfl, hv, rfl⟩

/-- A comparison of a criterion reads its field. -/
theorem fields_of_compareFirst {comparison : Comparison}
    (h : c.compareFirst f comparison = .ok p) : p.fields = [f] := by
  obtain ⟨raw, raws, v, -, -, rfl⟩ := exists_of_compareFirst h
  rfl

/-- A membership test of a criterion reads its field. -/
theorem fields_of_membership (h : c.membership f = .ok p) : p.fields = [f] := by
  obtain ⟨vs, -, rfl⟩ := exists_of_map_eq_ok h
  rfl

/-- The predicates of a criterion on a field read that field alone. -/
theorem fields_of_predicatesFor (h : c.predicatesFor escape f = .ok ps) (hp : p ∈ ps) :
    p.fields = [f] := by
  unfold predicatesFor at h
  cases hoperator : c.operator with
  | contain | notContain | containWithWildcard | notContainWithWildcard =>
      rw [hoperator] at h
      cases h
      obtain ⟨raw, -, rfl⟩ := List.mem_map.mp hp
      rfl
  | equals | notEqual | greaterThan | lesserThan | greaterEquals | lesserEquals =>
      rw [hoperator] at h
      obtain ⟨q, hq, rfl⟩ := exists_of_map_eq_ok h
      rw [List.mem_singleton.mp hp]
      exact fields_of_compareFirst hq
  | isIn =>
      rw [hoperator] at h
      obtain ⟨q, hq, rfl⟩ := exists_of_map_eq_ok h
      rw [List.mem_singleton.mp hp]
      exact fields_of_membership hq
  | notIn =>
      rw [hoperator] at h
      obtain ⟨q, hq, rfl⟩ := exists_of_map_eq_ok h
      rw [List.mem_singleton.mp hp, Predicate.fields]
      exact fields_of_membership hq
  | isTrue | isFalse | isNull | notNull =>
      rw [hoperator] at h
      cases h
      rw [List.mem_singleton.mp hp]
      rfl

end Criterion

/-! ## Probes -/

/-- What is looked for: the relations of a path, and a test of the row at its end. -/
structure Probe (E : Type) where
  relations : List (Relation E)
  test : Predicate

namespace Probe

/-- The joins of the path, numbered from a place on. -/
def joins (q : Probe E) (place : Nat) : List (Join E) :=
  chain place .root q.relations

/-- The source of the rows at the end of the path. -/
def source (q : Probe E) (place : Nat) : Source :=
  chainEnd place .root q.relations

/-- The test of the row at the end of the path. -/
def predicate (q : Probe E) (place : Nat) : Predicate :=
  q.test.relocate (q.source place)

/-- The probe with the operands of its test bound. -/
def bind (q : Probe E) : Except KindMismatch (Probe E) :=
  q.test.bind.map fun test => { q with test := test }

/-- The path reaches a row from the root row that fulfils the test. -/
def Finds (q : Probe E) (root : Row) : Prop :=
  ∃ last, Reaches (some root) (q.relations.map (·.name)) last ∧ q.test.evaluateAt last = .yes

/-- Binding keeps the relations. -/
theorem relations_of_bind {q bound : Probe E} (h : q.bind = .ok bound) :
    bound.relations = q.relations := by
  obtain ⟨test, -, rfl⟩ := exists_of_map_eq_ok h
  rfl

/-- Binding does not see the place of a probe. -/
theorem bind_predicate (q : Probe E) (place : Nat) :
    (q.predicate place).bind = q.bind.map (·.predicate place) := by
  rw [predicate, Predicate.bind_relocate, bind]
  cases q.test.bind <;> rfl

end Probe

/-- What a criterion looks for in the rows of an entity. -/
def Criterion.probe (schema : Schema E) (escape : Char) (root : E) (c : Criterion) :
    Except CriterionError (Probe E) :=
  if c.operator.requiresValues && c.values.isEmpty then
    .error (.missingValue c.column c.operator)
  else
    match Path.ofColumn? c.column with
    | none => .error (.invalidPath c.column)
    | some path =>
      match schema.follow root path.hops with
      | .error e => .error (.name e)
      | .ok rs =>
        ((Scope.new (lastEntity root rs)).branches schema escape c .root path.fields).map
          fun parts => ⟨rs, .any parts⟩

/-- A probe comes from a path that can be followed and the predicates of its fields. -/
theorem Criterion.exists_of_probe {schema : Schema E} {escape : Char} {root : E} {c : Criterion}
    {q : Probe E} (h : c.probe schema escape root = .ok q) :
    ∃ path rs parts, Path.ofColumn? c.column = some path ∧ schema.follow root path.hops = .ok rs ∧
      (Scope.new (lastEntity root rs)).branches schema escape c .root path.fields = .ok parts ∧
      q = ⟨rs, .any parts⟩ := by
  unfold probe at h
  split at h
  · cases h
  · cases hpath : Path.ofColumn? c.column with
    | none => simp [hpath] at h
    | some path =>
        cases hfollow : schema.follow root path.hops with
        | error e => simp [hpath, hfollow] at h
        | ok rs =>
            simp only [hpath, hfollow] at h
            obtain ⟨parts, hparts, rfl⟩ := exists_of_map_eq_ok h
            exact ⟨path, rs, parts, rfl, hfollow, hparts, rfl⟩

/-! ## Opening paths -/

namespace Scope

/-- The scope with more joins. -/
def append (s : Scope E) (joins : List (Join E)) : Scope E :=
  { s with joins := s.joins ++ joins }

theorem append_nil (s : Scope E) : s.append [] = s := by
  simp [append]

theorem append_append (s : Scope E) (joins joins' : List (Join E)) :
    (s.append joins).append joins' = s.append (joins ++ joins') := by
  simp [append]

/-- The rows of a join are those of the target of its relation. -/
theorem entityAt_append_singleton (s : Scope E) (source : Source) (r : Relation E) :
    (s.append [⟨s.joins.length, source, r⟩]).entityAt (.join s.joins.length) = r.target := by
  simp [append, entityAt]

/-- The rows at the end of a chain are those of its last entity. -/
theorem entityAt_chainEnd (s : Scope E) (source : Source) (rs : List (Relation E)) :
    (s.append (chain s.joins.length source rs)).entityAt (chainEnd s.joins.length source rs) =
      lastEntity (s.entityAt source) rs := by
  induction rs generalizing s source with
  | nil =>
      rw [chain, append_nil]
      rfl
  | cons r rs ih =>
      have hrest := ih (s.append [⟨s.joins.length, source, r⟩]) (.join s.joins.length)
      rw [entityAt_append_singleton, append_append] at hrest
      simp only [append, List.length_append, List.length_singleton] at hrest
      exact hrest

variable {schema : Schema E}

/-- Opening the joins of a path appends the chain of its relations. -/
theorem openPath_of_follow (s : Scope E) (source : Source) {hops : List String}
    {rs : List (Relation E)} (h : schema.follow (s.entityAt source) hops = .ok rs) :
    s.openPath schema source hops =
      (.ok (chainEnd s.joins.length source rs), s.append (chain s.joins.length source rs)) := by
  induction hops generalizing s source rs with
  | nil =>
      cases h
      rw [openPath, chainEnd, chain, append_nil]
  | cons hop hops ih =>
      obtain ⟨r, rest, hr, hrest, rfl⟩ := Schema.exists_of_follow_cons h
      have hopen := ih (s.append [⟨s.joins.length, source, r⟩]) (.join s.joins.length)
        (by rw [entityAt_append_singleton]; exact hrest)
      rw [append_append] at hopen
      simp only [append, List.length_append, List.length_singleton] at hopen
      simp only [openPath, Scope.join, hr, append, hopen]
      rfl

/-- Without a relation of some hop's name the path is refused. -/
theorem openPath_of_follow_error (s : Scope E) (source : Source) {hops : List String}
    {fault : NameError} (h : schema.follow (s.entityAt source) hops = .error fault) :
    (s.openPath schema source hops).1 = .error fault := by
  induction hops generalizing s source with
  | nil => cases h
  | cons hop hops ih =>
      rw [Schema.follow] at h
      cases hr : (schema.entity (s.entityAt source)).relation? hop with
      | none =>
          simp only [hr] at h
          cases h
          simp [openPath, Scope.join, hr]
      | some r =>
          cases hrest : schema.follow r.target hops with
          | ok rest => simp [hr, hrest, Except.map] at h
          | error e =>
              simp only [hr, hrest, Except.map, Except.error.injEq] at h
              subst h
              have hopen := ih (s.append [⟨s.joins.length, source, r⟩])
                (.join s.joins.length)
                (by rw [entityAt_append_singleton]; exact hrest)
              simp only [append] at hopen
              simp only [openPath, Scope.join, hr, hopen]

/-- A path that can be opened follows relations and opens their chain. -/
theorem exists_of_openPath {s s' : Scope E} {source last : Source} {hops : List String}
    (h : s.openPath schema source hops = (.ok last, s')) :
    ∃ rs, schema.follow (s.entityAt source) hops = .ok rs ∧
      last = chainEnd s.joins.length source rs ∧
      s' = s.append (chain s.joins.length source rs) := by
  cases hfollow : schema.follow (s.entityAt source) hops with
  | error e =>
      have herror := openPath_of_follow_error s source hfollow
      rw [h] at herror
      cases herror
  | ok rs =>
      rw [openPath_of_follow s source hfollow] at h
      cases h
      exact ⟨rs, rfl, rfl, rfl⟩

end Scope

/-! ## Sibling fields -/

/-- The predicates of a criterion on a field move with the field. -/
theorem Criterion.predicatesFor_relocate (escape : Char) (c : Criterion) (source : Source)
    (f : FieldRef) : c.predicatesFor escape (f.relocate source) =
      (c.predicatesFor escape f).map (·.map (Predicate.relocate source)) := by
  have hoperand : ∀ raw, operand (f.relocate source) raw = operand f raw := fun _ => rfl
  have hoperands : ∀ raws, operands (f.relocate source) raws = operands f raws := by
    intro raws
    induction raws with
    | nil => rfl
    | cons raw raws ih => rw [operands, operands, hoperand, ih]
  have hfirst : ∀ comparison, c.compareFirst (f.relocate source) comparison =
      (c.compareFirst f comparison).map (Predicate.relocate source) := by
    intro comparison
    unfold compareFirst
    cases c.values with
    | nil => rfl
    | cons raw raws =>
        dsimp only
        rw [hoperand]
        cases operand f raw <;> rfl
  have hmembership : c.membership (f.relocate source) =
      (c.membership f).map (Predicate.relocate source) := by
    unfold membership
    rw [hoperands]
    cases operands f c.values <;> rfl
  unfold predicatesFor
  cases c.operator <;>
    simp only [hfirst, hmembership, Except.map, List.map_map, Function.comp_def] <;>
    first
      | rfl
      | cases c.compareFirst f _ <;> rfl
      | cases c.membership f <;> rfl

namespace Scope

variable {schema : Schema E}

/-- The predicates of a criterion at a source are those at the root of a scope of the
entity found there, moved to the source. -/
theorem branches_eq (escape : Char) (s : Scope E) (c : Criterion) (source : Source)
    (names : List String) : s.branches schema escape c source names =
      ((Scope.new (s.entityAt source)).branches schema escape c .root names).map
        (·.map (Predicate.relocate source)) := by
  induction names with
  | nil => rfl
  | cons name names ih =>
      have hroot : (Scope.new (s.entityAt source)).entityAt .root = s.entityAt source := rfl
      rw [branches, branches, field, field, hroot]
      cases (schema.entity (s.entityAt source)).field? name with
      | none => rfl
      | some f =>
          have hmove := c.predicatesFor_relocate escape source ⟨.root, f.name, f.kind⟩
          rw [FieldRef.relocate] at hmove
          simp only [hmove]
          cases c.predicatesFor escape ⟨.root, f.name, f.kind⟩ with
          | error fault => rfl
          | ok parts =>
              simp only [Except.map, ih]
              cases (Scope.new (s.entityAt source)).branches schema escape c .root names with
              | error fault => rfl
              | ok rest => simp

/-! ## Compilation -/

/-- A criterion with a probe opens the joins of the probe behind those that are there,
and looks for the row at the end of them. -/
theorem compile_of_probe {escape : Char} {s : Scope E} {c : Criterion} {q : Probe E}
    (h : c.probe schema escape s.root = .ok q) :
    s.compile schema escape c =
      (.ok (q.predicate s.joins.length), s.append (q.joins s.joins.length)) := by
  obtain ⟨path, rs, parts, hpath, hfollow, hparts, rfl⟩ := Criterion.exists_of_probe h
  have hvalues : ¬ (c.operator.requiresValues && c.values.isEmpty) = true := by
    intro hmissing
    rw [Criterion.probe, if_pos hmissing] at h
    cases h
  have hopen := openPath_of_follow s .root hfollow
  have hroot : s.entityAt .root = s.root := rfl
  rw [compile, if_neg hvalues, hpath]
  simp only [hopen, branches_eq escape _ c (chainEnd _ _ _), entityAt_chainEnd, hroot, hparts,
    Except.map]
  simp [Probe.predicate, Probe.source, Probe.joins, Predicate.relocate,
    Predicate.relocateEach_eq_map]

/-- A criterion without a probe is refused in every scope, with the same fault. -/
theorem compile_of_probe_error {escape : Char} {s : Scope E} {c : Criterion}
    {fault : CriterionError} (h : c.probe schema escape s.root = .error fault) :
    (s.compile schema escape c).1 = .error fault := by
  unfold Criterion.probe at h
  unfold compile
  split at h
  · next hvalues =>
      rw [if_pos hvalues]
      cases h
      rfl
  · next hvalues =>
      rw [if_neg hvalues]
      cases hpath : Path.ofColumn? c.column with
      | none =>
          simp only [hpath] at h
          cases h
          rfl
      | some path =>
          simp only [hpath] at h
          cases hfollow : schema.follow s.root path.hops with
          | error e =>
              simp only [hfollow] at h
              cases h
              have hopen := openPath_of_follow_error s .root hfollow
              cases hs : s.openPath schema .root path.hops with
              | mk result s' =>
                  rw [hs] at hopen
                  cases hopen
                  simp only [hs]
          | ok rs =>
              have hopen := openPath_of_follow s .root hfollow
              have hroot : s.entityAt .root = s.root := rfl
              simp only [hopen, branches_eq escape _ c (chainEnd _ _ _), entityAt_chainEnd, hroot]
              simp only [hfollow] at h
              cases hparts : (Scope.new (lastEntity s.root rs)).branches schema escape c .root
                  path.fields with
              | ok parts => simp [hparts, Except.map] at h
              | error e =>
                  simp only [hparts, Except.map] at h ⊢
                  cases h
                  rfl

/-- A criterion that compiles has the probe that is placed behind the joins. -/
theorem exists_probe_of_compile {escape : Char} {s s' : Scope E} {c : Criterion} {p : Predicate}
    (h : s.compile schema escape c = (.ok p, s')) :
    ∃ q, c.probe schema escape s.root = .ok q ∧ p = q.predicate s.joins.length ∧
      s' = s.append (q.joins s.joins.length) := by
  cases hprobe : c.probe schema escape s.root with
  | error fault =>
      have herror := compile_of_probe_error hprobe
      rw [h] at herror
      cases herror
  | ok q =>
      rw [compile_of_probe hprobe] at h
      cases h
      exact ⟨q, rfl, rfl, rfl⟩

end Scope

end EntityQuery
