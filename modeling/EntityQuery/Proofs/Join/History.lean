import EntityQuery.Proofs.Criteria.Probe

/-!
# Histories of a scope

Criteria are compiled, fields looked up and joins opened on one scope, in any order, and
calls may fail.  Whatever is called, joins are only appended, every join follows a
declared relation of a source before it, and what a call hands out stays good for all
later calls.

Main results:

- Definitions `Call`, `answer` and `History`: calls on a scope, one after another.
- Theorem `Sound.answer`: a call keeps a scope sound.
- Theorem `exists_of_compile`: the joins and the fields of a compiled criterion.
- Theorem `History.invariant`: what holds after every history.
-/

namespace EntityQuery

variable {E : Type}

/-- The first joins of well-formed ones are well-formed. -/
theorem WellFormedJoins.of_prefix {joins joins' : List (Join E)} (hj : WellFormedJoins joins')
    (h : joins <+: joins') : WellFormedJoins joins := by
  intro i hi
  rw [h.getElem hi]
  exact hj i _

namespace Scope

/-! ## Calls -/

/-- A call on a scope. -/
inductive Call where
  | compile (escape : Char) (criterion : Criterion)
  | field (source : Source) (name : String)
  | join (source : Source) (name : String)

/-- The source that a call starts at; criteria start at the root. -/
def Call.source : Call → Source
  | compile _ _ => .root
  | field source _ => source
  | join source _ => source

/-- The answer to a call. -/
inductive Answer where
  | predicate (result : Except CriterionError Predicate)
  | field (result : Except NameError FieldRef)
  | source (result : Except NameError Source)

namespace Answer

/-- The fields that an answer hands out. -/
def fields : Answer → List FieldRef
  | predicate (.ok p) => p.fields
  | field (.ok f) => [f]
  | _ => []

/-- The sources that an answer hands out, those of its fields included. -/
def sources : Answer → List Source
  | source (.ok s) => [s]
  | answer => answer.fields.map (·.source)

end Answer

/-- The answer to a call, and the scope after it. -/
def answer (schema : Schema E) (s : Scope E) : Call → Answer × Scope E
  | .compile escape c =>
    let (result, s') := s.compile schema escape c
    (.predicate result, s')
  | .field source name => (.field (s.field schema source name), s)
  | .join source name =>
    match s.join schema source name with
    | .error e => (.source (.error e), s)
    | .ok (next, s') => (.source (.ok next), s')

/-- A call with its answer and the scopes before and after it. -/
structure Step (E : Type) where
  call : Call
  answer : Answer
  before : Scope E
  after : Scope E

/-- The step of a call on a scope. -/
def step (schema : Schema E) (s : Scope E) (call : Call) : Step E :=
  ⟨call, (s.answer schema call).1, s, (s.answer schema call).2⟩

namespace Step

/-- The joins that a call has opened. -/
def opened (step : Step E) : List (Join E) :=
  step.after.joins.drop step.before.joins.length

/-- The last join that a call has opened, or the root if there is none. -/
def endpoint (step : Step E) : Source :=
  match step.opened.getLast? with
  | none => .root
  | some join => .join join.id

end Step

/-- The calls made on a new scope, and the scope after them.  A call starts at the root or
at a source that an earlier answer has handed out.  The calls made up to any point are a
history themselves. -/
inductive History (schema : Schema E) (root : E) : List (Step E) → Scope E → Prop
  | start : History schema root [] (.new root)
  | call {steps : List (Step E)} {s : Scope E} (h : History schema root steps s) (call : Call)
      (hsource : call.source = .root ∨ ∃ step ∈ steps, call.source ∈ step.answer.sources) :
      History schema root (steps ++ [s.step schema call]) (s.step schema call).after

/-! ## Sound scopes -/

/-- Joins are appended and nothing else is changed. -/
structure Extends (s s' : Scope E) : Prop where
  root_eq : s'.root = s.root
  joins_grow : s.joins <+: s'.joins

/-- The joins of a scope are well-formed, and each follows the first relation of its name
that is declared for the entity of its parent. -/
structure Sound (schema : Schema E) (s : Scope E) : Prop where
  wellFormed : WellFormedJoins s.joins
  declared : ∀ join ∈ s.joins,
    (schema.entity (s.entityAt join.parent)).relation? join.relation.name = some join.relation

/-- A field is read from a source of the scope and is the first one of its name that is
declared for the entity there. -/
structure Resolves (schema : Schema E) (s : Scope E) (f : FieldRef) : Prop where
  source_isBefore : f.source.IsBefore s.joins.length
  declared : (schema.entity (s.entityAt f.source)).field? f.name = some ⟨f.name, f.kind⟩

theorem Extends.refl (s : Scope E) : s.Extends s :=
  ⟨rfl, List.prefix_refl _⟩

variable {schema : Schema E} {s s' s'' : Scope E}

theorem Extends.trans (h : s.Extends s') (h' : s'.Extends s'') : s.Extends s'' :=
  ⟨h'.root_eq.trans h.root_eq, h.joins_grow.trans h'.joins_grow⟩

/-- A source of a scope is one of the extended scope. -/
theorem Extends.isBefore (h : s.Extends s') {source : Source}
    (hsource : source.IsBefore s.joins.length) : source.IsBefore s'.joins.length :=
  hsource.mono h.joins_grow.length_le

/-- A source of a scope keeps its entity. -/
theorem Extends.entityAt_eq (h : s.Extends s') {source : Source}
    (hsource : source.IsBefore s.joins.length) : s'.entityAt source = s.entityAt source := by
  cases source with
  | root => exact h.root_eq
  | join id =>
      have hid : s'.joins[id]? = s.joins[id]? := by
        obtain ⟨more, hmore⟩ := h.joins_grow
        rw [← hmore, List.getElem?_append_left hsource]
      rw [entityAt, entityAt, hid, List.getElem?_eq_getElem hsource]

/-- A field that resolves does so in the extended scope. -/
theorem Resolves.mono {f : FieldRef} (hf : s.Resolves schema f) (h : s.Extends s') :
    s'.Resolves schema f := by
  refine ⟨h.isBefore hf.source_isBefore, ?_⟩
  rw [h.entityAt_eq hf.source_isBefore]
  exact hf.declared

/-- A new scope is sound. -/
theorem Sound.new (schema : Schema E) (root : E) : (Scope.new root).Sound schema :=
  ⟨fun i hi => absurd hi (Nat.not_lt_zero i), fun _ hjoin => nomatch hjoin⟩

/-! ## Fields and joins -/

/-- A source has the fields of its entity. -/
theorem field_eq_ok_iff {source : Source} {name : String} {f : FieldRef} :
    s.field schema source name = .ok f ↔
      ∃ field, (schema.entity (s.entityAt source)).field? name = some field ∧
        f = ⟨source, name, field.kind⟩ := by
  rw [Scope.field]
  cases hfield : (schema.entity (s.entityAt source)).field? name with
  | none => simp
  | some field => simp [Entity.name_of_field? hfield, eq_comm]

/-- A field that is found has the name sought and resolves. -/
theorem resolves_of_field {source : Source} {name : String} {f : FieldRef}
    (hsource : source.IsBefore s.joins.length) (h : s.field schema source name = .ok f) :
    s.Resolves schema f ∧ f.source = source ∧ f.name = name := by
  obtain ⟨field, hfield, rfl⟩ := field_eq_ok_iff.mp h
  refine ⟨⟨hsource, ?_⟩, rfl, rfl⟩
  have hname := Entity.name_of_field? hfield
  subst hname
  exact hfield

/-- A join that is opened at a source of a sound scope keeps it sound. -/
theorem Sound.join (hs : s.Sound schema) {source next : Source} {name : String}
    (hsource : source.IsBefore s.joins.length)
    (h : s.join schema source name = .ok (next, s')) :
    s'.Sound schema ∧ s.Extends s' ∧ next.IsBefore s'.joins.length := by
  obtain ⟨hroot, rfl, r, hr, hjoins⟩ := joins_of_join h
  have hext : s.Extends s' := ⟨hroot, by rw [hjoins]; exact List.prefix_append _ _⟩
  refine ⟨⟨wellFormed_join hs.wellFormed hsource h, ?_⟩, hext, ?_⟩
  · intro join hjoin
    rw [hjoins] at hjoin
    rcases List.mem_append.mp hjoin with hold | hnew
    · obtain ⟨i, hi, rfl⟩ := List.mem_iff_getElem.mp hold
      have hparent := (hs.wellFormed i hi).2.mono (Nat.le_of_lt hi)
      rw [hext.entityAt_eq hparent]
      exact hs.declared _ hold
    · rw [List.mem_singleton.mp hnew]
      dsimp only
      rw [hext.entityAt_eq hsource, Entity.name_of_relation? hr]
      exact hr
  · rw [hjoins, List.length_append]
    exact Nat.lt_succ_self _

/-! ## Criteria -/

/-- Opening the joins of a path keeps a scope sound, also when some hop fails. -/
theorem Sound.openPath (hs : s.Sound schema) {source : Source}
    (hsource : source.IsBefore s.joins.length) {hops : List String}
    {result : Except NameError Source} (h : s.openPath schema source hops = (result, s')) :
    s'.Sound schema ∧ s.Extends s' := by
  induction hops generalizing s source with
  | nil =>
      cases h
      exact ⟨hs, .refl _⟩
  | cons hop hops ih =>
      rw [Scope.openPath] at h
      split at h
      · cases h
        exact ⟨hs, .refl _⟩
      · next next middle hjoin =>
          obtain ⟨hmiddle, hext, hnext⟩ := hs.join hsource hjoin
          obtain ⟨hs', hext'⟩ := ih hmiddle hnext h
          exact ⟨hs', hext.trans hext'⟩

/-- Compiling a criterion keeps a scope sound, also when the criterion is refused. -/
theorem Sound.compile (hs : s.Sound schema) {escape : Char} {c : Criterion}
    {result : Except CriterionError Predicate}
    (h : s.compile schema escape c = (result, s')) : s'.Sound schema ∧ s.Extends s' := by
  unfold Scope.compile at h
  split at h
  · cases h
    exact ⟨hs, .refl _⟩
  · split at h
    · cases h
      exact ⟨hs, .refl _⟩
    · split at h <;>
      · next hopen =>
          cases h
          exact hs.openPath (show Source.root.IsBefore _ from trivial) hopen

/-- The predicates of a criterion on sibling fields read fields found at its source. -/
theorem exists_of_mem_branches {escape : Char} {c : Criterion} {source : Source}
    {names : List String} {ps : List Predicate}
    (h : s.branches schema escape c source names = .ok ps) :
    ∀ p ∈ ps, ∀ f ∈ p.fields, ∃ name ∈ names, s.field schema source name = .ok f := by
  induction names generalizing ps with
  | nil =>
      cases h
      exact fun p hp => nomatch hp
  | cons name names ih =>
      rw [branches] at h
      cases hfield : s.field schema source name with
      | error e => simp [hfield] at h
      | ok field =>
          cases hfor : c.predicatesFor escape field with
          | error e => simp [hfield, hfor] at h
          | ok predicates =>
              simp only [hfield, hfor] at h
              obtain ⟨rest, hrest, rfl⟩ := exists_of_map_eq_ok h
              intro p hp f hf
              rcases List.mem_append.mp hp with hp | hp
              · rw [Criterion.fields_of_predicatesFor hfor hp, List.mem_singleton] at hf
                rw [hf]
                exact ⟨name, List.mem_cons_self, hfield⟩
              · obtain ⟨n, hn, hfound⟩ := ih hrest p hp f hf
                exact ⟨n, List.mem_cons_of_mem name hn, hfound⟩

/-- A criterion that compiles opens the chain of its path from the root on, and its
predicate reads fields of the path, all found at the end of the chain. -/
theorem exists_of_compile {escape : Char} {c : Criterion} {p : Predicate}
    (h : s.compile schema escape c = (.ok p, s')) :
    ∃ path rs, Path.ofColumn? c.column = some path ∧ schema.follow s.root path.hops = .ok rs ∧
      s' = s.append (chain s.joins.length .root rs) ∧
      ∀ f ∈ p.fields, ∃ name ∈ path.fields,
        s'.field schema (chainEnd s.joins.length .root rs) name = .ok f := by
  unfold compile at h
  split at h
  · cases h
  · split at h
    · cases h
    · next path hpath =>
        split at h
        · cases h
        · next source middle hopen =>
            obtain ⟨rs, hfollow, rfl, rfl⟩ := exists_of_openPath hopen
            obtain ⟨hp, rfl⟩ := Prod.mk.inj h
            obtain ⟨parts, hparts, rfl⟩ := exists_of_map_eq_ok hp
            refine ⟨path, rs, hpath, hfollow, rfl, ?_⟩
            intro f hf
            rw [Predicate.fields, Predicate.fieldsOfEach_eq_flatMap] at hf
            obtain ⟨part, hpart, hf⟩ := List.mem_flatMap.mp hf
            exact exists_of_mem_branches hparts part hpart f hf

/-! ## Answers -/

/-- A call that starts at a source of a sound scope keeps the scope sound, extends it, and
hands out sources and fields of the extended scope. -/
theorem Sound.answer (hs : s.Sound schema) {call : Call}
    (hsource : call.source.IsBefore s.joins.length) :
    (s.step schema call).after.Sound schema ∧ s.Extends (s.step schema call).after ∧
      (∀ f ∈ (s.step schema call).answer.fields, (s.step schema call).after.Resolves schema f) ∧
      ∀ source ∈ (s.step schema call).answer.sources,
        source.IsBefore (s.step schema call).after.joins.length := by
  cases call with
  | compile escape c =>
      cases hcompile : s.compile schema escape c with
      | mk result s' =>
          have hstep : s.step schema (.compile escape c) =
              ⟨.compile escape c, .predicate result, s, s'⟩ := by
            simp only [step, Scope.answer, hcompile]
          have hfields : ∀ f ∈ (Answer.predicate result).fields, s'.Resolves schema f := by
            intro f hf
            cases result with
            | error e => cases hf
            | ok p =>
                obtain ⟨path, rs, -, -, rfl, hread⟩ := exists_of_compile hcompile
                obtain ⟨name, -, hfound⟩ := hread f hf
                have hend := chainEnd_isBefore s.joins.length .root rs trivial
                exact (resolves_of_field (by simpa [append] using hend) hfound).1
          obtain ⟨hs', hext⟩ := hs.compile hcompile
          rw [hstep]
          refine ⟨hs', hext, hfields, ?_⟩
          intro source hmem
          obtain ⟨f, hf, rfl⟩ := List.mem_map.mp hmem
          exact (hfields f hf).source_isBefore
  | field source name =>
      have hfields : ∀ f ∈ (Answer.field (s.field schema source name)).fields,
          s.Resolves schema f := by
        intro f hf
        cases hfield : s.field schema source name with
        | error e =>
            rw [hfield] at hf
            cases hf
        | ok g =>
            rw [hfield] at hf
            rw [List.mem_singleton.mp hf]
            exact (resolves_of_field hsource hfield).1
      refine ⟨hs, .refl s, hfields, ?_⟩
      intro source hmem
      obtain ⟨f, hf, rfl⟩ := List.mem_map.mp hmem
      exact (hfields f hf).source_isBefore
  | join source name =>
      cases hjoin : s.join schema source name with
      | error e =>
          have hstep : s.step schema (.join source name) =
              ⟨.join source name, .source (.error e), s, s⟩ := by
            simp only [step, Scope.answer, hjoin]
          rw [hstep]
          refine ⟨hs, .refl s, ?_, ?_⟩
          · intro f hf
            cases hf
          · intro source hmem
            cases hmem
      | ok opened =>
          obtain ⟨next, s'⟩ := opened
          have hstep : s.step schema (.join source name) =
              ⟨.join source name, .source (.ok next), s, s'⟩ := by
            simp only [step, Scope.answer, hjoin]
          obtain ⟨hs', hext, hnext⟩ := hs.join hsource hjoin
          rw [hstep]
          refine ⟨hs', hext, ?_, ?_⟩
          · intro f hf
            cases hf
          · intro source hmem
            rw [List.mem_singleton.mp hmem]
            exact hnext

/-! ## Steps -/

/-- A chain ends at its last join, and an empty one where it starts. -/
theorem chainEnd_eq_getLast (id : Nat) (source : Source) (rs : List (Relation E)) :
    chainEnd id source rs =
      match (chain id source rs).getLast? with
      | none => source
      | some join => .join join.id := by
  induction rs generalizing id source with
  | nil => rfl
  | cons r rs ih =>
      rw [chainEnd, ih, chain, List.getLast?_cons]
      cases (chain (id + 1) (.join id) rs).getLast? <;> rfl

/-- The joins that a call opens are numbered behind those that it finds. -/
theorem Step.id_of_mem_opened {step : Step E} (hs : WellFormedJoins step.after.joins)
    {join : Join E} (h : join ∈ step.opened) :
    step.before.joins.length ≤ join.id ∧ join.id < step.after.joins.length := by
  obtain ⟨i, hi, rfl⟩ := List.mem_drop_iff_getElem.mp h
  have hlt : step.before.joins.length + i < step.after.joins.length := by omega
  rw [(hs _ hlt).1]
  exact ⟨Nat.le_add_right _ _, hlt⟩

/-- A field that a call hands out alone is the one that was asked for. -/
theorem call_eq_of_step_field {call : Call} {f : FieldRef}
    (hsource : call.source.IsBefore s.joins.length)
    (h : (s.step schema call).answer = .field (.ok f)) : call = .field f.source f.name := by
  cases call with
  | compile escape c => cases h
  | field source name =>
      obtain ⟨-, rfl, rfl⟩ := resolves_of_field hsource (Answer.field.inj h)
      rfl
  | join source name =>
      cases hjoin : s.join schema source name <;>
      · simp only [step, Scope.answer, hjoin] at h
        cases h

/-- A criterion that compiles opens one join for each hop of its path, each at the join
before it and the first at the root, and reads fields of the path at the last one. -/
theorem exists_of_step_compile {escape : Char} {c : Criterion} {p : Predicate}
    (h : (s.step schema (.compile escape c)).answer = .predicate (.ok p)) :
    ∃ path rs, Path.ofColumn? c.column = some path ∧ rs.map Relation.name = path.hops ∧
      (s.step schema (.compile escape c)).opened = chain s.joins.length .root rs ∧
      ∀ f ∈ p.fields, f.source = (s.step schema (.compile escape c)).endpoint ∧
        f.name ∈ path.fields := by
  obtain ⟨s', hcompile⟩ : ∃ s', s.compile schema escape c = (.ok p, s') :=
    ⟨(s.compile schema escape c).2, Prod.ext (Answer.predicate.inj h) rfl⟩
  obtain ⟨path, rs, hpath, hfollow, rfl, hread⟩ := exists_of_compile hcompile
  have hopened : (s.step schema (.compile escape c)).opened = chain s.joins.length .root rs := by
    simp only [Step.opened, step, Scope.answer, hcompile, append, List.drop_left]
  have hendpoint : (s.step schema (.compile escape c)).endpoint =
      chainEnd s.joins.length .root rs := by
    rw [Step.endpoint, hopened, chainEnd_eq_getLast]
  refine ⟨path, rs, hpath, Schema.names_of_follow hfollow, hopened, ?_⟩
  intro f hf
  obtain ⟨name, hname, hfound⟩ := hread f hf
  have hend := chainEnd_isBefore s.joins.length .root rs trivial
  obtain ⟨-, hsource, rfl⟩ := resolves_of_field (by simpa [append] using hend) hfound
  exact ⟨by rw [hsource, hendpoint], hname⟩

/-! ## Histories -/

namespace History

/-- What every call of a history keeps up. -/
structure Kept (schema : Schema E) (steps : List (Step E)) (s : Scope E) : Prop where
  sound : s.Sound schema
  step_eq : ∀ step ∈ steps, step = step.before.step schema step.call
  extends_after : ∀ step ∈ steps, step.before.Extends step.after
  extends_last : ∀ step ∈ steps, step.after.Extends s
  ordered : steps.Pairwise fun a b => a.after.Extends b.before
  found : ∀ step ∈ steps, ∀ f, step.answer = .field (.ok f) → step.call = .field f.source f.name
  resolved : ∀ step ∈ steps, ∀ f ∈ step.answer.fields, s.Resolves schema f
  sources_isBefore : ∀ step ∈ steps, ∀ source ∈ step.answer.sources,
    source.IsBefore s.joins.length

/-- One more call keeps all of it up. -/
theorem Kept.call {steps : List (Step E)} (h : Kept schema steps s) {call : Call}
    (hsource : call.source = .root ∨ ∃ step ∈ steps, call.source ∈ step.answer.sources) :
    Kept schema (steps ++ [s.step schema call]) (s.step schema call).after := by
  have hbefore : call.source.IsBefore s.joins.length := by
    rcases hsource with hroot | ⟨step, hstep, hmem⟩
    · rw [hroot]
      trivial
    · exact h.sources_isBefore step hstep _ hmem
  obtain ⟨hsound, hext, hfields, hsources⟩ := h.sound.answer hbefore
  -- Members of the longer list are the earlier steps and the new one.
  have hmem : ∀ {motive : Step E → Prop}, (∀ step ∈ steps, motive step) →
      motive (s.step schema call) → ∀ step ∈ steps ++ [s.step schema call], motive step := by
    intro motive hold hnew step hstep
    rcases List.mem_append.mp hstep with hstep | hstep
    · exact hold step hstep
    · rw [List.mem_singleton.mp hstep]
      exact hnew
  refine ⟨hsound, hmem h.step_eq rfl, hmem h.extends_after hext,
    hmem (fun step hstep => (h.extends_last step hstep).trans hext) (.refl _), ?_,
    hmem h.found fun f hf => call_eq_of_step_field hbefore hf,
    hmem (fun step hstep f hf => (h.resolved step hstep f hf).mono hext) hfields,
    hmem (fun step hstep source hs => hext.isBefore (h.sources_isBefore step hstep source hs))
      hsources⟩
  apply List.pairwise_append.mpr
  refine ⟨h.ordered, List.pairwise_singleton _ _, ?_⟩
  intro a ha b hb
  rw [List.mem_singleton.mp hb]
  exact h.extends_last a ha

variable {root : E} {steps : List (Step E)}

/-- Every history keeps it up. -/
theorem kept (h : History schema root steps s) : Kept schema steps s := by
  induction h with
  | start =>
      refine ⟨.new schema root, ?_, ?_, ?_, .nil, ?_, ?_, ?_⟩ <;>
      · intro step hstep
        cases hstep
  | call _ call hsource ih => exact ih.call hsource

/-- Calls leave the root. -/
theorem root_eq (h : History schema root steps s) : s.root = root := by
  induction h with
  | start => rfl
  | call h call hsource ih =>
      have hlast := h.kept.call hsource
      have hext := hlast.extends_after _ (List.mem_append_right _ (List.mem_singleton_self _))
      exact hext.root_eq.trans ih

/-- What the joins of a history are like, and what its calls have handed out. -/
structure Invariant (schema : Schema E) (root : E) (steps : List (Step E)) (s : Scope E) :
    Prop where
  root_eq : s.root = root
  /-- Every join is numbered by its place, starts at the root or an earlier join, and
  follows a relation that is declared there. -/
  sound : s.Sound schema
  /-- Every call leaves the joins that it finds, and so do the calls after it. -/
  appends : ∀ step ∈ steps,
    step.before.joins <+: step.after.joins ∧ step.after.joins <+: s.joins
  /-- A criterion that is compiled opens a join for each hop of its path, and its
  predicate reads fields of the path at the last of them. -/
  compiled : ∀ step ∈ steps, ∀ escape c p,
    step.call = .compile escape c → step.answer = .predicate (.ok p) →
      ∃ path rs, Path.ofColumn? c.column = some path ∧ rs.map Relation.name = path.hops ∧
        step.opened = chain step.before.joins.length .root rs ∧
        ∀ f ∈ p.fields, f.source = step.endpoint ∧ f.name ∈ path.fields
  /-- Two calls have no join in common. -/
  apart : steps.Pairwise fun a b => ∀ join ∈ a.opened, ∀ join' ∈ b.opened, join.id ≠ join'.id
  /-- A field that is looked up is the one that was asked for. -/
  found : ∀ step ∈ steps, ∀ f, step.answer = .field (.ok f) → step.call = .field f.source f.name
  /-- Every field that has been handed out is there. -/
  resolved : ∀ step ∈ steps, ∀ f ∈ step.answer.fields, s.Resolves schema f

/-- Two calls of a history have no join in common. -/
theorem Kept.apart (h : Kept schema steps s) :
    steps.Pairwise fun a b => ∀ join ∈ a.opened, ∀ join' ∈ b.opened, join.id ≠ join'.id := by
  refine h.ordered.imp_of_mem ?_
  intro a b ha hb hab join hjoin join' hjoin'
  have hlt := (a.id_of_mem_opened (h.sound.wellFormed.of_prefix (h.extends_last a ha).joins_grow)
    hjoin).2
  have hle := (b.id_of_mem_opened (h.sound.wellFormed.of_prefix (h.extends_last b hb).joins_grow)
    hjoin').1
  have hmiddle := hab.joins_grow.length_le
  omega

/-- After every history, whichever of its calls have failed, the joins are sound, no call
has changed the earlier ones or opened those of another call, and every field that was
handed out is the declared one. -/
theorem invariant (h : History schema root steps s) : Invariant schema root steps s := by
  have hkept := h.kept
  refine ⟨h.root_eq, hkept.sound, ?_, ?_, hkept.apart, hkept.found, hkept.resolved⟩
  · intro step hstep
    exact ⟨(hkept.extends_after step hstep).joins_grow,
      (hkept.extends_last step hstep).joins_grow⟩
  · intro step hstep escape c p hcall hanswer
    have heq := hkept.step_eq step hstep
    rw [hcall] at heq
    rw [heq] at hanswer ⊢
    exact exists_of_step_compile hanswer

/-- A criterion compiles, one fails after its join is open, and a field is found at a join
that is opened after them. -/
theorem invariant_books :
    let book : Entity Bool := ⟨"book", "Book", "id", [⟨"title", .text⟩], []⟩
    let books : Relation Bool := ⟨"books", true, .many⟩
    let author : Entity Bool := ⟨"author", "Author", "id", [⟨"name", .text⟩], [books]⟩
    let schema : Schema Bool := ⟨fun isBook => if isBook then book else author⟩
    ∃ steps s, History schema false steps s ∧
      s.joins = [⟨0, .root, books⟩, ⟨1, .root, books⟩, ⟨2, .root, books⟩] ∧
      steps.map (·.answer.fields) =
        [[⟨.join 0, "title", .text⟩], [], [], [⟨.join 2, "title", .text⟩]] ∧
      Invariant schema false steps s := by
  intro book books author schema
  have hstart : History schema false [] (.new false) := .start
  have h := ((hstart.call
    (.compile '!' ⟨"books.title", .equals, [.text "Emma"]⟩) (.inl rfl)).call
    (.compile '!' ⟨"books.pages", .equals, [.int 9]⟩) (.inl rfl)).call
    (.join .root "books") (.inl rfl)
  have hlast := h.call (.field (.join 2) "title")
    (.inr ⟨_, List.mem_append_right _ (List.mem_singleton_self _), by decide +kernel⟩)
  exact ⟨_, _, hlast, by decide +kernel, by decide +kernel, hlast.invariant⟩

end History

end Scope

end EntityQuery
