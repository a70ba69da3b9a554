import EntityQuery.Proofs.Criteria.Probe
import EntityQuery.Proofs.Join.Search

/-!
# Probes side by side

Criteria that are compiled one after another place their probes side by side: every
probe has joins of its own.  So one assignment finds, for all of them at once, whatever
each of them can find, and a combination of probes without negation selects the root
rows for which the same combination of findings holds.

Main results:

- Theorem `compileEach_of_probes`: compiling criteria places their probes.
- Theorem `exists_best_assignment`: one assignment serves all placed probes.
- Theorem `Decides.selects_iff`: what a combination of placed probes selects.
-/

namespace EntityQuery

variable {E : Type}

/-! ## Lists of probes -/

/-- The probes of criteria, or the first fault. -/
def Criterion.probes (schema : Schema E) (escape : Char) (root : E) :
    List Criterion → Except CriterionError (List (Probe E)) :=
  collect (probe schema escape root)

/-- The probes of a list with the operands of their tests bound, or the first fault. -/
def Probe.bindEach : List (Probe E) → Except KindMismatch (List (Probe E)) :=
  collect bind

/-! ## Placements -/

/-- A probe among the joins of a scope: the number of its first join, and the probe. -/
structure Placement (E : Type) where
  place : Nat
  probe : Probe E

namespace Placement

/-- The joins of the probe. -/
def joins (x : Placement E) : List (Join E) := x.probe.joins x.place

/-- The test of the probe at the end of its joins. -/
def predicate (x : Placement E) : Predicate := x.probe.predicate x.place

end Placement

/-- Probes placed one after another from a number on. -/
def placements : Nat → List (Probe E) → List (Placement E)
  | _, [] => []
  | place, q :: qs => ⟨place, q⟩ :: placements (place + q.relations.length) qs

/-- The predicates of probes placed from a number on. -/
def placedPredicates (place : Nat) (qs : List (Probe E)) : List Predicate :=
  (placements place qs).map (·.predicate)

theorem map_probe_placements (place : Nat) (qs : List (Probe E)) :
    (placements place qs).map (·.probe) = qs := by
  induction qs generalizing place with
  | nil => rfl
  | cons q qs ih => rw [placements, List.map_cons, ih]

/-- The probe of a placement is one of those placed. -/
theorem mem_of_mem_placements {place : Nat} {qs : List (Probe E)} {x : Placement E}
    (h : x ∈ placements place qs) : x.probe ∈ qs := by
  have hmem : x.probe ∈ (placements place qs).map (·.probe) := List.mem_map_of_mem h
  rwa [map_probe_placements] at hmem

/-- Every probe is placed. -/
theorem exists_placement (place : Nat) {qs : List (Probe E)} {q : Probe E} (h : q ∈ qs) :
    ∃ x ∈ placements place qs, x.probe = q := by
  rw [← map_probe_placements place qs] at h
  exact List.mem_map.mp h

/-- Binding probes side by side binds their predicates. -/
theorem bindEach_placedPredicates (place : Nat) (qs : List (Probe E)) :
    Predicate.bindEach (placedPredicates place qs) =
      (Probe.bindEach qs).map (placedPredicates place) := by
  induction qs generalizing place with
  | nil => rfl
  | cons q qs ih =>
      have hrest := ih (place + q.relations.length)
      rw [placedPredicates] at hrest
      rw [placedPredicates, placements, List.map_cons, Predicate.bindEach,
        Placement.predicate, Probe.bind_predicate, hrest, Probe.bindEach, collect]
      cases hq : q.bind with
      | error e => rfl
      | ok bound =>
          cases collect Probe.bind qs with
          | error e => rfl
          | ok rest =>
              simp [Except.map, placedPredicates, placements, Placement.predicate,
                Probe.relations_of_bind hq]

/-! ## Scopes with placed probes -/

namespace Scope

/-- The scope with the joins of probes placed one after another. -/
def openAll (s : Scope E) (qs : List (Probe E)) : Scope E :=
  s.append ((placements s.joins.length qs).flatMap (·.joins))

theorem openAll_nil (s : Scope E) : s.openAll [] = s := s.append_nil

theorem openAll_cons (s : Scope E) (q : Probe E) (qs : List (Probe E)) :
    s.openAll (q :: qs) = (s.append (q.joins s.joins.length)).openAll qs := by
  simp [openAll, placements, append, Placement.joins, Probe.joins]

theorem openAll_append (s : Scope E) (qs os : List (Probe E)) :
    s.openAll (qs ++ os) = (s.openAll qs).openAll os := by
  induction qs generalizing s with
  | nil => rw [List.nil_append, openAll_nil]
  | cons q qs ih => rw [List.cons_append, openAll_cons, openAll_cons, ih]

/-- Binding leaves the joins of probes. -/
theorem openAll_of_bindEach {s : Scope E} {qs bound : List (Probe E)}
    (h : Probe.bindEach qs = .ok bound) : s.openAll bound = s.openAll qs := by
  induction qs generalizing s bound with
  | nil =>
      cases h
      rfl
  | cons q qs ih =>
      obtain ⟨b, rest, hq, hrest, rfl⟩ := exists_of_collect_cons h
      rw [openAll_cons, openAll_cons, ih hrest, Probe.joins, Probe.relations_of_bind hq,
        Probe.joins]

/-- Placing probes behind others continues their numbers. -/
theorem placements_append (s : Scope E) (qs os : List (Probe E)) :
    placements s.joins.length (qs ++ os) =
      placements s.joins.length qs ++ placements (s.openAll qs).joins.length os := by
  induction qs generalizing s with
  | nil => rw [openAll_nil, List.nil_append, placements, List.nil_append]
  | cons q qs ih =>
      have hrest := ih (s.append (q.joins s.joins.length))
      simp only [append, Probe.joins, List.length_append, length_chain] at hrest
      rw [List.cons_append, placements, hrest, openAll_cons]
      rfl

/-- A scope without joins has well-formed ones. -/
theorem wellFormed_new (entity : E) : WellFormedJoins (Scope.new entity).joins :=
  fun i hi => absurd hi (Nat.not_lt_zero i)

/-- Probes behind well-formed joins keep them well-formed. -/
theorem wellFormed_openAll {s : Scope E} (hs : WellFormedJoins s.joins) (qs : List (Probe E)) :
    WellFormedJoins (s.openAll qs).joins := by
  induction qs generalizing s with
  | nil =>
      rw [openAll_nil]
      exact hs
  | cons q qs ih =>
      rw [openAll_cons]
      exact ih (hs.append_chain .root trivial q.relations)

/-- The joins of a placed probe are open. -/
theorem mem_joins_openAll {s : Scope E} {qs : List (Probe E)} {x : Placement E}
    (hx : x ∈ placements s.joins.length qs) {join : Join E} (hjoin : join ∈ x.joins) :
    join ∈ (s.openAll qs).joins :=
  List.mem_append_right _ (List.mem_flatMap.mpr ⟨x, hx, hjoin⟩)

variable {schema : Schema E} {escape : Char}

/-- Criteria with probes are compiled to their predicates side by side. -/
theorem compileEach_of_probes {s : Scope E} {cs : List Criterion} {qs : List (Probe E)}
    (h : Criterion.probes schema escape s.root cs = .ok qs) :
    s.compileEach schema escape cs =
      (.ok (placedPredicates s.joins.length qs), s.openAll qs) := by
  induction cs generalizing s qs with
  | nil =>
      cases h
      rw [compileEach, openAll_nil]
      rfl
  | cons c cs ih =>
      obtain ⟨q, rest, hq, hrest, rfl⟩ := exists_of_collect_cons h
      have hcs := ih (s := s.append (q.joins s.joins.length)) hrest
      rw [compileEach, compile_of_probe hq]
      simp only [hcs, openAll_cons, Except.map]
      simp [placedPredicates, placements, append, Probe.joins, Placement.predicate]

/-- A criterion without a probe stops the compilation of a list. -/
theorem compileEach_of_probes_error {s : Scope E} {cs : List Criterion}
    {fault : CriterionError} (h : Criterion.probes schema escape s.root cs = .error fault) :
    (s.compileEach schema escape cs).1 = .error fault := by
  induction cs generalizing s with
  | nil => cases h
  | cons c cs ih =>
      rcases error_of_collect_cons h with hq | ⟨q, hq, hrest⟩
      · have hc := compile_of_probe_error hq
        cases hcompile : s.compile schema escape c with
        | mk result s' =>
            rw [hcompile] at hc
            cases hc
            rw [compileEach, hcompile]
      · have hcs := ih (s := s.append (q.joins s.joins.length)) hrest
        rw [compileEach, compile_of_probe hq]
        simp only [hcs, Except.map]

end Scope

/-! ## Finding -/

/-- A placed probe that is true under an assignment finds something. -/
theorem finds_of_evaluate {joins : List (Join E)} {root : Row} {d : Choice}
    (hj : WellFormedJoins joins) (hd : Assignment joins root d) {x : Placement E}
    (hx : ∀ join ∈ x.joins, join ∈ joins) (h : x.predicate.evaluate d = .yes) :
    x.probe.Finds root := by
  have hroot : d.row? .root = some root := congrArg some hd.root_eq
  have hreach := hd.reaches_chain x.place .root fun join hjoin => hj.getElem?_id (hx join hjoin)
  rw [hroot] at hreach
  refine ⟨d.row? (x.probe.source x.place), hreach, ?_⟩
  rw [← Predicate.evaluate_relocate rfl]
  exact h

/-- Among the rows at the end of a probe's path there is one that fulfils the test, if
the probe finds anything at all. -/
theorem Probe.exists_best_row (q : Probe E) (root : Row) :
    ∃ last, Reaches (some root) (q.relations.map (·.name)) last ∧
      (q.Finds root → q.test.evaluateAt last = .yes) := by
  by_cases hfinds : q.Finds root
  · obtain ⟨last, hlast, hyes⟩ := hfinds
    exact ⟨last, hlast, fun _ => hyes⟩
  · obtain ⟨last, hlast⟩ := exists_reaches (some root) (q.relations.map (·.name))
    exact ⟨last, hlast, fun h => absurd h hfinds⟩

/-- One assignment finds for every placed probe what can be found. -/
theorem exists_best_assignment {s : Scope E} (hs : WellFormedJoins s.joins) {root : Row}
    {c : Choice} (hc : Assignment s.joins root c) (qs : List (Probe E)) :
    ∃ d, Assignment (s.openAll qs).joins root d ∧
      (∀ source : Source, source.IsBefore s.joins.length → d.row? source = c.row? source) ∧
      ∀ x ∈ placements s.joins.length qs, x.probe.Finds root → x.predicate.evaluate d = .yes := by
  induction qs generalizing s c with
  | nil =>
      rw [Scope.openAll_nil]
      exact ⟨c, hc, fun _ _ => rfl, fun x hx => nomatch hx⟩
  | cons q qs ih =>
      obtain ⟨last, hlast, hbest⟩ := q.exists_best_row root
      have hroot : c.row? .root = some root := congrArg some hc.root_eq
      obtain ⟨e, he, hend, hagree⟩ := hc.exists_append_chain hs .root trivial
        (by rw [hroot]; exact hlast)
      have hnext : WellFormedJoins (s.append (q.joins s.joins.length)).joins :=
        hs.append_chain .root trivial q.relations
      have hlength : (s.append (q.joins s.joins.length)).joins.length =
          s.joins.length + q.relations.length := by
        simp [Scope.append, Probe.joins]
      obtain ⟨d, hd, hkeep, hrest⟩ := ih hnext (c := e) he
      rw [hlength] at hkeep hrest
      refine ⟨d, by rw [Scope.openAll_cons]; exact hd, ?_, ?_⟩
      · intro source hsource
        rw [hkeep source (hsource.mono (Nat.le_add_right _ _))]
        exact hagree source hsource
      · intro x hx hfinds
        rcases List.mem_cons.mp hx with rfl | hx
        · have hbefore := chainEnd_isBefore s.joins.length .root q.relations trivial
          have hsource : d.row? (q.source s.joins.length) = last := by
            rw [Probe.source, hkeep _ hbefore]
            exact hend
          rw [Placement.predicate, Probe.predicate, Predicate.evaluate_relocate hsource]
          exact hbest hfinds
        · exact hrest x hx hfinds

/-! ## Combinations of probes -/

/-- A predicate decides a property of root rows with the help of placed probes: it is
true under no assignment for other rows, and it is true under an assignment that finds
whatever the probes can find. -/
structure Decides (joins : List (Join E)) (xs : List (Placement E)) (p : Predicate)
    (property : Row → Prop) : Prop where
  sound : ∀ {root : Row} {d : Choice}, Assignment joins root d → p.evaluate d = .yes →
    property root
  complete : ∀ {root : Row} {d : Choice}, Assignment joins root d →
    (∀ x ∈ xs, x.probe.Finds root → x.predicate.evaluate d = .yes) → property root →
    p.evaluate d = .yes

namespace Decides

variable {joins : List (Join E)} {xs : List (Placement E)}

/-- A placed probe decides what it finds. -/
theorem placed (hj : WellFormedJoins joins) {x : Placement E} (hx : x ∈ xs)
    (hjoins : ∀ join ∈ x.joins, join ∈ joins) : Decides joins xs x.predicate x.probe.Finds where
  sound := fun hd h => finds_of_evaluate hj hd hjoins h
  complete := fun _ hbest h => hbest x hx h

variable {α : Type} {items : List α} {predicate : α → Predicate} {property : α → Row → Prop}

/-- A group decides the conjunction of what its parts decide. -/
theorem all (h : ∀ a ∈ items, Decides joins xs (predicate a) (property a)) :
    Decides joins xs (.all (items.map predicate)) fun root => ∀ a ∈ items, property a root where
  sound := by
    intro root d hd hyes a ha
    exact (h a ha).sound hd
      (Predicate.evaluate_all_eq_yes_iff.mp hyes _ (List.mem_map_of_mem ha))
  complete := by
    intro root d hd hbest hprop
    apply Predicate.evaluate_all_eq_yes_iff.mpr
    intro part hpart
    obtain ⟨a, ha, rfl⟩ := List.mem_map.mp hpart
    exact (h a ha).complete hd hbest (hprop a ha)

/-- An alternative decides the disjunction of what its parts decide. -/
theorem any (h : ∀ a ∈ items, Decides joins xs (predicate a) (property a)) :
    Decides joins xs (.any (items.map predicate)) fun root => ∃ a ∈ items, property a root where
  sound := by
    intro root d hd hyes
    obtain ⟨part, hpart, hpyes⟩ := Predicate.evaluate_any_eq_yes_iff.mp hyes
    obtain ⟨a, ha, rfl⟩ := List.mem_map.mp hpart
    exact ⟨a, ha, (h a ha).sound hd hpyes⟩
  complete := by
    rintro root d hd hbest ⟨a, ha, hprop⟩
    exact Predicate.evaluate_any_eq_yes_iff.mpr
      ⟨_, List.mem_map_of_mem ha, (h a ha).complete hd hbest hprop⟩

/-- Two predicates decide together what each of them decides. -/
theorem and {p q : Predicate} {m n : Row → Prop} (hp : Decides joins xs p m)
    (hq : Decides joins xs q n) : Decides joins xs (p.and q) fun root => m root ∧ n root where
  sound := by
    intro root d hd hyes
    have hparts := Predicate.evaluate_all_eq_yes_iff.mp hyes
    exact ⟨hp.sound hd (hparts p (by simp)), hq.sound hd (hparts q (by simp))⟩
  complete := by
    rintro root d hd hbest ⟨hm, hn⟩
    apply Predicate.evaluate_all_eq_yes_iff.mpr
    simpa using ⟨hp.complete hd hbest hm, hq.complete hd hbest hn⟩

/-- One of two predicates decides what one of them decides. -/
theorem or {p q : Predicate} {m n : Row → Prop} (hp : Decides joins xs p m)
    (hq : Decides joins xs q n) : Decides joins xs (p.or q) fun root => m root ∨ n root where
  sound := by
    intro root d hd hyes
    obtain ⟨part, hpart, hpyes⟩ := Predicate.evaluate_any_eq_yes_iff.mp hyes
    rcases List.mem_cons.mp hpart with rfl | hpart
    · exact Or.inl (hp.sound hd hpyes)
    · rw [List.mem_singleton.mp hpart] at hpyes
      exact Or.inr (hq.sound hd hpyes)
  complete := by
    intro root d hd hbest hprop
    apply Predicate.evaluate_any_eq_yes_iff.mpr
    rcases hprop with hm | hn
    · exact ⟨p, by simp, hp.complete hd hbest hm⟩
    · exact ⟨q, by simp, hq.complete hd hbest hn⟩

/-- A combination of the probes of a scope selects the rows that it decides. -/
theorem selects_iff {s : Scope E} (hs : WellFormedJoins s.joins) {qs : List (Probe E)}
    {p : Predicate} {m : Row → Prop}
    (h : Decides (s.openAll qs).joins (placements s.joins.length qs) p m) (root : Row) :
    selects (s.openAll qs).joins p root = true ↔ m root := by
  rw [selects, Plan.selects, run_ofPredicate_iff (Scope.wellFormed_openAll hs qs) p]
  constructor
  · rintro ⟨d, hd, hyes⟩
    exact h.sound hd hyes
  · intro hm
    obtain ⟨c, -, hc⟩ := (PartialAssignment.start s.joins root).exists_assignment hs
    obtain ⟨d, hd, -, hbest⟩ := exists_best_assignment hs hc qs
    exact ⟨d, hd, h.complete hd hbest hm⟩

end Decides

/-- The test of a single probe selects the rows that the probe finds something for. -/
theorem selects_predicate_iff {s : Scope E} (hs : WellFormedJoins s.joins) (q : Probe E)
    (root : Row) :
    selects (s.append (q.joins s.joins.length)).joins (q.predicate s.joins.length) root = true ↔
      q.Finds root := by
  have hx : (⟨s.joins.length, q⟩ : Placement E) ∈ placements s.joins.length [q] :=
    List.mem_cons_self
  have hdecides := Decides.placed (Scope.wellFormed_openAll hs [q]) hx
    fun join hjoin => Scope.mem_joins_openAll hx hjoin
  have hselects := hdecides.selects_iff hs root
  rw [Scope.openAll_cons, Scope.openAll_nil] at hselects
  exact hselects

end EntityQuery
