import EntityQuery.Proofs.Join.Linking

/-!
# What the search for rows finds

A root row is searched for by a plan: alternatives one by one, groups of conjuncts one
by one, and inside a group join by join, giving up where the group can no longer become
true.  None of this changes the answer: a row is selected exactly when a complete
left-outer assignment of all joins makes the whole predicate true.

Main results:

- Definition `SearchState`: the invariant of the search inside a group.
- Theorem `existsChoice_iff`: what the search inside a group finds.
- Theorem `run_ofPredicate_iff`: what the plan of a predicate finds.
- Theorem `selects_iff_exists_assignment`: which rows a predicate selects.
-/

namespace EntityQuery

variable {E : Type} {joins : List (Join E)} {root : Row} {ps : List Predicate}

/-! ## Predicates under extensions -/

/-- A predicate of which nothing is pending keeps its truth value. -/
theorem Predicate.evaluate_eq_of_extends {c d : Choice} (h : c.Extends d) {p : Predicate}
    (hp : ∀ f ∈ p.fields, c.isPending f.source = false) : p.evaluate d = p.evaluate c :=
  evaluate_congr fun f hf => h.value_eq (hp f hf)

/-- The truth values that the predicates of a group can take together. -/
def reachable (ps : List Predicate) (c : Choice) : Outcomes :=
  .all (ps.map (·.outcomes c))

theorem all_evaluate_mem_reachable {c d : Choice} (h : c.Extends d) (ps : List Predicate) :
    Truth.all (ps.map (·.evaluate d)) ∈ reachable ps c :=
  Outcomes.all_mem_all fun p _ => p.evaluate_mem_outcomes h

theorem all_evaluate_eq_yes_iff {d : Choice} :
    Truth.all (ps.map (·.evaluate d)) = .yes ↔ ∀ p ∈ ps, p.evaluate d = .yes := by
  simp [Truth.all_eq_yes_iff]

/-- A certain group is true under every extension. -/
theorem evaluate_of_isCertain {c d : Choice} (h : c.Extends d)
    (hcertain : (reachable ps c).isCertain = true) : ∀ p ∈ ps, p.evaluate d = .yes := by
  have hmem := all_evaluate_mem_reachable h ps
  rw [Outcomes.isCertain_iff.mp hcertain, Outcomes.mem_exactly] at hmem
  exact all_evaluate_eq_yes_iff.mp hmem

/-- A group that is true under some extension can still become true. -/
theorem canBeTrue_of_evaluate {c d : Choice} (h : c.Extends d)
    (hd : ∀ p ∈ ps, p.evaluate d = .yes) : (reachable ps c).canBeTrue = true := by
  have hmem := all_evaluate_mem_reachable h ps
  rw [all_evaluate_eq_yes_iff.mpr hd] at hmem
  exact Outcomes.canBeTrue_iff.mpr hmem

/-- A group of which nothing is pending is certain as soon as it can be true. -/
theorem isCertain_of_not_pending {c : Choice}
    (h : ∀ p ∈ ps, ∀ f ∈ p.fields, c.isPending f.source = false)
    (htrue : (reachable ps c).canBeTrue = true) : (reachable ps c).isCertain = true := by
  have hexact : reachable ps c = .exactly (Truth.all (ps.map (·.evaluate c))) :=
    Outcomes.all_exactly fun p hp => Predicate.outcomes_eq_exactly (h p hp)
  rw [hexact, Outcomes.canBeTrue_iff, Outcomes.mem_exactly] at htrue
  rw [Outcomes.isCertain_iff, hexact, htrue]

/-! ## The search inside a group -/

theorem existsChoice_of_isCertain {order : List Nat} {c : Choice}
    (h : (reachable ps c).isCertain = true) : existsChoice joins ps order c = true := by
  unfold reachable at h
  cases order <;> simp [existsChoice, h]

theorem existsChoice_of_not_canBeTrue {order : List Nat} {c : Choice}
    (h : (reachable ps c).canBeTrue = false) : existsChoice joins ps order c = false := by
  have hcertain : (reachable ps c).isCertain = false := by
    rw [Bool.eq_false_iff]
    intro hcertain
    rw [Outcomes.isCertain_iff.mp hcertain] at h
    cases h
  unfold reachable at h hcertain
  cases order <;> simp [existsChoice, h, hcertain]

theorem existsChoice_cons {id : Nat} {rest : List Nat} {join : Join E} {c : Choice}
    (hcertain : (reachable ps c).isCertain = false) (htrue : (reachable ps c).canBeTrue = true)
    (hjoin : joins[id]? = some join) :
    existsChoice joins ps (id :: rest) c =
      (candidates join c).any fun slot => existsChoice joins ps rest (c.choose id slot) := by
  unfold reachable at hcertain htrue
  simp [existsChoice, hcertain, htrue, hjoin]

/-- A search under way: what is chosen so far is left-outer, the joins ahead are pending
and stand in ascending order, and whatever is pending of what the predicates and the
joins ahead look at is ahead as well. -/
structure SearchState (joins : List (Join E)) (root : Row) (ps : List Predicate)
    (order : List Nat) (c : Choice) : Prop where
  leftOuter : PartialAssignment joins root c
  ascending : order.Pairwise (· < ·)
  pending : ∀ id ∈ order, id < joins.length → c.slots[id]? = some .pending
  parents : ∀ id ∈ order, ∀ join, joins[id]? = some join → ∀ k, join.parent = .join k →
    c.isPending (.join k) = true → k ∈ order
  fields : ∀ p ∈ ps, ∀ f ∈ p.fields, ∀ k, f.source = .join k →
    c.isPending (.join k) = true → k ∈ order

namespace SearchState

variable {c : Choice} {id : Nat} {rest order : List Nat} {join : Join E}

/-- Only joins of the list can be pending. -/
theorem lt_of_isPending (h : SearchState joins root ps order c) {k : Nat}
    (hk : c.isPending (.join k) = true) : k < joins.length := by
  rw [← h.leftOuter.length_eq]
  exact (List.getElem?_eq_some_iff.mp (Choice.isPending_join_iff.mp hk)).1

/-- A search with no join of the list ahead has nothing of the predicates pending. -/
theorem not_pending (h : SearchState joins root ps order c)
    (hout : ∀ id ∈ order, joins.length ≤ id) :
    ∀ p ∈ ps, ∀ f ∈ p.fields, c.isPending f.source = false := by
  intro p hp f hf
  cases hsource : f.source with
  | root => rfl
  | join k =>
      rw [Bool.eq_false_iff]
      intro hpending
      have hlt := h.lt_of_isPending hpending
      have hge := hout k (h.fields p hp f hf k hsource hpending)
      omega

/-- The parent of the next join has been chosen. -/
theorem parent_not_pending (hj : WellFormedJoins joins)
    (h : SearchState joins root ps (id :: rest) c) (hjoin : joins[id]? = some join) :
    c.isPending join.parent = false := by
  cases hp : join.parent with
  | root => rfl
  | join k =>
      rw [Bool.eq_false_iff]
      intro hpending
      have hlt := hj.parent_lt hjoin hp
      rcases List.mem_cons.mp (h.parents id List.mem_cons_self join hjoin k hp hpending) with
        heq | hrest
      · omega
      · have hgt := (List.pairwise_cons.mp h.ascending).1 k hrest
        omega

/-- What can be chosen for the next join is justified. -/
theorem justifies_candidate (hj : WellFormedJoins joins)
    (h : SearchState joins root ps (id :: rest) c) (hjoin : joins[id]? = some join)
    {slot : Slot} (hslot : slot ∈ candidates join c) : c.Justifies join slot :=
  ⟨h.parent_not_pending hj hjoin, mem_candidates.mp hslot⟩

/-- Choosing a candidate for the next join leads on to the joins behind it. -/
theorem step (hj : WellFormedJoins joins) (h : SearchState joins root ps (id :: rest) c)
    (hjoin : joins[id]? = some join) {slot : Slot} (hslot : slot ∈ candidates join c) :
    c.Extends (c.choose id slot) ∧ SearchState joins root ps rest (c.choose id slot) := by
  have hlt : id < joins.length := (List.getElem?_eq_some_iff.mp hjoin).1
  have hpending := h.pending id List.mem_cons_self hlt
  have hext := Choice.extends_choose hpending slot
  obtain ⟨hbelow, hascending⟩ := List.pairwise_cons.mp h.ascending
  have hjust := h.justifies_candidate hj hjoin hslot
  -- The join that was chosen for is the only one that is no longer pending.
  have hahead : ∀ k, (c.choose id slot).isPending (.join k) = true → k ∈ id :: rest →
      k ∈ rest := by
    intro k hk hmem
    rcases List.mem_cons.mp hmem with rfl | hrest
    · obtain ⟨-, next, rfl, -⟩ := hjust
      have hself : k < c.slots.length := (List.getElem?_eq_some_iff.mp hpending).1
      rw [Choice.isPending_join_iff] at hk
      simp [Choice.choose, List.getElem?_set_self hself, Slot.ofRow?_ne_pending] at hk
    · exact hrest
  have hbefore : ∀ k, (c.choose id slot).isPending (.join k) = true →
      c.isPending (.join k) = true := by
    intro k hk
    by_cases hc : c.isPending (.join k) = true
    · exact hc
    · rw [hext.isPending_eq_false (Bool.eq_false_iff.mpr hc)] at hk
      cases hk
  refine ⟨hext, h.leftOuter.choose hjoin hpending hjust, hascending, ?_, ?_, ?_⟩
  · intro k hk hklt
    have hne : id ≠ k := Nat.ne_of_lt (hbelow k hk)
    simp [Choice.choose, List.getElem?_set_ne hne,
      h.pending k (List.mem_cons_of_mem id hk) hklt]
  · intro k hk join' hjoin' m hparent hm
    exact hahead m hm
      (h.parents k (List.mem_cons_of_mem id hk) join' hjoin' m hparent (hbefore m hm))
  · intro p hp f hf m hsource hm
    exact hahead m hm (h.fields p hp f hf m hsource (hbefore m hm))

/-- An assignment that keeps what is chosen takes a candidate for the next join. -/
theorem exists_candidate (hj : WellFormedJoins joins)
    (h : SearchState joins root ps (id :: rest) c) (hjoin : joins[id]? = some join) {d : Choice}
    (hext : c.Extends d) (hd : Assignment joins root d) :
    ∃ slot ∈ candidates join c, (c.choose id slot).Extends d := by
  obtain ⟨next, hnext, houter⟩ := hd.chosen id join hjoin
  rw [hext.row?_eq (h.parent_not_pending hj hjoin)] at houter
  refine ⟨.ofRow? next, mem_candidates.mpr ⟨next, rfl, houter⟩, hext.root_eq, ?_, ?_⟩
  · simpa [Choice.choose] using hext.length_eq
  · intro k slot hslot hne
    by_cases hk : id = k
    · subst hk
      have hlt : id < c.slots.length := by
        simpa [Choice.choose] using (List.getElem?_eq_some_iff.mp hslot).1
      have heq : slot = .ofRow? next := by
        simpa [Choice.choose, List.getElem?_set_self hlt] using hslot.symm
      rw [heq, hnext]
    · have hold : c.slots[k]? = some slot := by
        simpa [Choice.choose, List.getElem?_set_ne hk] using hslot
      exact hext.keeps k slot hold hne

end SearchState

/-- A group that is certain, or can no longer become true, is answered at once. -/
theorem existsChoice_iff_of_decided (hj : WellFormedJoins joins) {order : List Nat} {c : Choice}
    (h : SearchState joins root ps order c)
    (hdecided : (reachable ps c).isCertain = true ∨ (reachable ps c).canBeTrue = false) :
    existsChoice joins ps order c = true ↔
      ∃ d, c.Extends d ∧ Assignment joins root d ∧ ∀ p ∈ ps, p.evaluate d = .yes := by
  rcases hdecided with hcertain | hfalse
  · rw [existsChoice_of_isCertain hcertain]
    obtain ⟨d, hext, hd⟩ := h.leftOuter.exists_assignment hj
    exact iff_of_true rfl ⟨d, hext, hd, evaluate_of_isCertain hext hcertain⟩
  · rw [existsChoice_of_not_canBeTrue hfalse]
    refine iff_of_false Bool.false_ne_true ?_
    rintro ⟨d, hext, -, hd⟩
    rw [canBeTrue_of_evaluate hext hd] at hfalse
    cases hfalse

/-- The search inside a group succeeds exactly when some assignment that keeps what is
chosen makes all its predicates true. -/
theorem existsChoice_iff (hj : WellFormedJoins joins) {order : List Nat} {c : Choice}
    (h : SearchState joins root ps order c) :
    existsChoice joins ps order c = true ↔
      ∃ d, c.Extends d ∧ Assignment joins root d ∧ ∀ p ∈ ps, p.evaluate d = .yes := by
  -- The induction follows the joins ahead; `SearchState` holds at every step.
  induction order generalizing c with
  | nil =>
      apply existsChoice_iff_of_decided hj h
      by_cases htrue : (reachable ps c).canBeTrue = true
      · exact Or.inl (isCertain_of_not_pending (h.not_pending (by simp)) htrue)
      · exact Or.inr (Bool.eq_false_iff.mpr htrue)
  | cons id rest ih =>
      by_cases htrue : (reachable ps c).canBeTrue = true
      · by_cases hcertain : (reachable ps c).isCertain = true
        · exact existsChoice_iff_of_decided hj h (Or.inl hcertain)
        · cases hjoin : joins[id]? with
          | none =>
              have hout : ∀ k ∈ id :: rest, joins.length ≤ k := by
                have hid := List.getElem?_eq_none_iff.mp hjoin
                intro k hk
                rcases List.mem_cons.mp hk with rfl | hrest
                · exact hid
                · have hlt := (List.pairwise_cons.mp h.ascending).1 k hrest
                  omega
              exact absurd (isCertain_of_not_pending (h.not_pending hout) htrue) hcertain
          | some join =>
              rw [existsChoice_cons (Bool.eq_false_iff.mpr hcertain) htrue hjoin, List.any_eq_true]
              constructor
              · rintro ⟨slot, hslot, hfound⟩
                obtain ⟨hext, hstate⟩ := h.step hj hjoin hslot
                obtain ⟨d, hd, hassign, hyes⟩ := (ih hstate).mp hfound
                exact ⟨d, hext.trans hd, hassign, hyes⟩
              · rintro ⟨d, hext, hd, hyes⟩
                obtain ⟨slot, hslot, hkeeps⟩ := h.exists_candidate hj hjoin hext hd
                exact ⟨slot, hslot, (ih (h.step hj hjoin hslot).2).mpr ⟨d, hkeeps, hd, hyes⟩⟩
      · exact existsChoice_iff_of_decided hj h (Or.inr (Bool.eq_false_iff.mpr htrue))

/-! ## Plans -/

theorem runAll_eq_true_iff {plans : List Plan} {c : Choice} :
    Plan.runAll joins c plans = true ↔ ∀ plan ∈ plans, plan.run joins c = true := by
  induction plans with
  | nil => simp [Plan.runAll]
  | cons plan plans ih => simp [Plan.runAll, ih]

theorem runAny_eq_true_iff {plans : List Plan} {c : Choice} :
    Plan.runAny joins c plans = true ↔ ∃ plan ∈ plans, plan.run joins c = true := by
  induction plans with
  | nil => simp [Plan.runAny]
  | cons plan plans ih => simp [Plan.runAny, ih]

theorem ofEach_eq_map (parts : List Predicate) :
    Plan.ofEach joins parts = parts.map fun part => (part, Plan.ofPredicate joins part) := by
  induction parts with
  | nil => rfl
  | cons part parts ih => simp [Plan.ofEach, ih]

/-- Every assignment fills a choice in which all joins are pending. -/
theorem Assignment.extends_start {d : Choice} (hd : Assignment joins root d) :
    (Choice.start root joins.length).Extends d := by
  refine ⟨hd.root_eq, by simp [Choice.start, hd.length_eq], ?_⟩
  intro id slot hslot hne
  simp only [Choice.start, List.getElem?_replicate] at hslot
  split at hslot
  · exact absurd (Option.some.inj hslot).symm hne
  · cases hslot

/-- A search may start with the joins that its predicates read. -/
theorem SearchState.start {js : JoinSet} (hjs : ParentClosed joins js)
    (hascending : js.Pairwise (· < ·))
    (hfields : ∀ p ∈ ps, ∀ f ∈ p.fields, ∀ k, f.source = .join k → k ∈ js) :
    SearchState joins root ps js (.start root joins.length) where
  leftOuter := .start joins root
  ascending := hascending
  pending := by
    intro id _ hlt
    simp [Choice.start, hlt]
  parents := fun id hid join hjoin k hparent _ => hjs id hid join hjoin k hparent
  fields := fun p hp f hf k hsource _ => hfields p hp f hf k hsource

/-- What a search through the joins of its predicates finds. -/
theorem run_search_iff (hj : WellFormedJoins joins) {js : JoinSet}
    (hjs : ParentClosed joins js) (hascending : js.Pairwise (· < ·))
    (hfields : ∀ p ∈ ps, ∀ f ∈ p.fields, ∀ k, f.source = .join k → k ∈ js) :
    (Plan.search ps js).run joins (.start root joins.length) = true ↔
      ∃ d, Assignment joins root d ∧ ∀ p ∈ ps, p.evaluate d = .yes := by
  rw [Plan.run, existsChoice_iff hj (SearchState.start hjs hascending hfields)]
  constructor
  · rintro ⟨d, -, hd, hyes⟩
    exact ⟨d, hd, hyes⟩
  · rintro ⟨d, hd, hyes⟩
    exact ⟨d, hd.extends_start, hd, hyes⟩

/-- What a search for a single predicate finds. -/
theorem run_search_single_iff (hj : WellFormedJoins joins) (p : Predicate) :
    (Plan.search [p] (readJoins joins p)).run joins (.start root joins.length) = true ↔
      ∃ d, Assignment joins root d ∧ p.evaluate d = .yes := by
  rw [run_search_iff hj (parentClosed_readJoins hj p) (ascending_readJoins p)]
  · simp
  · intro q hq f hf k hsource
    rw [List.mem_singleton.mp hq] at hf
    exact mem_readJoins_of_mem_fields hf hsource

section Groups

/-- The joins that a conjunct with a plan reads. -/
abbrev partReads (joins : List (Join E)) (part : Predicate × Plan) : JoinSet :=
  readJoins joins part.1

variable {g : Group (Predicate × Plan)}

/-- The joins of a group include those of the fields of its members. -/
theorem Group.Exact.mem_joins_of_mem_fields (hg : g.Exact (partReads joins))
    {part : Predicate × Plan} (hpart : part ∈ g.members) {f : FieldRef} (hf : f ∈ part.1.fields)
    {k : Nat} (hsource : f.source = .join k) : k ∈ g.joins :=
  (hg.mem_joins k).mpr ⟨part, hpart, mem_readJoins_of_mem_fields hf hsource⟩

/-- What the plan of a group finds, when the plans of its members find what they should. -/
theorem run_ofGroup_iff (hj : WellFormedJoins joins) (hg : g.Exact (partReads joins))
    (hplan : ∀ part ∈ g.members, part.2.run joins (.start root joins.length) = true ↔
      ∃ d, Assignment joins root d ∧ part.1.evaluate d = .yes) :
    (Plan.ofGroup g).run joins (.start root joins.length) = true ↔
      ∃ d, Assignment joins root d ∧ ∀ part ∈ g.members, part.1.evaluate d = .yes := by
  unfold Plan.ofGroup
  split
  · next p plan hmembers =>
      rw [hmembers] at hplan ⊢
      simpa using hplan
  · rw [run_search_iff hj (hg.parentClosed hj) hg.ascending]
    · simp
    · intro p hp f hf k hsource
      obtain ⟨part, hpart, rfl⟩ := List.mem_map.mp hp
      exact hg.mem_joins_of_mem_fields hpart hf hsource

/-- A member of a group has the same truth value under every assignment that agrees on
the joins of the group. -/
theorem Group.Exact.evaluate_eq_of_keep_extends (hg : g.Exact (partReads joins))
    {c d : Choice} (hc : Assignment joins root c) (hext : (c.keep g.joins).Extends d)
    {part : Predicate × Plan} (hpart : part ∈ g.members) :
    part.1.evaluate d = part.1.evaluate c := by
  have hfields : ∀ f ∈ part.1.fields, (c.keep g.joins).isPending f.source = false := by
    intro f hf
    cases hsource : f.source with
    | root => rfl
    | join k =>
        rw [Choice.isPending_keep (hg.mem_joins_of_mem_fields hpart hf hsource)]
        exact hc.isPending_eq_false (.join k)
  calc
    part.1.evaluate d = part.1.evaluate (c.keep g.joins) :=
      Predicate.evaluate_eq_of_extends hext hfields
    _ = part.1.evaluate c :=
      (Predicate.evaluate_eq_of_extends (c.keep_extends g.joins) hfields).symm

/-- Groups that share no join can be made true together when each can be made true. -/
theorem exists_assignment_of_groups (hj : WellFormedJoins joins)
    {groups : List (Group (Predicate × Plan))} (hexact : ∀ g ∈ groups, g.Exact (partReads joins))
    (hapart : groups.Pairwise Group.Apart)
    (h : ∀ g ∈ groups, ∃ d, Assignment joins root d ∧
      ∀ part ∈ g.members, part.1.evaluate d = .yes) :
    ∃ d, Assignment joins root d ∧
      ∀ g ∈ groups, ∀ part ∈ g.members, part.1.evaluate d = .yes := by
  induction groups with
  | nil =>
      obtain ⟨d, -, hd⟩ := (PartialAssignment.start joins root).exists_assignment hj
      exact ⟨d, hd, by simp⟩
  | cons g groups ih =>
      obtain ⟨happart, hrest⟩ := List.pairwise_cons.mp hapart
      obtain ⟨c, hc, hcyes⟩ := h g List.mem_cons_self
      obtain ⟨d, hd, hdyes⟩ := ih (fun k hk => hexact k (List.mem_cons_of_mem g hk)) hrest
        fun k hk => h k (List.mem_cons_of_mem g hk)
      have hg := hexact g List.mem_cons_self
      -- The two assignments meet in one that agrees with each on its own joins.
      let js : JoinSet := groups.flatMap (·.joins)
      have hjs : ParentClosed joins js := by
        intro id hid join hjoin k hparent
        obtain ⟨k', hk', hid⟩ := List.mem_flatMap.mp hid
        exact List.mem_flatMap.mpr ⟨k', hk',
          (hexact k' (List.mem_cons_of_mem g hk')).parentClosed hj id hid join hjoin k hparent⟩
      have hdisj : ∀ id ∈ g.joins, id ∉ js := by
        intro id hid hmem
        obtain ⟨k, hk, hid'⟩ := List.mem_flatMap.mp hmem
        exact happart k hk id hid hid'
      obtain ⟨e, he, hleft, hright⟩ :=
        exists_common_extension hj (hg.parentClosed hj) hjs hdisj hc hd
      refine ⟨e, he, ?_⟩
      intro k hk part hpart
      rcases List.mem_cons.mp hk with rfl | hk
      · rw [hg.evaluate_eq_of_keep_extends hc hleft hpart]
        exact hcyes part hpart
      · have hkeep : (d.keep k.joins).Extends e :=
          (Choice.keep_extends_keep fun id hid => List.mem_flatMap.mpr ⟨k, hk, hid⟩).trans hright
        rw [(hexact k (List.mem_cons_of_mem g hk)).evaluate_eq_of_keep_extends hd hkeep hpart]
        exact hdyes k hk part hpart

end Groups

/-- The plan of a predicate succeeds exactly when some assignment makes the predicate
true. -/
theorem run_ofPredicate_iff (hj : WellFormedJoins joins) (p : Predicate) :
    (Plan.ofPredicate joins p).run joins (.start root joins.length) = true ↔
      ∃ d, Assignment joins root d ∧ p.evaluate d = .yes := by
  induction p using Predicate.induct with
  | const b =>
      rw [Plan.ofPredicate]
      exact run_search_single_iff hj _
  | not part _ =>
      rw [Plan.ofPredicate]
      exact run_search_single_iff hj _
  | test f t =>
      rw [Plan.ofPredicate]
      exact run_search_single_iff hj _
  | any parts ih =>
      rw [Plan.ofPredicate, Plan.run, runAny_eq_true_iff]
      simp only [ofEach_eq_map, List.map_map, List.mem_map, Function.comp_apply,
        Predicate.evaluate_any_eq_yes_iff]
      constructor
      · rintro ⟨_, ⟨part, hpart, rfl⟩, hrun⟩
        obtain ⟨d, hd, hyes⟩ := (ih part hpart).mp hrun
        exact ⟨d, hd, part, hpart, hyes⟩
      · rintro ⟨d, hd, part, hpart, hyes⟩
        exact ⟨_, ⟨part, hpart, rfl⟩, (ih part hpart).mpr ⟨d, hd, hyes⟩⟩
  | all parts ih =>
      rw [Plan.ofPredicate, Plan.run, runAll_eq_true_iff]
      have hgroups : IsGrouping (partReads joins) (Plan.ofEach joins parts)
          (separableGroups (partReads joins) (Plan.ofEach joins parts)) :=
        isGrouping_separableGroups (fun part : Predicate × Plan => ascending_readJoins part.1) _
      have hmem : ∀ part, (∃ g ∈ separableGroups (partReads joins) (Plan.ofEach joins parts),
          part ∈ g.members) ↔ ∃ p ∈ parts, (p, Plan.ofPredicate joins p) = part := by
        intro part
        rw [hgroups.mem_members_iff, ofEach_eq_map, List.mem_map]
      generalize separableGroups (partReads joins) (Plan.ofEach joins parts) = groups
        at hgroups hmem
      have hrun : ∀ g ∈ groups,
          (Plan.ofGroup g).run joins (.start root joins.length) = true ↔
            ∃ d, Assignment joins root d ∧ ∀ part ∈ g.members, part.1.evaluate d = .yes := by
        intro g hg
        apply run_ofGroup_iff hj (hgroups.exact g hg)
        intro part hpart
        obtain ⟨p, hp, rfl⟩ := (hmem part).mp ⟨g, hg, hpart⟩
        exact ih p hp
      constructor
      · intro h
        obtain ⟨d, hd, hyes⟩ := exists_assignment_of_groups hj hgroups.exact hgroups.apart
          fun g hg => (hrun g hg).mp (h _ (List.mem_map_of_mem hg))
        refine ⟨d, hd, Predicate.evaluate_all_eq_yes_iff.mpr ?_⟩
        intro p hp
        obtain ⟨g, hg, hpart⟩ := (hmem _).mpr ⟨p, hp, rfl⟩
        exact hyes g hg _ hpart
      · rintro ⟨d, hd, hyes⟩ plan hplan
        obtain ⟨g, hg, rfl⟩ := List.mem_map.mp hplan
        refine (hrun g hg).mpr ⟨d, hd, ?_⟩
        intro part hpart
        obtain ⟨p, hp, rfl⟩ := (hmem part).mp ⟨g, hg, hpart⟩
        exact Predicate.evaluate_all_eq_yes_iff.mp hyes p hp

/-! ## Selected rows -/

instance (joins : List (Join E)) : Decidable (WellFormedJoins joins) :=
  inferInstanceAs (Decidable (∀ i, ∀ _ : i < joins.length, _))

/-- A root row is selected exactly when a complete left-outer assignment of all joins
makes the predicate true. -/
theorem selects_iff_exists_assignment (hj : WellFormedJoins joins) (p : Predicate)
    (root : Row) :
    selects joins p root = true ↔ ∃ c, Assignment joins root c ∧ p.evaluate c = .yes :=
  run_ofPredicate_iff hj p

/-- Two conjuncts share the books of one join, of which the author hangs on another; an
alternative reads a second join of books and one that is not there. -/
theorem selects_iff_exists_assignment_books :
    let joins : List (Join Unit) :=
      [⟨0, .root, ⟨"books", (), .many⟩⟩, ⟨1, .join 0, ⟨"author", (), .one⟩⟩,
        ⟨2, .root, ⟨"books", (), .many⟩⟩]
    let year (id : Nat) : FieldRef := ⟨.join id, "year", .int⟩
    let p : Predicate := .all [.test (year 0) (.compare .lt (.int 2000)),
      .not (.test (year 1) (.compare .eq (.int 1950))),
      .any [.test (year 2) (.compare .gt (.int 2000)), .test (year 7) .isNotNull]]
    let book (year born : Int64) : Row :=
      .mk [("year", .int year)] [("author", [.mk [("year", .int born)] []])]
    let root : Row := .mk [] [("books", [book 1999 1950, book 1998 1960, book 2001 1950])]
    WellFormedJoins joins ∧ selects joins p root = true ∧
      ∃ c, Assignment joins root c ∧ p.evaluate c = .yes := by
  intro joins year p book root
  have hj : WellFormedJoins joins := by decide
  have hselects : selects joins p root = true := by decide +kernel
  exact ⟨hj, hselects, (selects_iff_exists_assignment hj p root).mp hselects⟩

end EntityQuery
