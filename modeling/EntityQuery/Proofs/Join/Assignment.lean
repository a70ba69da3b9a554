import EntityQuery.Join.Search
import EntityQuery.Proofs.Predicate.Outcomes

/-!
# Left-outer assignments

An assignment gives every join of a list a row related to the row of its parent, or no
row where there is none to give.  A choice that is left-outer as far as it goes, and
chooses parents before children, can always be completed, and two choices that fill
different joins can be laid over each other.

Main results:

- Definition `Assignment`: the complete left-outer assignments of a list of joins.
- Theorem `PartialAssignment.exists_assignment`: a partial assignment can be completed.
- Theorem `exists_common_extension`: assignments agree with a single one on disjoint
  sets of joins.
-/

namespace EntityQuery

variable {E : Type}

/-- The parent of a join comes before it. -/
theorem WellFormedJoins.parent_lt {joins : List (Join E)} (hj : WellFormedJoins joins)
    {id k : Nat} {join : Join E} (hjoin : joins[id]? = some join)
    (hparent : join.parent = .join k) : k < id := by
  obtain ⟨hlt, hget⟩ := List.getElem?_eq_some_iff.mp hjoin
  have hbefore := (hj id hlt).2
  rw [hget, hparent] at hbefore
  exact hbefore

/-! ## What a join brings in -/

/-- What a left-outer join along a relation brings in for the row of its parent: any one
related row, and no row when the parent has none or is missing itself. -/
inductive LeftOuter (relation : String) : Option Row → Option Row → Prop
  | related {parent next : Row} (h : next ∈ parent.related relation) :
      LeftOuter relation (some parent) (some next)
  | unrelated {parent : Row} (h : parent.related relation = []) :
      LeftOuter relation (some parent) none
  | missing : LeftOuter relation none none

/-- A left-outer join always brings in something. -/
theorem exists_leftOuter (relation : String) (parent : Option Row) :
    ∃ next, LeftOuter relation parent next := by
  cases parent with
  | none => exact ⟨none, .missing⟩
  | some row =>
      cases h : row.related relation with
      | nil => exact ⟨none, .unrelated h⟩
      | cons next rows => exact ⟨some next, .related (by rw [h]; exact List.mem_cons_self)⟩

/-- The slot that records what a join has brought in. -/
def Slot.ofRow? : Option Row → Slot
  | some r => .row r
  | none => .empty

theorem Slot.ofRow?_ne_pending (r : Option Row) : Slot.ofRow? r ≠ .pending := by
  cases r <;> simp [ofRow?]

/-- The candidates of a join are what it brings in for the row of its parent. -/
theorem mem_candidates {join : Join E} {c : Choice} {slot : Slot} :
    slot ∈ candidates join c ↔
      ∃ next, slot = .ofRow? next ∧ LeftOuter join.relation.name (c.row? join.parent) next := by
  cases hrow : c.row? join.parent with
  | none =>
      have hcand : candidates join c = [.empty] := by simp [candidates, hrow]
      rw [hcand, List.mem_singleton]
      constructor
      · rintro rfl
        exact ⟨none, rfl, .missing⟩
      · rintro ⟨_, rfl, hnext⟩
        cases hnext
        rfl
  | some parent =>
      cases hrel : parent.related join.relation.name with
      | nil =>
          have hcand : candidates join c = [.empty] := by simp [candidates, hrow, hrel]
          rw [hcand, List.mem_singleton]
          constructor
          · rintro rfl
            exact ⟨none, rfl, .unrelated hrel⟩
          · rintro ⟨_, rfl, hnext⟩
            cases hnext with
            | related h => simp [hrel] at h
            | unrelated h => rfl
      | cons next rows =>
          have hcand : candidates join c = (next :: rows).map .row := by
            simp [candidates, hrow, hrel]
          rw [hcand, List.mem_map]
          constructor
          · rintro ⟨r, hr, rfl⟩
            exact ⟨some r, rfl, .related (by rw [hrel]; exact hr)⟩
          · rintro ⟨_, rfl, hnext⟩
            cases hnext with
            | related h => exact ⟨_, by rw [← hrel]; exact h, rfl⟩
            | unrelated h => simp [hrel] at h

/-! ## Assignments -/

/-- A complete left-outer assignment of joins to a root row: every join has brought in
what it can bring in for the row that the assignment gives its parent. -/
structure Assignment (joins : List (Join E)) (root : Row) (c : Choice) : Prop where
  root_eq : c.root = root
  length_eq : c.slots.length = joins.length
  chosen : ∀ (id : Nat) (join : Join E), joins[id]? = some join →
    ∃ next, c.slots[id]? = some (.ofRow? next) ∧
      LeftOuter join.relation.name (c.row? join.parent) next

/-- A slot of a join is justified when it is what the join brings in for the row of its
parent, and that row has been chosen. -/
def Choice.Justifies (c : Choice) (join : Join E) (slot : Slot) : Prop :=
  c.isPending join.parent = false ∧
    ∃ next, slot = .ofRow? next ∧ LeftOuter join.relation.name (c.row? join.parent) next

/-- A choice that is left-outer as far as it goes: every slot that is not pending is
justified. -/
structure PartialAssignment (joins : List (Join E)) (root : Row) (c : Choice) : Prop where
  root_eq : c.root = root
  length_eq : c.slots.length = joins.length
  justified : ∀ (id : Nat) (join : Join E) (slot : Slot), joins[id]? = some join →
    c.slots[id]? = some slot → slot ≠ .pending → c.Justifies join slot

namespace Choice

/-- Only the join of a pending slot is pending. -/
theorem isPending_join_iff {c : Choice} {id : Nat} :
    c.isPending (.join id) = true ↔ c.slots[id]? = some .pending := by
  simp only [isPending]
  split
  · next h => simp [h]
  · next h =>
      constructor
      · intro hfalse
        cases hfalse
      · intro hslot
        exact absurd hslot h

/-- What is chosen stays chosen. -/
theorem Extends.isPending_eq_false {c d : Choice} (h : c.Extends d) {source : Source}
    (hs : c.isPending source = false) : d.isPending source = false := by
  cases source with
  | root => rfl
  | join id =>
      rw [Bool.eq_false_iff, ne_eq, isPending_join_iff] at hs ⊢
      intro hd
      have hlt : id < c.slots.length := by
        rw [← h.length_eq]
        exact (List.getElem?_eq_some_iff.mp hd).1
      have hslot : c.slots[id]? = some c.slots[id] := List.getElem?_eq_getElem hlt
      have hne : c.slots[id] ≠ .pending := by
        intro heq
        exact hs (heq ▸ hslot)
      rw [h.keeps id _ hslot hne] at hd
      exact hne (Option.some.inj hd)

/-- What is justified stays justified. -/
theorem Justifies.mono {c d : Choice} (h : c.Extends d) {join : Join E} {slot : Slot}
    (hslot : c.Justifies join slot) : d.Justifies join slot := by
  obtain ⟨hparent, next, hnext, houter⟩ := hslot
  refine ⟨h.isPending_eq_false hparent, next, hnext, ?_⟩
  rw [h.row?_eq hparent]
  exact houter

end Choice

namespace Assignment

variable {joins : List (Join E)} {root : Row} {c : Choice}

/-- Nothing is pending in an assignment. -/
theorem isPending_eq_false (hc : Assignment joins root c) (source : Source) :
    c.isPending source = false := by
  cases source with
  | root => rfl
  | join id =>
      rw [Bool.eq_false_iff, ne_eq, Choice.isPending_join_iff]
      intro hslot
      have hlt : id < joins.length := by
        rw [← hc.length_eq]
        exact (List.getElem?_eq_some_iff.mp hslot).1
      obtain ⟨next, hnext, -⟩ := hc.chosen id joins[id] (List.getElem?_eq_getElem hlt)
      rw [hslot] at hnext
      exact Slot.ofRow?_ne_pending next (Option.some.inj hnext).symm

/-- An assignment is a partial one. -/
theorem toPartial (hc : Assignment joins root c) : PartialAssignment joins root c := by
  refine ⟨hc.root_eq, hc.length_eq, ?_⟩
  intro id join slot hjoin hslot _
  obtain ⟨next, hnext, houter⟩ := hc.chosen id join hjoin
  rw [hslot] at hnext
  exact ⟨hc.isPending_eq_false join.parent, next, Option.some.inj hnext, houter⟩

end Assignment

/-! ## Completion -/

namespace PartialAssignment

variable {joins : List (Join E)} {root : Row} {c : Choice}

/-- A choice in which every join is pending is a partial assignment. -/
theorem start (joins : List (Join E)) (root : Row) :
    PartialAssignment joins root (.start root joins.length) := by
  refine ⟨rfl, by simp [Choice.start], ?_⟩
  intro id join slot _ hslot hne
  simp only [Choice.start, List.getElem?_replicate] at hslot
  split at hslot
  · exact absurd (Option.some.inj hslot).symm hne
  · cases hslot

/-- Choosing what a pending join brings in keeps a partial assignment one. -/
theorem choose (hc : PartialAssignment joins root c) {id : Nat} {join : Join E} {slot : Slot}
    (hjoin : joins[id]? = some join) (hpending : c.slots[id]? = some .pending)
    (hslot : c.Justifies join slot) : PartialAssignment joins root (c.choose id slot) := by
  have hext := Choice.extends_choose hpending slot
  refine ⟨hc.root_eq, hext.length_eq.trans hc.length_eq, ?_⟩
  intro k join' slot' hjoin' hslot' hne
  by_cases hk : id = k
  · subst hk
    have hlt : id < c.slots.length := (List.getElem?_eq_some_iff.mp hpending).1
    have heq : slot' = slot := by
      simpa [Choice.choose, List.getElem?_set_self hlt] using hslot'.symm
    rw [hjoin] at hjoin'
    rw [heq, ← Option.some.inj hjoin']
    exact hslot.mono hext
  · have hold : c.slots[k]? = some slot' := by
      simpa [Choice.choose, List.getElem?_set_ne hk] using hslot'
    exact (hc.justified k join' slot' hjoin' hold hne).mono hext

/-- A partial assignment has a slot for every join. -/
theorem exists_slot (hc : PartialAssignment joins root c) {id : Nat} {join : Join E}
    (hjoin : joins[id]? = some join) : ∃ slot, c.slots[id]? = some slot := by
  have hlt : id < c.slots.length := by
    rw [hc.length_eq]
    exact (List.getElem?_eq_some_iff.mp hjoin).1
  exact ⟨_, List.getElem?_eq_getElem hlt⟩

/-- A partial assignment without pending joins is an assignment. -/
theorem toAssignment (hc : PartialAssignment joins root c)
    (h : ∀ id < joins.length, c.isPending (.join id) = false) : Assignment joins root c := by
  refine ⟨hc.root_eq, hc.length_eq, ?_⟩
  intro id join hjoin
  have hlt : id < joins.length := (List.getElem?_eq_some_iff.mp hjoin).1
  obtain ⟨slot, hslot⟩ := hc.exists_slot hjoin
  have hne := h id hlt
  rw [Bool.eq_false_iff, ne_eq, Choice.isPending_join_iff, hslot, Option.some.injEq] at hne
  obtain ⟨-, next, hnext, houter⟩ := hc.justified id join slot hjoin hslot hne
  exact ⟨next, by rw [hslot, hnext], houter⟩

/-- The first joins of a partial assignment can be filled. -/
theorem exists_filled (hj : WellFormedJoins joins) (hc : PartialAssignment joins root c)
    (n : Nat) (hn : n ≤ joins.length) :
    ∃ d, c.Extends d ∧ PartialAssignment joins root d ∧
      ∀ id < n, d.isPending (.join id) = false := by
  -- Joins are filled in list order, so the parent of the next one is filled already.
  induction n with
  | zero => exact ⟨c, .refl c, hc, by simp⟩
  | succ n ih =>
      obtain ⟨d, hcd, hd, hfilled⟩ := ih (Nat.le_of_succ_le hn)
      by_cases hpending : d.isPending (.join n) = true
      · rw [Choice.isPending_join_iff] at hpending
        have hjoin : joins[n]? = some joins[n] := List.getElem?_eq_getElem hn
        have hparent : d.isPending joins[n].parent = false := by
          cases hp : joins[n].parent with
          | root => rfl
          | join k => exact hfilled k (hj.parent_lt hjoin hp)
        obtain ⟨next, houter⟩ :=
          exists_leftOuter joins[n].relation.name (d.row? joins[n].parent)
        have hext := Choice.extends_choose hpending (.ofRow? next)
        refine ⟨d.choose n (.ofRow? next), hcd.trans hext,
          hd.choose hjoin hpending ⟨hparent, next, rfl, houter⟩, ?_⟩
        intro id hid
        by_cases hlast : id = n
        · subst hlast
          have hlt : id < d.slots.length := (List.getElem?_eq_some_iff.mp hpending).1
          rw [Bool.eq_false_iff, ne_eq, Choice.isPending_join_iff]
          simp [Choice.choose, List.getElem?_set_self hlt, Slot.ofRow?_ne_pending]
        · exact hext.isPending_eq_false (hfilled id (by omega))
      · refine ⟨d, hcd, hd, ?_⟩
        intro id hid
        by_cases hlast : id = n
        · subst hlast
          exact Bool.eq_false_iff.mpr hpending
        · exact hfilled id (by omega)

/-- A partial assignment can be completed. -/
theorem exists_assignment (hj : WellFormedJoins joins) (hc : PartialAssignment joins root c) :
    ∃ d, c.Extends d ∧ Assignment joins root d := by
  obtain ⟨d, hcd, hd, hfilled⟩ := hc.exists_filled hj joins.length (Nat.le_refl _)
  exact ⟨d, hcd, hd.toAssignment hfilled⟩

end PartialAssignment

/-! ## Laying choices over each other -/

/-- The first slot, or the second one where the first is pending. -/
def Slot.orElse (first second : Slot) : Slot :=
  match first with
  | .pending => second
  | slot => slot

namespace Choice

/-- The choice of which only the joins of a set are kept. -/
def keep (c : Choice) (js : JoinSet) : Choice :=
  { c with slots := c.slots.mapIdx fun id slot => if id ∈ js then slot else .pending }

/-- The choice that takes from a second one what is pending in the first. -/
def overlay (c d : Choice) : Choice :=
  { c with slots := c.slots.zipWith Slot.orElse d.slots }

@[simp] theorem getElem?_keep (c : Choice) (js : JoinSet) (id : Nat) :
    (c.keep js).slots[id]? = c.slots[id]?.map fun slot => if id ∈ js then slot else .pending := by
  simp [keep]

/-- What is kept is a part of the choice. -/
theorem keep_extends (c : Choice) (js : JoinSet) : (c.keep js).Extends c := by
  refine ⟨rfl, by simp [keep], ?_⟩
  intro id slot hslot hne
  rw [getElem?_keep, Option.map_eq_some_iff] at hslot
  obtain ⟨old, hold, heq⟩ := hslot
  split at heq
  · rw [hold, heq]
  · exact absurd heq.symm hne

/-- Less is kept of a smaller set of joins. -/
theorem keep_extends_keep {c : Choice} {js ks : JoinSet} (h : ∀ id ∈ js, id ∈ ks) :
    (c.keep js).Extends (c.keep ks) := by
  refine ⟨rfl, by simp [keep], ?_⟩
  intro id slot hslot hne
  rw [getElem?_keep, Option.map_eq_some_iff] at hslot ⊢
  obtain ⟨old, hold, heq⟩ := hslot
  split at heq
  · next hid => exact ⟨old, hold, by simp [h id hid, heq]⟩
  · exact absurd heq.symm hne

/-- A join that is kept is as pending as before. -/
theorem isPending_keep {c : Choice} {js : JoinSet} {id : Nat} (hid : id ∈ js) :
    (c.keep js).isPending (.join id) = c.isPending (.join id) := by
  simp [isPending, hid]

/-- Choices that do not both choose for a join extend to the one laid over the other. -/
theorem extends_overlay {c d : Choice} (hroot : c.root = d.root)
    (hlen : c.slots.length = d.slots.length)
    (h : ∀ (id : Nat), c.slots[id]? = some .pending ∨ d.slots[id]? = some .pending ∨
      c.slots[id]? = none) :
    c.Extends (c.overlay d) ∧ d.Extends (c.overlay d) := by
  have hslots : ∀ (id : Nat) (a b : Slot), c.slots[id]? = some a → d.slots[id]? = some b →
      (c.overlay d).slots[id]? = some (a.orElse b) := by
    intro id a b ha hb
    simp [overlay, List.getElem?_zipWith, ha, hb]
  have hboth : ∀ (id : Nat), id < c.slots.length → ∃ a b, c.slots[id]? = some a ∧
      d.slots[id]? = some b := fun id hid =>
    ⟨_, _, List.getElem?_eq_getElem hid, List.getElem?_eq_getElem (hlen ▸ hid)⟩
  constructor
  · refine ⟨rfl, by simp [overlay, hlen], ?_⟩
    intro id slot hslot hne
    obtain ⟨a, b, ha, hb⟩ := hboth id (List.getElem?_eq_some_iff.mp hslot).1
    have heq : slot = a := Option.some.inj (hslot.symm.trans ha)
    subst heq
    rw [hslots id slot b ha hb]
    cases slot with
    | pending => exact absurd rfl hne
    | empty => rfl
    | row r => rfl
  · refine ⟨hroot, by simp [overlay, hlen], ?_⟩
    intro id slot hslot hne
    obtain ⟨a, b, ha, hb⟩ := hboth id (hlen ▸ (List.getElem?_eq_some_iff.mp hslot).1)
    have heq : slot = b := Option.some.inj (hslot.symm.trans hb)
    subst heq
    rw [hslots id a slot ha hb]
    rcases h id with hc | hd | hc
    · have hpending : a = .pending := Option.some.inj (ha.symm.trans hc)
      subst hpending
      rfl
    · exact absurd (Option.some.inj (hslot.symm.trans hd)) hne
    · rw [ha] at hc
      cases hc

end Choice

/-- A set of joins that holds the parents of its members. -/
def ParentClosed (joins : List (Join E)) (js : JoinSet) : Prop :=
  ∀ id ∈ js, ∀ join, joins[id]? = some join → ∀ k, join.parent = .join k → k ∈ js

section Overlay

variable {joins : List (Join E)} {root : Row} {c d : Choice}

/-- What an assignment chooses for a set of joins and their parents is a partial
assignment. -/
theorem Assignment.keep (hc : Assignment joins root c) {js : JoinSet}
    (hjs : ParentClosed joins js) : PartialAssignment joins root (c.keep js) := by
  have hext := c.keep_extends js
  refine ⟨hc.root_eq, hext.length_eq.symm.trans hc.length_eq, ?_⟩
  intro id join slot hjoin hslot hne
  have hid : id ∈ js := by
    rw [Choice.getElem?_keep, Option.map_eq_some_iff] at hslot
    obtain ⟨old, -, heq⟩ := hslot
    split at heq
    · next hin => exact hin
    · exact absurd heq.symm hne
  have hparent : (c.keep js).isPending join.parent = false := by
    cases hp : join.parent with
    | root => rfl
    | join k =>
        rw [Choice.isPending_keep (hjs id hid join hjoin k hp)]
        exact hc.isPending_eq_false (.join k)
  obtain ⟨-, next, hnext, houter⟩ :=
    hc.toPartial.justified id join slot hjoin (hext.keeps id slot hslot hne) hne
  refine ⟨hparent, next, hnext, ?_⟩
  rw [← hext.row?_eq hparent]
  exact houter

/-- Partial assignments that do not both choose for a join make a partial assignment
together. -/
theorem PartialAssignment.overlay (hc : PartialAssignment joins root c)
    (hd : PartialAssignment joins root d)
    (h : ∀ (id : Nat), c.slots[id]? = some .pending ∨ d.slots[id]? = some .pending ∨
      c.slots[id]? = none) :
    PartialAssignment joins root (c.overlay d) := by
  obtain ⟨hleft, hright⟩ := Choice.extends_overlay (hc.root_eq.trans hd.root_eq.symm)
    (hc.length_eq.trans hd.length_eq.symm) h
  refine ⟨hc.root_eq, hleft.length_eq.trans hc.length_eq, ?_⟩
  intro id join slot hjoin hslot hne
  obtain ⟨leftSlot, hleftSlot⟩ := hc.exists_slot hjoin
  obtain ⟨rightSlot, hrightSlot⟩ := hd.exists_slot hjoin
  -- A slot that is filled comes from the side that has filled it.
  have hfrom : c.slots[id]? = some slot ∨ d.slots[id]? = some slot := by
    simp only [Choice.overlay, List.getElem?_zipWith, hleftSlot, hrightSlot,
      Option.some.injEq] at hslot
    rw [hleftSlot, hrightSlot, ← hslot]
    cases leftSlot <;> simp [Slot.orElse]
  rcases hfrom with hold | hold
  · exact (hc.justified id join slot hjoin hold hne).mono hleft
  · exact (hd.justified id join slot hjoin hold hne).mono hright

/-- Two assignments agree with a single one on disjoint sets of joins, each with the
parents of its members. -/
theorem exists_common_extension (hj : WellFormedJoins joins) {js ks : JoinSet}
    (hjs : ParentClosed joins js) (hks : ParentClosed joins ks) (hdisj : ∀ id ∈ js, id ∉ ks)
    (hc : Assignment joins root c) (hd : Assignment joins root d) :
    ∃ e, Assignment joins root e ∧ (c.keep js).Extends e ∧ (d.keep ks).Extends e := by
  have hpart := hc.keep hjs
  have hpart' := hd.keep hks
  have hfree : ∀ (id : Nat), (c.keep js).slots[id]? = some .pending ∨
      (d.keep ks).slots[id]? = some .pending ∨ (c.keep js).slots[id]? = none := by
    intro id
    rw [Choice.getElem?_keep, Choice.getElem?_keep]
    by_cases hlt : id < joins.length
    · rw [List.getElem?_eq_getElem (by rw [hc.length_eq]; exact hlt),
        List.getElem?_eq_getElem (by rw [hd.length_eq]; exact hlt)]
      by_cases hid : id ∈ js
      · simp [hid, hdisj id hid]
      · simp [hid]
    · rw [List.getElem?_eq_none_iff.mpr (by rw [hc.length_eq]; omega)]
      simp
  obtain ⟨hleft, hright⟩ := Choice.extends_overlay (hpart.root_eq.trans hpart'.root_eq.symm)
    (hpart.length_eq.trans hpart'.length_eq.symm) hfree
  obtain ⟨e, hext, he⟩ := (hpart.overlay hpart' hfree).exists_assignment hj
  exact ⟨e, he, hleft.trans hext, hright.trans hext⟩

end Overlay

end EntityQuery
