import EntityQuery.Proofs.Join.Assignment

/-!
# Groups of conjuncts

Conjuncts may be searched for group by group because the groups share no join and each
group reads its own joins only, parents included.  Taking one group into another keeps
this: a group that was passed over shares nothing with any group behind it, so it stays
apart from all that is taken in later.

Main results:

- Theorems `mem_readJoins`, `parentClosed_readJoins` and `ascending_readJoins`: the joins
  that a predicate reads.
- Definition `IsGrouping`: groups that hold every conjunct once, share no join, and have the
  joins that their members read.
- Theorems `perm_absorb`, `apart_absorb` and `exact_absorb`: taking groups in loses no member,
  leaves no shared join behind and adds up the joins.
-/

namespace EntityQuery

/-! ## Ascending sets -/

theorem ascending_insertJoin {js : JoinSet} (id : Nat) (h : js.Pairwise (· < ·)) :
    (insertJoin id js).Pairwise (· < ·) := by
  induction js with
  | nil => simp [insertJoin]
  | cons j js ih =>
      rw [List.pairwise_cons] at h
      rw [insertJoin]
      split
      · next hlt =>
          rw [List.pairwise_cons]
          refine ⟨?_, List.pairwise_cons.mpr h⟩
          intro k hk
          rcases List.mem_cons.mp hk with rfl | hk
          · exact hlt
          · exact Nat.lt_trans hlt (h.1 k hk)
      · split
        · exact List.pairwise_cons.mpr h
        · rw [List.pairwise_cons]
          refine ⟨?_, ih h.2⟩
          intro k hk
          rcases mem_insertJoin.mp hk with rfl | hk
          · omega
          · exact h.1 k hk

theorem ascending_unionJoins {js ks : JoinSet} (h : ks.Pairwise (· < ·)) :
    (unionJoins js ks).Pairwise (· < ·) := by
  induction js with
  | nil => exact h
  | cons j js ih => exact ascending_insertJoin j ih

/-! ## Joins that a predicate reads -/

section Reads

variable {E : Type} {joins : List (Join E)}

theorem mem_ancestors_self (joins : List (Join E)) (id : Nat) : id ∈ ancestors joins id := by
  rw [ancestors]
  split
  · exact List.mem_singleton_self id
  · split
    · exact List.mem_singleton_self id
    · split
      · exact List.mem_cons_self
      · exact List.mem_singleton_self id

/-- Behind a join come the ancestors of its parent. -/
theorem ancestors_of_parent {id parent : Nat} {join : Join E} (hjoin : joins[id]? = some join)
    (hparent : join.parent = .join parent) (hlt : parent < id) :
    ancestors joins id = id :: ancestors joins parent := by
  rw [ancestors]
  simp [hjoin, hparent, hlt]

theorem mem_ancestors {k id : Nat} (hk : k ∈ ancestors joins id) :
    k = id ∨ ∃ join parent, joins[id]? = some join ∧ join.parent = .join parent ∧
      parent < id ∧ k ∈ ancestors joins parent := by
  rw [ancestors] at hk
  split at hk
  · exact Or.inl (List.mem_singleton.mp hk)
  · next join hjoin =>
      split at hk
      · exact Or.inl (List.mem_singleton.mp hk)
      · next parent hparent =>
          split at hk
          · next hlt =>
              rcases List.mem_cons.mp hk with hk | hk
              · exact Or.inl hk
              · exact Or.inr ⟨join, parent, hjoin, hparent, hlt, hk⟩
          · exact Or.inl (List.mem_singleton.mp hk)

/-- The parent of a join stands before it, so it is among the ancestors. -/
theorem parentClosed_ancestors (hj : WellFormedJoins joins) (id : Nat) :
    ParentClosed joins (ancestors joins id) := by
  induction id using Nat.strongRecOn with
  | ind id ih =>
      intro k hk join hjoin m hparent
      have hm : m < k := hj.parent_lt hjoin hparent
      rcases mem_ancestors hk with rfl | ⟨join', parent, hjoin', hparent', hlt, hk⟩
      · rw [ancestors_of_parent hjoin hparent hm]
        exact List.mem_cons_of_mem _ (mem_ancestors_self joins m)
      · rw [ancestors_of_parent hjoin' hparent' hlt]
        exact List.mem_cons_of_mem _ (ih parent hlt k hk join hjoin m hparent)

/-- A predicate reads the joins of its fields and those that they hang on. -/
theorem mem_readJoins {p : Predicate} {id : Nat} :
    id ∈ readJoins joins p ↔ ∃ f ∈ p.fields, id ∈ sourceJoins joins f.source := by
  have hfold : ∀ ids : List Nat, id ∈ ids.foldr insertJoin [] ↔ id ∈ ids := by
    intro ids
    induction ids with
    | nil => simp
    | cons k ids ih => simp [mem_insertJoin, ih]
  rw [readJoins, hfold, List.mem_flatMap]

/-- The joins that a predicate reads include those of its fields. -/
theorem mem_readJoins_of_mem_fields {p : Predicate} {f : FieldRef} {id : Nat}
    (hf : f ∈ p.fields) (hsource : f.source = .join id) : id ∈ readJoins joins p := by
  refine mem_readJoins.mpr ⟨f, hf, ?_⟩
  rw [hsource]
  exact mem_ancestors_self joins id

/-- The joins that a predicate reads include the parents. -/
theorem parentClosed_readJoins (hj : WellFormedJoins joins) (p : Predicate) :
    ParentClosed joins (readJoins joins p) := by
  intro id hid join hjoin k hparent
  obtain ⟨f, hf, hid⟩ := mem_readJoins.mp hid
  refine mem_readJoins.mpr ⟨f, hf, ?_⟩
  cases hsource : f.source with
  | root =>
      rw [hsource] at hid
      simp [sourceJoins] at hid
  | join m =>
      rw [hsource] at hid
      exact parentClosed_ancestors hj m id hid join hjoin k hparent

/-- The joins that a predicate reads stand in ascending order. -/
theorem ascending_readJoins (p : Predicate) : (readJoins joins p).Pairwise (· < ·) := by
  unfold readJoins
  induction p.fields.flatMap fun field => sourceJoins joins field.source with
  | nil => exact List.Pairwise.nil
  | cons id ids ih => exact ascending_insertJoin id ih

end Reads

/-! ## Groups -/

variable {α : Type} {reads : α → JoinSet}

/-- Two groups share no join. -/
def Group.Apart (g h : Group α) : Prop :=
  ∀ id ∈ g.joins, id ∉ h.joins

theorem Group.Apart.symm {g h : Group α} (hgh : g.Apart h) : h.Apart g :=
  fun id hid hg => hgh id hg hid

/-- A group has, in ascending order, exactly the joins that its members read. -/
structure Group.Exact (reads : α → JoinSet) (g : Group α) : Prop where
  mem_joins : ∀ id, id ∈ g.joins ↔ ∃ a ∈ g.members, id ∈ reads a
  ascending : g.joins.Pairwise (· < ·)

/-- Two groups taken together. -/
def Group.union (g h : Group α) : Group α :=
  ⟨g.members ++ h.members, unionJoins h.joins g.joins⟩

/-- Conjuncts are distributed over groups: each stands in one group, the groups share no
join, and each has the joins that its members read. -/
structure IsGrouping (reads : α → JoinSet) (conjuncts : List α) (groups : List (Group α)) :
    Prop where
  perm : (groups.flatMap (·.members)).Perm conjuncts
  apart : groups.Pairwise Group.Apart
  exact : ∀ g ∈ groups, g.Exact reads

theorem Group.Exact.union {g h : Group α} (hg : g.Exact reads) (hh : h.Exact reads) :
    (g.union h).Exact reads := by
  refine ⟨?_, ascending_unionJoins hg.ascending⟩
  intro id
  simp only [Group.union, mem_unionJoins, hg.mem_joins, hh.mem_joins, List.mem_append]
  constructor
  · rintro (⟨a, ha, hid⟩ | ⟨a, ha, hid⟩)
    · exact ⟨a, Or.inr ha, hid⟩
    · exact ⟨a, Or.inl ha, hid⟩
  · rintro ⟨a, ha | ha, hid⟩
    · exact Or.inr ⟨a, ha, hid⟩
    · exact Or.inl ⟨a, ha, hid⟩

theorem absorb_cons_of_apart {g h : Group α} (hs : List (Group α))
    (hdisj : disjointJoins h.joins g.joins = true) :
    absorb g (h :: hs) = ((absorb g hs).1, h :: (absorb g hs).2) := by
  simp [absorb, hdisj]

theorem absorb_cons_of_shared {g h : Group α} (hs : List (Group α))
    (hdisj : disjointJoins h.joins g.joins = false) :
    absorb g (h :: hs) = absorb (g.union h) hs := by
  simp [absorb, hdisj, Group.union]

/-- Taking groups in loses no member. -/
theorem perm_absorb (g : Group α) (hs : List (Group α)) :
    ((absorb g hs).1.members ++ (absorb g hs).2.flatMap (·.members)).Perm
      (g.members ++ hs.flatMap (·.members)) := by
  induction hs generalizing g with
  | nil => exact .refl _
  | cons h hs ih =>
      by_cases hdisj : disjointJoins h.joins g.joins = true
      · rw [absorb_cons_of_apart hs hdisj, List.flatMap_cons, List.flatMap_cons]
        calc
          ((absorb g hs).1.members ++ (h.members ++ (absorb g hs).2.flatMap (·.members))).Perm
              (h.members ++ ((absorb g hs).1.members ++ (absorb g hs).2.flatMap (·.members))) :=
            List.perm_append_comm_assoc _ _ _
          _ |>.Perm (h.members ++ (g.members ++ hs.flatMap (·.members))) := (ih g).append_left _
          _ |>.Perm (g.members ++ (h.members ++ hs.flatMap (·.members))) :=
            List.perm_append_comm_assoc _ _ _
      · rw [absorb_cons_of_shared hs (Bool.eq_false_iff.mpr hdisj), List.flatMap_cons,
          ← List.append_assoc]
        exact ih (g.union h)

/-- The groups left over were there before. -/
theorem sublist_absorb (g : Group α) (hs : List (Group α)) : (absorb g hs).2.Sublist hs := by
  induction hs generalizing g with
  | nil => exact .refl _
  | cons h hs ih =>
      by_cases hdisj : disjointJoins h.joins g.joins = true
      · rw [absorb_cons_of_apart hs hdisj]
        exact (ih g).cons_cons h
      · rw [absorb_cons_of_shared hs (Bool.eq_false_iff.mpr hdisj)]
        exact (ih _).cons h

/-- The joins of the grown group come from the groups. -/
theorem mem_joins_absorb {g : Group α} {hs : List (Group α)} {id : Nat}
    (hid : id ∈ (absorb g hs).1.joins) : id ∈ g.joins ∨ ∃ h ∈ hs, id ∈ h.joins := by
  induction hs generalizing g with
  | nil => exact Or.inl hid
  | cons h hs ih =>
      by_cases hdisj : disjointJoins h.joins g.joins = true
      · rw [absorb_cons_of_apart hs hdisj] at hid
        rcases ih hid with hid | ⟨k, hk, hid⟩
        · exact Or.inl hid
        · exact Or.inr ⟨k, List.mem_cons_of_mem h hk, hid⟩
      · rw [absorb_cons_of_shared hs (Bool.eq_false_iff.mpr hdisj)] at hid
        rcases ih hid with hid | ⟨k, hk, hid⟩
        · rcases mem_unionJoins.mp hid with hid | hid
          · exact Or.inr ⟨h, List.mem_cons_self, hid⟩
          · exact Or.inl hid
        · exact Or.inr ⟨k, List.mem_cons_of_mem h hk, hid⟩

/-- The groups left over share no join with the grown group. -/
theorem apart_absorb {g : Group α} {hs : List (Group α)} (happart : hs.Pairwise Group.Apart) :
    ∀ h ∈ (absorb g hs).2, h.Apart (absorb g hs).1 := by
  induction hs generalizing g with
  | nil => simp [absorb]
  | cons h hs ih =>
      rw [List.pairwise_cons] at happart
      by_cases hdisj : disjointJoins h.joins g.joins = true
      · rw [absorb_cons_of_apart hs hdisj]
        intro k hk
        rcases List.mem_cons.mp hk with rfl | hk
        · intro id hid hgrown
          rcases mem_joins_absorb hgrown with hg | ⟨m, hm, hid'⟩
          · exact disjointJoins_iff.mp hdisj id hid hg
          · exact happart.1 m hm id hid hid'
        · exact ih happart.2 k hk
      · rw [absorb_cons_of_shared hs (Bool.eq_false_iff.mpr hdisj)]
        exact ih happart.2

/-- The grown group has the joins that its members read. -/
theorem exact_absorb {g : Group α} {hs : List (Group α)} (hg : g.Exact reads)
    (hhs : ∀ h ∈ hs, h.Exact reads) : (absorb g hs).1.Exact reads := by
  induction hs generalizing g with
  | nil => exact hg
  | cons h hs ih =>
      have hrest : ∀ k ∈ hs, k.Exact reads := fun k hk => hhs k (List.mem_cons_of_mem h hk)
      by_cases hdisj : disjointJoins h.joins g.joins = true
      · rw [absorb_cons_of_apart hs hdisj]
        exact ih hg hrest
      · rw [absorb_cons_of_shared hs (Bool.eq_false_iff.mpr hdisj)]
        exact ih (hg.union (hhs h List.mem_cons_self)) hrest

/-- Exactly the conjuncts are members of their groups. -/
theorem IsGrouping.mem_members_iff {conjuncts : List α} {groups : List (Group α)}
    (h : IsGrouping reads conjuncts groups) {a : α} :
    (∃ g ∈ groups, a ∈ g.members) ↔ a ∈ conjuncts := by
  rw [← h.perm.mem_iff, List.mem_flatMap]

/-- With the joins that its members read, a group has the parents of its joins. -/
theorem Group.Exact.parentClosed {E : Type} {joins : List (Join E)} (hj : WellFormedJoins joins)
    {part : α → Predicate} {g : Group α} (hg : g.Exact fun a => readJoins joins (part a)) :
    ParentClosed joins g.joins := by
  intro id hid join hjoin k hparent
  obtain ⟨a, ha, hid⟩ := (hg.mem_joins id).mp hid
  exact (hg.mem_joins k).mpr ⟨a, ha, parentClosed_readJoins hj (part a) id hid join hjoin k hparent⟩

end EntityQuery
