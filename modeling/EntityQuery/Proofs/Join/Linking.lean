import EntityQuery.Proofs.Join.Grouping
import Mathlib.Data.List.Pairwise
import Mathlib.Data.List.Perm.Basic
import Mathlib.Logic.Relation

/-!
# Conjuncts that joins link

Two conjuncts have to be searched for together when a chain of conjuncts leads from one to the
other in which each shares a join with the next.  The groups of conjuncts are the classes of
this relation.  They are built conjunct by conjunct: the group of the new one takes in every
group that it shares a join with.  How the groups are gone through does not matter, so they may
as well be scanned in place, with the last group moved to the place of one that is taken in.

Main results:

- Definition `Shares`: conjuncts that read a common join.
- Theorem `IsSeparation.together_iff`: a group holds exactly the conjuncts that are linked.
- Theorem `isSeparation_separateWith`: what a sound way of taking groups in builds.
- Theorem `isGrouping_separableGroups`: going through the groups one after another.
- Definition `scan`: the groups are gone through by place.
- Theorem `separated_by_shared_joins`: both ways distribute all places over the classes.
-/

namespace EntityQuery

section Groups

variable {α : Type} {reads : α → JoinSet} {conjuncts : List α} {groups groups' : List (Group α)}
variable {g h : Group α}

/-! ## Linked conjuncts -/

/-- Two conjuncts read a common join. -/
def Shares (reads : α → JoinSet) (a b : α) : Prop :=
  ∃ id ∈ reads a, id ∈ reads b

/-- Any two members of a group are linked by a chain of conjuncts that share joins. -/
def Group.Linked (reads : α → JoinSet) (g : Group α) : Prop :=
  ∀ a ∈ g.members, ∀ b ∈ g.members, Relation.ReflTransGen (Shares reads) a b

/-- Two groups with a common join hold members that share it, so they are linked as one. -/
theorem Group.Linked.union (hg : g.Linked reads) (hh : h.Linked reads) (hge : g.Exact reads)
    (hhe : h.Exact reads) {id : Nat} (hid : id ∈ g.joins) (hid' : id ∈ h.joins) :
    (g.union h).Linked reads := by
  obtain ⟨x, hx, hxid⟩ := (hge.mem_joins id).mp hid
  obtain ⟨y, hy, hyid⟩ := (hhe.mem_joins id).mp hid'
  have hxy : Relation.ReflTransGen (Shares reads) x y := .single ⟨id, hxid, hyid⟩
  have hyx : Relation.ReflTransGen (Shares reads) y x := .single ⟨id, hyid, hxid⟩
  intro a ha b hb
  rcases List.mem_append.mp ha with ha | ha <;> rcases List.mem_append.mp hb with hb | hb
  · exact hg a ha b hb
  · exact ((hg a ha x hx).trans hxy).trans (hh y hy b hb)
  · exact ((hh a ha y hy).trans hyx).trans (hg x hx b hb)
  · exact hh a ha b hb

/-- Groups that share no join, each linked and with the joins that its members read. -/
structure Separated (reads : α → JoinSet) (groups : List (Group α)) : Prop where
  apart : groups.Pairwise Group.Apart
  exact : ∀ g ∈ groups, g.Exact reads
  linked : ∀ g ∈ groups, g.Linked reads

namespace Separated

/-- The order of the groups does not matter. -/
theorem perm (h : Separated reads groups) (hp : groups.Perm groups') :
    Separated reads groups' where
  apart := (hp.pairwise_iff fun hgh => hgh.symm).mp h.apart
  exact := fun g hg => h.exact g (hp.mem_iff.mpr hg)
  linked := fun g hg => h.linked g (hp.mem_iff.mpr hg)

theorem sublist (h : Separated reads groups) (hsub : groups'.Sublist groups) :
    Separated reads groups' where
  apart := h.apart.sublist hsub
  exact := fun g hg => h.exact g (hsub.subset hg)
  linked := fun g hg => h.linked g (hsub.subset hg)

/-- What it takes for a group to be added to separated ones. -/
theorem cons (h : Separated reads groups) (happart : ∀ k ∈ groups, k.Apart g)
    (hexact : g.Exact reads) (hlinked : g.Linked reads) : Separated reads (g :: groups) where
  apart := List.pairwise_cons.mpr ⟨fun k hk => (happart k hk).symm, h.apart⟩
  exact := List.forall_mem_cons.mpr ⟨hexact, h.exact⟩
  linked := List.forall_mem_cons.mpr ⟨hlinked, h.linked⟩

end Separated

/-- Every conjunct stands in one of the groups, once, and the groups are separated. -/
structure IsSeparation (reads : α → JoinSet) (conjuncts : List α) (groups : List (Group α)) :
    Prop where
  perm : (groups.flatMap (·.members)).Perm conjuncts
  separated : Separated reads groups

namespace IsSeparation

theorem isGrouping (h : IsSeparation reads conjuncts groups) :
    IsGrouping reads conjuncts groups :=
  ⟨h.perm, h.separated.apart, h.separated.exact⟩

/-- Two groups that share a join are one and the same. -/
theorem eq_of_mem_joins (h : IsSeparation reads conjuncts groups) (hg : g ∈ groups) {k : Group α}
    (hk : k ∈ groups) {id : Nat} (hid : id ∈ g.joins) (hid' : id ∈ k.joins) : g = k := by
  have hsymm : Std.Symm (Group.Apart (α := α)) := ⟨fun _ _ h => h.symm⟩
  by_contra hne
  exact h.separated.apart.forall hg hk hne id hid hid'

variable {a b : α}

/-- The group of a conjunct holds every conjunct at the end of a chain from there. -/
theorem mem_of_linked (h : IsSeparation reads conjuncts groups) (hall : ∀ a, a ∈ conjuncts)
    (hab : Relation.ReflTransGen (Shares reads) a b) (hg : g ∈ groups) (ha : a ∈ g.members) :
    b ∈ g.members := by
  induction hab with
  | refl => exact ha
  | @tail b c _ hbc ih =>
      obtain ⟨k, hk, hc⟩ := h.isGrouping.mem_members_iff.mpr (hall c)
      obtain ⟨id, hidb, hidc⟩ := hbc
      have hidg := ((h.separated.exact g hg).mem_joins id).mpr ⟨b, ih, hidb⟩
      have hidk := ((h.separated.exact k hk).mem_joins id).mpr ⟨c, hc, hidc⟩
      rw [h.eq_of_mem_joins hg hk hidg hidk]
      exact hc

/-- Two conjuncts stand in one group exactly when a chain of conjuncts links them. -/
theorem together_iff (h : IsSeparation reads conjuncts groups) (hall : ∀ a, a ∈ conjuncts) :
    (∃ g ∈ groups, a ∈ g.members ∧ b ∈ g.members) ↔
      Relation.ReflTransGen (Shares reads) a b := by
  constructor
  · rintro ⟨g, hg, ha, hb⟩
    exact h.separated.linked g hg a ha b hb
  · intro hab
    obtain ⟨g, hg, ha⟩ := h.isGrouping.mem_members_iff.mpr (hall a)
    exact ⟨g, hg, ha, h.mem_of_linked hall hab hg ha⟩

end IsSeparation

/-! ## Taking groups in -/

/-- A way of growing a group by groups of a list is sound when it loses no member, and leaves
separated groups, the grown one included, of separated ones. -/
def GrowsSoundly (reads : α → JoinSet)
    (grow : Group α → List (Group α) → Group α × List (Group α)) : Prop :=
  ∀ (g : Group α) (groups : List (Group α)), g.Exact reads → g.Linked reads →
    Separated reads groups →
    ((grow g groups).1.members ++ (grow g groups).2.flatMap (·.members)).Perm
      (g.members ++ groups.flatMap (·.members)) ∧
    Separated reads ((grow g groups).1 :: (grow g groups).2)

/-- Groups with one more conjunct, whose own group has grown by the others. -/
def addWith (grow : Group α → List (Group α) → Group α × List (Group α)) (reads : α → JoinSet)
    (groups : List (Group α)) (a : α) : List (Group α) :=
  let (g, rest) := grow ⟨[a], reads a⟩ groups
  rest ++ [g]

/-- The groups of conjuncts that are added one by one. -/
def separateWith (grow : Group α → List (Group α) → Group α × List (Group α))
    (reads : α → JoinSet) (conjuncts : List α) : List (Group α) :=
  conjuncts.foldl (addWith grow reads) []

/-- A conjunct that is added soundly is separated with the others. -/
theorem IsSeparation.addWith {grow : Group α → List (Group α) → Group α × List (Group α)}
    (hgrow : GrowsSoundly reads grow) (h : IsSeparation reads conjuncts groups) (a : α)
    (ha : (reads a).Pairwise (· < ·)) :
    IsSeparation reads (conjuncts ++ [a]) (addWith grow reads groups a) := by
  have hexact : Group.Exact reads ⟨[a], reads a⟩ := ⟨fun id => by simp, ha⟩
  have hlinked : Group.Linked reads ⟨[a], reads a⟩ := by
    intro b hb c hc
    rw [List.mem_singleton.mp hb, List.mem_singleton.mp hc]
  obtain ⟨hmembers, hseparated⟩ := hgrow ⟨[a], reads a⟩ groups hexact hlinked h.separated
  unfold EntityQuery.addWith
  refine ⟨?_, hseparated.perm (List.perm_append_singleton _ _).symm⟩
  rw [List.flatMap_append, List.flatMap_singleton]
  calc
    ((grow ⟨[a], reads a⟩ groups).2.flatMap (·.members) ++
          (grow ⟨[a], reads a⟩ groups).1.members).Perm
        ((grow ⟨[a], reads a⟩ groups).1.members ++
          (grow ⟨[a], reads a⟩ groups).2.flatMap (·.members)) := List.perm_append_comm
    _ |>.Perm ([a] ++ groups.flatMap (·.members)) := hmembers
    _ |>.Perm (groups.flatMap (·.members) ++ [a]) := List.perm_append_comm
    _ |>.Perm (conjuncts ++ [a]) := h.perm.append_right [a]

/-- Conjuncts that are added soundly, one by one, are separated. -/
theorem isSeparation_separateWith {grow : Group α → List (Group α) → Group α × List (Group α)}
    (hgrow : GrowsSoundly reads grow) (hreads : ∀ a, (reads a).Pairwise (· < ·))
    (conjuncts : List α) : IsSeparation reads conjuncts (separateWith grow reads conjuncts) := by
  suffices hfold : ∀ (rest done : List α) (groups : List (Group α)),
      IsSeparation reads done groups →
      IsSeparation reads (done ++ rest) (rest.foldl (addWith grow reads) groups) from
    hfold conjuncts [] [] ⟨.refl _, List.Pairwise.nil, by simp, by simp⟩
  intro rest
  induction rest with
  | nil =>
      intro done groups h
      rw [List.append_nil]
      exact h
  | cons a rest ih =>
      intro done groups h
      rw [List.append_cons]
      exact ih (done ++ [a]) _ (h.addWith hgrow a (hreads a))

/-! ### One after another -/

theorem linked_absorb {hs : List (Group α)} (hg : g.Exact reads) (hlinked : g.Linked reads)
    (hhs : Separated reads hs) : (absorb g hs).1.Linked reads := by
  induction hs generalizing g with
  | nil => exact hlinked
  | cons h hs ih =>
      have hrest := hhs.sublist (List.sublist_cons_self h hs)
      by_cases hdisj : disjointJoins h.joins g.joins = true
      · rw [absorb_cons_of_apart hs hdisj]
        exact ih hg hlinked hrest
      · have hh := hhs.exact h List.mem_cons_self
        obtain ⟨id, hid, hid'⟩ : ∃ id ∈ h.joins, id ∈ g.joins := by
          simpa [disjointJoins_iff] using hdisj
        rw [absorb_cons_of_shared hs (Bool.eq_false_iff.mpr hdisj)]
        exact ih (hg.union hh)
          (hlinked.union (hhs.linked h List.mem_cons_self) hg hh hid' hid) hrest

/-- Going through the groups one after another is sound. -/
theorem growsSoundly_absorb (reads : α → JoinSet) : GrowsSoundly reads absorb := by
  intro g groups hg hlinked hgroups
  have hrest := hgroups.sublist (sublist_absorb g groups)
  exact ⟨perm_absorb g groups, hrest.cons (apart_absorb hgroups.apart)
    (exact_absorb hg hgroups.exact) (linked_absorb hg hlinked hgroups)⟩

/-- The groups of a list of conjuncts are a distribution of them. -/
theorem isGrouping_separableGroups (hreads : ∀ a, (reads a).Pairwise (· < ·))
    (conjuncts : List α) : IsGrouping reads conjuncts (separableGroups reads conjuncts) :=
  (isSeparation_separateWith (growsSoundly_absorb reads) hreads conjuncts).isGrouping

/-! ### In place -/

/-- Remove the item at a place; the last item moves there. -/
def swapRemove (as : List α) (i : Nat) : List α :=
  match as.getLast? with
  | none => []
  | some last => (as.set i last).dropLast

theorem swapRemove_concat (as : List α) (last : α) (i : Nat) :
    swapRemove (as ++ [last]) i = if i < as.length then as.set i last else as := by
  have hset : [last].set (i - as.length) last = [last] := by
    cases i - as.length <;> rfl
  simp only [swapRemove, List.getLast?_concat, List.set_append]
  split
  · exact List.dropLast_concat
  · rw [hset, List.dropLast_concat]

theorem length_swapRemove (as : List α) (i : Nat) :
    (swapRemove as i).length = as.length - 1 := by
  rcases List.eq_nil_or_concat as with rfl | ⟨as, last, rfl⟩
  · rfl
  · rw [List.concat_eq_append, swapRemove_concat]
    split <;> simp

/-- Items before the place of the removed one stay where they are. -/
theorem getElem?_swapRemove_of_lt {as : List α} {i k : Nat} (hk : k < i) (hi : i < as.length) :
    (swapRemove as i)[k]? = as[k]? := by
  rcases List.eq_nil_or_concat as with rfl | ⟨as, last, rfl⟩
  · rfl
  · have hlt : k < as.length := by
      simp at hi
      omega
    rw [List.concat_eq_append, swapRemove_concat, List.getElem?_append_left hlt]
    split
    · exact List.getElem?_set_ne (by omega)
    · rfl

/-- Only the item at the place is removed. -/
theorem perm_swapRemove {as : List α} {i : Nat} {a : α} (h : as[i]? = some a) :
    as.Perm (a :: swapRemove as i) := by
  rcases List.eq_nil_or_concat as with rfl | ⟨as, last, rfl⟩
  · simp at h
  · rw [List.concat_eq_append] at h ⊢
    rw [swapRemove_concat]
    split
    · next hi =>
        rw [List.getElem?_append_left hi] at h
        obtain ⟨-, rfl⟩ := List.getElem?_eq_some_iff.mp h
        calc
          (as ++ [last]).Perm (last :: as) := List.perm_append_singleton last as
          _ |>.Perm (last :: as[i] :: as.eraseIdx i) :=
            ((List.getElem_cons_eraseIdx_perm hi).symm).cons last
          _ |>.Perm (as[i] :: last :: as.eraseIdx i) := List.Perm.swap _ _ _
          _ |>.Perm (as[i] :: as.set i last) := (List.set_perm_cons_eraseIdx hi last).symm.cons _
    · next hi =>
        have hlast : i = as.length := by
          obtain ⟨hlt, -⟩ := List.getElem?_eq_some_iff.mp h
          simp at hlt
          omega
        subst hlast
        rw [List.getElem?_concat_length, Option.some.injEq] at h
        rw [h]
        exact List.perm_append_singleton a as

/-- Take into a group every group of a list that shares a join with it, from a place on.  What
the group takes in counts for the groups behind, and the last group of the list moves to the
place of one that is taken in.  The groups left over come second. -/
def scan (g : Group α) (groups : List (Group α)) (i : Nat) : Group α × List (Group α) :=
  match hi : groups[i]? with
  | none => (g, groups)
  | some h =>
    if disjointJoins h.joins g.joins then scan g groups (i + 1)
    else scan (g.union h) (swapRemove groups i) i
termination_by groups.length - i
decreasing_by
  · obtain ⟨hlt, -⟩ := List.getElem?_eq_some_iff.mp hi
    omega
  · obtain ⟨hlt, -⟩ := List.getElem?_eq_some_iff.mp hi
    rw [length_swapRemove]
    omega

theorem scan_of_none {i : Nat} (hi : groups[i]? = none) : scan g groups i = (g, groups) := by
  rw [scan]
  split
  · rfl
  · next h' => simp [hi] at h'

theorem scan_of_apart {i : Nat} (hi : groups[i]? = some h)
    (hdisj : disjointJoins h.joins g.joins = true) :
    scan g groups i = scan g groups (i + 1) := by
  rw [scan]
  split
  · next h' => simp [hi] at h'
  · next k h' =>
      rw [hi, Option.some.injEq] at h'
      rw [← h', if_pos hdisj]

theorem scan_of_shared {i : Nat} (hi : groups[i]? = some h)
    (hdisj : disjointJoins h.joins g.joins = false) :
    scan g groups i = scan (g.union h) (swapRemove groups i) i := by
  rw [scan]
  split
  · next h' => simp [hi] at h'
  · next k h' =>
      rw [hi, Option.some.injEq] at h'
      rw [← h', if_neg (by simp [hdisj])]

/-- Scanning goes on soundly from a place as long as the groups before it share no join with
the growing one.  They share none with what it takes in either, so they never have to be looked
at again. -/
theorem scan_sound {i : Nat} (hg : g.Exact reads) (hlinked : g.Linked reads)
    (hgroups : Separated reads groups)
    (hpassed : ∀ k h, k < i → groups[k]? = some h → h.Apart g) :
    ((scan g groups i).1.members ++ (scan g groups i).2.flatMap (·.members)).Perm
      (g.members ++ groups.flatMap (·.members)) ∧
    Separated reads ((scan g groups i).1 :: (scan g groups i).2) := by
  induction g, groups, i using scan.induct with
  | case1 g groups i hi =>
      rw [scan_of_none hi]
      refine ⟨.refl _, hgroups.cons ?_ hg hlinked⟩
      intro h hh
      obtain ⟨k, hlt, rfl⟩ := List.getElem_of_mem hh
      rw [List.getElem?_eq_none_iff] at hi
      exact hpassed k _ (by omega) (List.getElem?_eq_getElem hlt)
  | case2 g groups i h hi hdisj ih =>
      rw [scan_of_apart hi hdisj]
      apply ih hg hlinked hgroups
      intro k h' hk hk'
      by_cases hlt : k < i
      · exact hpassed k h' hlt hk'
      · have heq : k = i := by omega
        rw [heq, hi, Option.some.injEq] at hk'
        rw [← hk']
        exact disjointJoins_iff.mp hdisj
  | case3 g groups i h hi hdisj ih =>
      have hperm := perm_swapRemove hi
      have hmem := List.mem_of_getElem? hi
      have hall : Separated reads (h :: swapRemove groups i) := hgroups.perm hperm
      obtain ⟨id, hid, hid'⟩ : ∃ id ∈ h.joins, id ∈ g.joins := by
        simpa [disjointJoins_iff] using hdisj
      rw [scan_of_shared hi (Bool.eq_false_iff.mpr hdisj)]
      obtain ⟨hmembers, hseparated⟩ := ih (hg.union (hgroups.exact h hmem))
        (hlinked.union (hgroups.linked h hmem) hg (hgroups.exact h hmem) hid' hid)
        (hall.sublist (List.sublist_cons_self _ _)) (by
          intro k h' hk hk'
          obtain ⟨hlt, -⟩ := List.getElem?_eq_some_iff.mp hi
          have happart := (List.pairwise_cons.mp hall.apart).1 h' (List.mem_of_getElem? hk')
          rw [getElem?_swapRemove_of_lt hk hlt] at hk'
          intro id hid hunion
          rcases mem_unionJoins.mp hunion with hjoin | hjoin
          · exact happart id hjoin hid
          · exact hpassed k h' hk hk' id hid hjoin)
      refine ⟨hmembers.trans ?_, hseparated⟩
      calc
        ((g.union h).members ++ (swapRemove groups i).flatMap (·.members)).Perm
            (g.members ++ (h :: swapRemove groups i).flatMap (·.members)) := by
          simp [Group.union]
        _ |>.Perm (g.members ++ groups.flatMap (·.members)) :=
          (hperm.flatMap_right _).symm.append_left _

/-- Scanning the groups in place is sound. -/
theorem growsSoundly_scan (reads : α → JoinSet) :
    GrowsSoundly reads fun g groups => scan g groups 0 :=
  fun _ _ hg hlinked hgroups => scan_sound hg hlinked hgroups fun _ _ hk => absurd hk (by omega)

/-- The groups of conjuncts, built by scanning them in place. -/
def separateInPlace (reads : α → JoinSet) (conjuncts : List α) : List (Group α) :=
  separateWith (fun g groups => scan g groups 0) reads conjuncts

end Groups

/-! ## Places of conjuncts -/

section Places

variable {α β : Type} {reads : α → JoinSet}

/-- The group with its members replaced. -/
def Group.map (f : β → α) (g : Group β) : Group α :=
  ⟨g.members.map f, g.joins⟩

theorem Group.map_union (f : β → α) (g h : Group β) :
    (g.map f).union (h.map f) = (g.union h).map f := by
  simp [union, map]

theorem absorb_map (f : β → α) (g : Group β) (hs : List (Group β)) :
    absorb (g.map f) (hs.map (Group.map f)) =
      ((absorb g hs).1.map f, (absorb g hs).2.map (Group.map f)) := by
  induction hs generalizing g with
  | nil => rfl
  | cons h hs ih =>
      rw [List.map_cons]
      by_cases hdisj : disjointJoins h.joins g.joins = true
      · rw [absorb_cons_of_apart hs hdisj,
          absorb_cons_of_apart (g := g.map f) (h := h.map f) _ hdisj, ih]
        rfl
      · have hshared := Bool.eq_false_iff.mpr hdisj
        rw [absorb_cons_of_shared hs hshared,
          absorb_cons_of_shared (g := g.map f) (h := h.map f) _ hshared, Group.map_union, ih]

theorem swapRemove_map (f : β → α) (bs : List β) (i : Nat) :
    swapRemove (bs.map f) i = (swapRemove bs i).map f := by
  rcases List.eq_nil_or_concat bs with rfl | ⟨bs, last, rfl⟩
  · rfl
  · rw [List.concat_eq_append, List.map_append, List.map_singleton, swapRemove_concat,
      swapRemove_concat, List.length_map]
    split
    · rw [List.map_set]
    · rfl

theorem scan_map (f : β → α) (g : Group β) (groups : List (Group β)) (i : Nat) :
    scan (g.map f) (groups.map (Group.map f)) i =
      ((scan g groups i).1.map f, (scan g groups i).2.map (Group.map f)) := by
  have hget : ∀ (groups : List (Group β)) (i : Nat) {o : Option (Group β)}, groups[i]? = o →
      (groups.map (Group.map f))[i]? = o.map (Group.map f) := by
    intro groups i o hi
    rw [List.getElem?_map, hi]
  induction g, groups, i using scan.induct with
  | case1 g groups i hi => rw [scan_of_none hi, scan_of_none (hget groups i hi)]
  | case2 g groups i h hi hdisj ih =>
      rw [scan_of_apart hi hdisj,
        scan_of_apart (g := g.map f) (h := h.map f) (hget groups i hi) hdisj, ih]
  | case3 g groups i h hi hdisj ih =>
      have hshared := Bool.eq_false_iff.mpr hdisj
      rw [scan_of_shared hi hshared,
        scan_of_shared (g := g.map f) (h := h.map f) (hget groups i hi) hshared, swapRemove_map,
        Group.map_union, ih]

/-- Conjuncts are grouped as what stands for them is. -/
theorem separateWith_map {grow : Group α → List (Group α) → Group α × List (Group α)}
    {grow' : Group β → List (Group β) → Group β × List (Group β)} (f : β → α)
    (hgrow : ∀ g hs, grow (g.map f) (hs.map (Group.map f)) =
      ((grow' g hs).1.map f, (grow' g hs).2.map (Group.map f))) (bs : List β) :
    separateWith grow reads (bs.map f) =
      (separateWith grow' (fun b => reads (f b)) bs).map (Group.map f) := by
  have hadd : ∀ (groups : List (Group β)) (b : β),
      addWith grow reads (groups.map (Group.map f)) (f b) =
        (addWith grow' (fun b => reads (f b)) groups b).map (Group.map f) := by
    intro groups b
    have hb := hgrow ⟨[b], reads (f b)⟩ groups
    rw [addWith, addWith]
    simp only [Group.map, List.map_singleton] at hb
    simp [hb, Group.map]
  unfold separateWith
  rw [List.foldl_map, ← List.map_nil (f := Group.map f)]
  generalize ([] : List (Group β)) = groups
  induction bs generalizing groups with
  | nil => rfl
  | cons b bs ih => rw [List.foldl_cons, List.foldl_cons, hadd, ih]

end Places

/-! ## Groups of predicates -/

section Predicates

variable {E α : Type} {joins : List (Join E)}

/-- Conjuncts are separated, in either way, into groups of their places: every place stands in
one group, once; the groups share no join; a group has exactly the joins that its conjuncts
read, with the parents of all of them; and two places stand in one group exactly when a chain
of places links them in which each conjunct shares a join with the next. -/
theorem separated_by_shared_joins (hj : WellFormedJoins joins) (part : α → Predicate)
    (conjuncts : List α) :
    let reads : α → JoinSet := fun a => readJoins joins (part a)
    ∀ groups ∈ [separableGroups reads conjuncts, separateInPlace reads conjuncts],
      ∃ places : List (Group (Fin conjuncts.length)),
        groups = places.map (Group.map conjuncts.get) ∧
        (places.flatMap (·.members)).Perm (List.finRange conjuncts.length) ∧
        places.Pairwise Group.Apart ∧
        (∀ g ∈ places,
          (∀ id, id ∈ g.joins ↔ ∃ i ∈ g.members, id ∈ reads (conjuncts.get i)) ∧
          ParentClosed joins g.joins) ∧
        ∀ i j, (∃ g ∈ places, i ∈ g.members ∧ j ∈ g.members) ↔
          Relation.ReflTransGen (Shares fun i => reads (conjuncts.get i)) i j := by
  intro reads groups hgroups
  let readsAt : Fin conjuncts.length → JoinSet := fun i => reads (conjuncts.get i)
  have hreads : ∀ i, (readsAt i).Pairwise (· < ·) := fun i => ascending_readJoins _
  -- either way of growing builds the groups of the places first and reads them as conjuncts
  have hplaces : ∃ places, IsSeparation readsAt (List.finRange conjuncts.length) places ∧
      groups = places.map (Group.map conjuncts.get) := by
    have hconjuncts : conjuncts = (List.finRange conjuncts.length).map conjuncts.get :=
      (List.map_get_finRange conjuncts).symm
    rcases List.mem_pair.mp hgroups with rfl | rfl
    · refine ⟨_, isSeparation_separateWith (growsSoundly_absorb _) hreads _, ?_⟩
      conv_lhs => rw [hconjuncts]
      exact separateWith_map conjuncts.get (absorb_map _) _
    · refine ⟨_, isSeparation_separateWith (growsSoundly_scan _) hreads _, ?_⟩
      conv_lhs => rw [hconjuncts]
      exact separateWith_map conjuncts.get (fun g hs => scan_map _ g hs 0) _
  obtain ⟨places, h, hgroups⟩ := hplaces
  refine ⟨places, hgroups, h.perm, h.separated.apart, fun g hg => ?_, fun i j =>
    h.together_iff List.mem_finRange⟩
  have hexact := h.separated.exact g hg
  exact ⟨hexact.mem_joins, hexact.parentClosed hj⟩

/-- A predicate on prizes and one on the authors of books are linked by a third one, which comes
last and reads both prizes and books; a predicate without joins that is there twice stands in two
groups. -/
theorem separated_by_shared_joins_books :
    let joins : List (Join Unit) :=
      [⟨0, .root, ⟨"books", (), .many⟩⟩, ⟨1, .join 0, ⟨"author", (), .one⟩⟩,
        ⟨2, .root, ⟨"prizes", (), .many⟩⟩]
    let year (id : Nat) : FieldRef := ⟨.join id, "year", .int⟩
    let conjuncts : List Predicate :=
      [.test (year 2) .isNotNull, .const true, .test (year 1) .isNotNull, .const true,
        .any [.test (year 0) .isNull, .test (year 2) .isNull]]
    WellFormedJoins joins ∧
      (separateInPlace (readJoins joins) conjuncts).map (·.joins) = [[], [], [0, 1, 2]] ∧
      ∃ places : List (Group (Fin 5)),
        separateInPlace (readJoins joins) conjuncts = places.map (Group.map conjuncts.get) ∧
        (places.flatMap (·.members)).Perm (List.finRange 5) ∧
        (∃ g ∈ places, 0 ∈ g.members ∧ 2 ∈ g.members) ∧
        ¬ ∃ g ∈ places, 1 ∈ g.members ∧ 3 ∈ g.members := by
  intro joins year conjuncts
  have hj : WellFormedJoins joins := by unfold WellFormedJoins; decide
  obtain ⟨places, hgroups, hperm, -, -, htogether⟩ := separated_by_shared_joins hj
    (fun p : Predicate => p) conjuncts _ (List.mem_pair.mpr (Or.inr rfl))
  have hprizes : Shares (fun i => readJoins joins (conjuncts.get i)) 0 4 :=
    ⟨2, by decide +kernel, by decide +kernel⟩
  have hbooks : Shares (fun i => readJoins joins (conjuncts.get i)) 4 2 :=
    ⟨0, by decide +kernel, by decide +kernel⟩
  refine ⟨hj, by decide +kernel, places, hgroups, hperm,
    (htogether 0 2).mpr ((Relation.ReflTransGen.single hprizes).tail hbooks), ?_⟩
  intro h
  rcases ((htogether 1 3).mp h).cases_head with heq | ⟨i, ⟨id, hid, -⟩, -⟩
  · exact absurd heq (by decide)
  · have hnone : readJoins joins (conjuncts.get 1) = [] := by decide +kernel
    exact absurd (hnone ▸ hid : id ∈ ([] : JoinSet)) List.not_mem_nil

end Predicates

end EntityQuery
