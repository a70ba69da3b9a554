import EntityQuery.StableSort
import Mathlib.Data.List.Basic
import Mathlib.Data.List.Induction

/-!
# Sorting by insertion sorts

An item is put behind the last item that it does not precede.  If preceding is asymmetric
and not preceding is transitive among the items, then no item of the result precedes an
earlier one.  Whatever the comparison is, items that stand in order before sorting keep
their places among each other.  The two facts leave only one list, so whichever stable sort
runs, it comes to the same list.

Main results:

- Definition `OrdersOn`: the comparison of some items is that of a total preorder.
- Theorem `pairwise_stableSort`: the result is in order.
- Theorem `sublist_stableSort`: items that are in order stay behind each other.
- Theorem `OrdersOn.eq_stableSort`: there is no other stable order of the items.
- Theorem `stableSort_map`: items may be sorted by what they are mapped to.
-/

namespace EntityQuery

variable {α β : Type} {precedes : α → α → Bool}

/-! ## Orders -/

/-- Among the items, preceding is asymmetric and not preceding is transitive. -/
structure OrdersOn (precedes : α → α → Bool) (items : List α) : Prop where
  asymm : ∀ a ∈ items, ∀ b ∈ items, precedes a b = true → precedes b a = false
  trans : ∀ a ∈ items, ∀ b ∈ items, ∀ c ∈ items,
    precedes a b = false → precedes b c = false → precedes a c = false

theorem OrdersOn.mono {items more : List α} (h : OrdersOn precedes more) (hsub : items ⊆ more) :
    OrdersOn precedes items where
  asymm a ha b hb := h.asymm a (hsub ha) b (hsub hb)
  trans a ha b hb c hc := h.trans a (hsub ha) b (hsub hb) c (hsub hc)

/-! ## Inserting an item -/

theorem mem_insertBehind {a x : α} {ys : List α} :
    a ∈ insertBehind precedes x ys ↔ a = x ∨ a ∈ ys := by
  rw [(perm_insertBehind precedes x ys).mem_iff, List.mem_cons]

/-- An inserted item keeps the others in order, and behind it there is none that it
precedes. -/
theorem pairwise_insertBehind {x : α} {ys : List α} (h : OrdersOn precedes (x :: ys))
    (hys : ys.Pairwise fun a b => precedes a b = false) :
    (insertBehind precedes x ys).Pairwise fun a b => precedes a b = false := by
  induction ys with
  | nil => exact List.pairwise_singleton _ _
  | cons y ys ih =>
      have hx : x ∈ x :: y :: ys := List.mem_cons_self ..
      have hy : y ∈ x :: y :: ys := by simp
      obtain ⟨hhead, htail⟩ := List.pairwise_cons.1 hys
      rw [insertBehind]
      split
      · next hprec =>
          refine List.pairwise_cons.2 ⟨?_, ih (h.mono (by simp)) htail⟩
          intro z hz
          rcases mem_insertBehind.1 hz with rfl | hz
          · exact h.asymm z hx y hy hprec
          · exact hhead z hz
      · next hprec =>
          have hxy : precedes x y = false := by simpa using hprec
          refine List.pairwise_cons.2 ⟨?_, hys⟩
          intro z hz
          rcases List.mem_cons.1 hz with rfl | hz'
          · exact hxy
          · exact h.trans x hx y hy z (by simp [hz']) hxy (hhead z hz')

theorem sublist_insertBehind (x : α) (ys : List α) : ys.Sublist (insertBehind precedes x ys) := by
  induction ys with
  | nil => exact List.nil_sublist _
  | cons y ys ih =>
      rw [insertBehind]
      split
      · exact ih.cons_cons y
      · exact List.sublist_cons_self ..

/-- An item is inserted before all items that it does not precede, the items being listed
from the last to the first. -/
theorem cons_sublist_insertBehind {x : α} {chosen ys : List α} (hsub : chosen.Sublist ys)
    (hx : ∀ y ∈ chosen, precedes x y = false) :
    (x :: chosen).Sublist (insertBehind precedes x ys) := by
  -- `x` moves past an item only if it precedes it, so past none of the chosen ones.
  induction hsub with
  | slnil => exact List.Sublist.refl _
  | @cons chosen ys y hsub ih =>
      rw [insertBehind]
      split
      · exact (ih hx).cons y
      · exact (hsub.cons y).cons_cons x
  | @cons_cons chosen ys y hsub ih =>
      have hxy : precedes x y = false := hx y (List.mem_cons_self ..)
      rw [insertBehind, hxy]
      exact (hsub.cons_cons y).cons_cons x

theorem insertBehind_map (f : β → α) (x : β) (ys : List β) :
    insertBehind precedes (f x) (ys.map f) =
      (insertBehind (fun a b => precedes (f a) (f b)) x ys).map f := by
  induction ys with
  | nil => rfl
  | cons y ys ih =>
      rw [List.map_cons, insertBehind, insertBehind, ih]
      split <;> rfl

/-! ## Sorting a list -/

/-- The last item is inserted into the sorted others. -/
theorem stableSort_concat (items : List α) (x : α) :
    stableSort precedes (items ++ [x]) =
      (insertBehind precedes x (stableSort precedes items).reverse).reverse := by
  simp [stableSort]

/-- No item of the result precedes an earlier one. -/
theorem pairwise_stableSort {items : List α} (h : OrdersOn precedes items) :
    (stableSort precedes items).Pairwise fun a b => precedes b a = false := by
  induction items using List.reverseRecOn with
  | nil => exact List.Pairwise.nil
  | append_singleton items x ih =>
      rw [stableSort_concat, List.pairwise_reverse]
      refine pairwise_insertBehind (h.mono ?_) (List.pairwise_reverse.2 (ih (h.mono ?_)))
      · intro a ha
        rcases List.mem_cons.1 ha with rfl | ha
        · simp
        · rw [List.mem_reverse, (perm_stableSort precedes items).mem_iff] at ha
          simp [ha]
      · exact List.subset_append_left ..

/-- Items of which no later one precedes an earlier one stay behind each other, whatever
stands between them. -/
theorem sublist_stableSort {chosen items : List α} (hsub : chosen.Sublist items)
    (hchosen : chosen.Pairwise fun a b => precedes b a = false) :
    chosen.Sublist (stableSort precedes items) := by
  induction items using List.reverseRecOn generalizing chosen with
  | nil => exact hsub
  | append_singleton items x ih =>
      rw [stableSort_concat, ← List.reverse_sublist, List.reverse_reverse]
      obtain ⟨front, last, rfl, hfront, hlast⟩ := List.sublist_append_iff.1 hsub
      obtain ⟨hpair, -, hbetween⟩ := List.pairwise_append.1 hchosen
      have hinner : front.reverse.Sublist (stableSort precedes items).reverse :=
        (ih hfront hpair).reverse
      rcases List.sublist_singleton.1 hlast with rfl | rfl
      · rw [List.append_nil]
        exact hinner.trans (sublist_insertBehind x _)
      · rw [List.reverse_append]
        refine cons_sublist_insertBehind hinner fun y hy => ?_
        exact hbetween y (List.mem_reverse.1 hy) x (List.mem_singleton_self x)

/-! ## The stable order -/

/-- Neither item precedes the other one. -/
def Tied (precedes : α → α → Bool) (a b : α) : Prop :=
  precedes a b = false ∧ precedes b a = false

instance (a b : α) : Decidable (Tied precedes a b) :=
  inferInstanceAs (Decidable (_ ∧ _))

namespace OrdersOn

variable {items out : List α}

theorem tied_self (h : OrdersOn precedes items) {a : α} (ha : a ∈ items) :
    Tied precedes a a := by
  have hself : precedes a a = false := by
    cases hp : precedes a a with
    | false => rfl
    | true => rw [← hp, h.asymm a ha a ha hp]
  exact ⟨hself, hself⟩

/-- A list that keeps tied items behind each other has those tied with one item as they
were. -/
theorem filter_tied_eq (h : OrdersOn precedes items) (hperm : out.Perm items)
    (hstable : ∀ tied : List α, tied.Sublist items → tied.Pairwise (Tied precedes) →
      tied.Sublist out) {a : α} (ha : a ∈ items) :
    out.filter (Tied precedes a ·) = items.filter (Tied precedes a ·) := by
  have htied : (items.filter (Tied precedes a ·)).Pairwise (Tied precedes) := by
    refine List.pairwise_of_forall_mem_list fun b hb c hc => ?_
    simp only [List.mem_filter, decide_eq_true_eq] at hb hc
    exact ⟨h.trans b hb.1 a ha c hc.1 hb.2.2 hc.2.1, h.trans c hc.1 a ha b hb.1 hc.2.2 hb.2.1⟩
  have hsub := (hstable _ List.filter_sublist htied).filter (Tied precedes a ·)
  rw [List.filter_filter] at hsub
  simp only [Bool.and_self] at hsub
  exact (hsub.eq_of_length (hperm.filter _).length_eq.symm).symm

/-- Two lists of the same items in order are equal when tied items stand alike in both. -/
theorem eq_of_filter_tied_eq (h : OrdersOn precedes items) (hperm : out.Perm items)
    (hitems : items.Pairwise fun a b => precedes b a = false)
    (hout : out.Pairwise fun a b => precedes b a = false)
    (hfilter : ∀ a ∈ items,
      out.filter (Tied precedes a ·) = items.filter (Tied precedes a ·)) :
    out = items := by
  induction items generalizing out with
  | nil => exact hperm.eq_nil
  | cons a items ih =>
      cases out with
      | nil => exact absurd hperm.symm.eq_nil (List.cons_ne_nil a items)
      | cons b out =>
          obtain ⟨ha, hitems'⟩ := List.pairwise_cons.1 hitems
          obtain ⟨hb, hout'⟩ := List.pairwise_cons.1 hout
          have haa := h.tied_self (List.mem_cons_self (a := a))
          -- Either head stands in the other list too, so neither precedes the other one.
          have hab : Tied precedes a b := by
            constructor
            · rcases List.mem_cons.1 (hperm.symm.subset List.mem_cons_self) with rfl | hmem
              · exact haa.1
              · exact hb a hmem
            · rcases List.mem_cons.1 (hperm.subset List.mem_cons_self) with rfl | hmem
              · exact haa.1
              · exact ha b hmem
          have hheads := hfilter a List.mem_cons_self
          rw [List.filter_cons_of_pos (by simpa using hab),
            List.filter_cons_of_pos (by simpa using haa)] at hheads
          obtain ⟨rfl, -⟩ := List.cons.inj hheads
          congr 1
          refine ih (h.mono (List.subset_cons_self ..)) hperm.cons_inv hitems' hout' ?_
          intro c hc
          have hclass := hfilter c (List.mem_cons_of_mem _ hc)
          rw [List.filter_cons, List.filter_cons] at hclass
          split at hclass
          · exact (List.cons.inj hclass).2
          · exact hclass

/-- There is one stable order: every list of the items in order that keeps tied items behind
each other is the one that sorting leaves. -/
theorem eq_stableSort (h : OrdersOn precedes items) (hperm : out.Perm items)
    (hout : out.Pairwise fun a b => precedes b a = false)
    (hstable : ∀ tied : List α, tied.Sublist items → tied.Pairwise (Tied precedes) →
      tied.Sublist out) : out = stableSort precedes items := by
  have hsorted := perm_stableSort precedes items
  refine (h.mono hsorted.subset).eq_of_filter_tied_eq (hperm.trans hsorted.symm)
    (pairwise_stableSort h) hout ?_
  intro a ha
  have hmem := hsorted.subset ha
  have hkeeps : ∀ tied : List α, tied.Sublist items → tied.Pairwise (Tied precedes) →
      tied.Sublist (stableSort precedes items) :=
    fun tied hsub htied => sublist_stableSort hsub (htied.imp And.right)
  rw [h.filter_tied_eq hperm hstable hmem, h.filter_tied_eq hsorted hkeeps hmem]

end OrdersOn

/-! ## Sorting images -/

/-- Sorting by what items are mapped to is sorting what they are mapped to. -/
theorem stableSort_map (f : β → α) (items : List β) :
    stableSort precedes (items.map f) =
      (stableSort (fun a b => precedes (f a) (f b)) items).map f := by
  induction items using List.reverseRecOn with
  | nil => rfl
  | append_singleton items x ih =>
      rw [List.map_append, List.map_singleton, stableSort_concat, stableSort_concat, ih,
        ← List.map_reverse, insertBehind_map, ← List.map_reverse]

end EntityQuery
