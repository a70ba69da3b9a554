/-!
# Sorting by insertion

Items are taken one by one and put behind the last item that they do not precede.

Where the comparison is a total preorder on the items, a list has one stable order, and
every stable sort finds it.  Elsewhere the library sort that runs in the service promises
nothing: it may leave any order of the items, and it may stop with an error when it notices
the fault.  This one then still ends with some order of the items, so what is proved of a
sort stands for the running one only where the items are compared by a total preorder.

Main results:

- Theorem `perm_stableSort`: sorting only moves items.
- Theorem `stableSort_of_pairwise`: items that are in order stay as they are.
-/

namespace EntityQuery

variable {α : Type}

/-- Put an item behind the last one that it does not precede.  The items are listed
from the last to the first. -/
def insertBehind (precedes : α → α → Bool) (x : α) : List α → List α
  | [] => [x]
  | y :: ys => if precedes x y then y :: insertBehind precedes x ys else x :: y :: ys

/-- The items in order; items of which none precedes the other keep their order.  It stands
for a library sort when preceding is asymmetric and not preceding is transitive among the
items; otherwise a library sort may leave another order or stop. -/
def stableSort (precedes : α → α → Bool) (items : List α) : List α :=
  (items.foldl (fun sorted x => insertBehind precedes x sorted) []).reverse

theorem perm_insertBehind (precedes : α → α → Bool) (x : α) (ys : List α) :
    (insertBehind precedes x ys).Perm (x :: ys) := by
  induction ys with
  | nil => exact .refl _
  | cons y ys ih =>
    rw [insertBehind]
    split
    · exact (ih.cons y).trans (.swap x y ys)
    · exact .refl _

/-- Sorting only moves items. -/
theorem perm_stableSort (precedes : α → α → Bool) (items : List α) :
    (stableSort precedes items).Perm items := by
  have go : ∀ (items sorted : List α),
      (items.foldl (fun sorted x => insertBehind precedes x sorted) sorted).Perm
        (items ++ sorted) := by
    intro items
    induction items with
    | nil => intro sorted; exact .refl _
    | cons x items ih =>
      intro sorted
      exact (ih _).trans (((perm_insertBehind precedes x sorted).append_left items).trans
        List.perm_middle)
  simpa [stableSort] using (List.reverse_perm _).trans (go items [])

/-- Items of which no later one precedes an earlier one stay as they are. -/
theorem stableSort_of_pairwise {precedes : α → α → Bool} {items : List α}
    (h : items.Pairwise fun a b => precedes b a = false) : stableSort precedes items = items := by
  have go : ∀ (items sorted : List α), (items.Pairwise fun a b => precedes b a = false) →
      (∀ x ∈ items, ∀ y ∈ sorted, precedes x y = false) →
      items.foldl (fun sorted x => insertBehind precedes x sorted) sorted =
        items.reverse ++ sorted := by
    intro items
    induction items with
    | nil => intro sorted _ _; rfl
    | cons x items ih =>
      intro sorted hp hs
      have hx : insertBehind precedes x sorted = x :: sorted := by
        cases sorted with
        | nil => rfl
        | cons y ys => simp [insertBehind, hs x (List.mem_cons_self ..) y (List.mem_cons_self ..)]
      rw [List.pairwise_cons] at hp
      rw [List.foldl_cons, hx, ih (x :: sorted) hp.2]
      · simp
      · intro z hz y hy
        rcases List.mem_cons.1 hy with rfl | hy
        · exact hp.1 z hz
        · exact hs z (List.mem_cons_of_mem _ hz) y hy
  rw [stableSort, go items [] h (by simp)]
  simp

end EntityQuery
