import EntityQuery.Paging.Sorting
import EntityQuery.Proofs.StableSort
import EntityQuery.Proofs.Value.Canonical

/-!
# Rows in order

Rows whose values under a key are nulls and values of one variant are compared by the key
as by a total preorder: smaller values first or last, by the direction, with nulls behind
all values or before them.  Keys are taken one after the other, so the rows of a sorted
list stand in the lexicographic order of the keys, and rows that tie on every key stand as
they did.

Main results:

- Definition `SortKey.Before`: a value stands before another under a key.
- Definitions `Row.Precedes` and `Row.Ties`: the lexicographic order of rows.
- Theorem `Row.transCmp_compareBy`: on uniform rows the comparison by keys is that of a
  total preorder.
- Theorem `sortRows_ordered`: what sorting does.
- Theorem `eq_sortRows`: and nothing but sorting does it.
-/

namespace EntityQuery

open Value

/-! ## The order under one key -/

namespace SortKey

/-- The first value stands before the second one: nulls are last when ascending and first
when descending. -/
def Before (k : SortKey) (a b : Value) : Prop :=
  match k.direction with
  | .ascending => a ≠ .null ∧ (b = .null ∨ a.strictCompare? b = some .lt)
  | .descending => b ≠ .null ∧ (a = .null ∨ a.strictCompare? b = some .gt)

/-- Neither value stands before the other. -/
def Ties (k : SortKey) (a b : Value) : Prop :=
  ¬ k.Before a b ∧ ¬ k.Before b a

/-- Over the rows, the key takes only nulls and values of one variant, no NaN among
them. -/
structure Uniform (k : SortKey) (rows : List Row) : Prop where
  notNaN : ∀ r ∈ rows, (k.value r).isNaN = false
  sameVariant : ∀ r ∈ rows, ∀ s ∈ rows, (k.value r).SameVariant (k.value s)

variable {k : SortKey} {rows : List Row}

theorem compare_swap (k : SortKey) (a b : Value) : k.compare b a = (k.compare a b).swap := by
  unfold SortKey.compare
  split <;> exact canonicalCompare_swap _ _

theorem compare_eq_lt_iff {a b : Value} (h : a.SameVariant b) :
    k.compare a b = .lt ↔ k.Before a b := by
  unfold SortKey.compare Before
  cases k.direction with
  | ascending => exact canonicalCompare_eq_lt_iff h
  | descending =>
      simp only [canonicalCompare_eq_lt_iff h.symm, strictCompare?_swap a b]
      cases a.strictCompare? b with
      | none => simp
      | some o => cases o <;> simp

theorem compare_eq_eq_iff {a b : Value} (h : a.SameVariant b) :
    k.compare a b = .eq ↔ k.Ties a b := by
  rw [Ties, ← compare_eq_lt_iff h, ← compare_eq_lt_iff h.symm, compare_swap k a b]
  cases k.compare a b <;> simp

/-- On uniform rows the comparison of a key is that of a total preorder. -/
theorem Uniform.transCmp (h : k.Uniform rows) :
    Std.TransCmp fun r s : { r // r ∈ rows } => k.compare (k.value r) (k.value s) where
  eq_swap := compare_swap k _ _
  isLE_trans {r s t} hrs hst := by
    have hnan := fun r : { r // r ∈ rows } => h.notNaN r r.2
    rw [Ordering.isLE_iff_ne_gt] at *
    cases hdirection : k.direction with
    | ascending =>
        simp only [SortKey.compare, hdirection] at *
        exact (AtMost.trans_iff (hnan r) (hnan s) (hnan t) hrs hst).2
          (not_blurs_of_sameVariant (h.sameVariant r r.2 s s.2))
    | descending =>
        simp only [SortKey.compare, hdirection] at *
        exact (AtMost.trans_iff (hnan t) (hnan s) (hnan r) hst hrs).2
          (not_blurs_of_sameVariant (h.sameVariant t t.2 s s.2))

end SortKey

/-! ## The order under several keys -/

namespace Row

/-- The first key under which two rows do not tie puts the first row before the second. -/
def Precedes : List SortKey → Row → Row → Prop
  | [], _, _ => False
  | k :: ks, r, s =>
    k.Before (k.value r) (k.value s) ∨ k.Ties (k.value r) (k.value s) ∧ Precedes ks r s

/-- Two rows tie under every key. -/
def Ties (keys : List SortKey) (r s : Row) : Prop :=
  ∀ k ∈ keys, k.Ties (k.value r) (k.value s)

/-- Compare two rows by the values of the keys. -/
def compareBy (keys : List SortKey) (r s : Row) : Ordering :=
  compareByKeys keys (keys.map (·.value r)) (keys.map (·.value s))

variable {keys : List SortKey} {rows : List Row} {r s : Row}

theorem compareBy_cons (k : SortKey) (ks : List SortKey) (r s : Row) :
    compareBy (k :: ks) r s = (k.compare (k.value r) (k.value s)).then (compareBy ks r s) :=
  rfl

theorem compareBy_eq_lt_iff (h : ∀ k ∈ keys, k.Uniform rows) (hr : r ∈ rows) (hs : s ∈ rows) :
    compareBy keys r s = .lt ↔ Precedes keys r s := by
  induction keys with
  | nil => simp [compareBy, compareByKeys, Precedes]
  | cons k ks ih =>
      obtain ⟨hk, hks⟩ := List.forall_mem_cons.1 h
      have hvariant := hk.sameVariant r hr s hs
      rw [compareBy_cons, Ordering.then_eq_lt, SortKey.compare_eq_lt_iff hvariant,
        SortKey.compare_eq_eq_iff hvariant, ih hks]
      exact Iff.rfl

theorem compareBy_eq_eq_iff (h : ∀ k ∈ keys, k.Uniform rows) (hr : r ∈ rows) (hs : s ∈ rows) :
    compareBy keys r s = .eq ↔ Ties keys r s := by
  induction keys with
  | nil => simp [compareBy, compareByKeys, Ties]
  | cons k ks ih =>
      obtain ⟨hk, hks⟩ := List.forall_mem_cons.1 h
      rw [compareBy_cons, Ordering.then_eq_eq,
        SortKey.compare_eq_eq_iff (hk.sameVariant r hr s hs), ih hks, Ties, Ties,
        List.forall_mem_cons]

/-- On uniform rows the comparison by keys is that of a total preorder: each key is one,
and so is the lexicographic combination. -/
theorem transCmp_compareBy (h : ∀ k ∈ keys, k.Uniform rows) :
    Std.TransCmp fun r s : { r // r ∈ rows } => compareBy keys r s := by
  induction keys with
  | nil => exact { eq_swap := rfl, isLE_trans := fun _ _ => rfl }
  | cons k ks ih =>
      obtain ⟨hk, hks⟩ := List.forall_mem_cons.1 h
      have := hk.transCmp
      have := ih hks
      exact inferInstanceAs (Std.TransCmp (compareLex
        (fun r s : { r // r ∈ rows } => k.compare (k.value r) (k.value s))
        (fun r s => compareBy ks r s)))

end Row

/-! ## Sorted rows -/

/-- Sorting rows with their values is sorting the rows. -/
theorem sortRows_eq_stableSort (keys : List SortKey) (rows : List Row) :
    sortRows keys rows = stableSort (fun r s => Row.compareBy keys r s == .lt) rows := by
  rw [sortRows, stableSort_map, List.map_map]
  exact List.map_id _

theorem beq_lt_eq_false_iff {o : Ordering} : (o == .lt) = false ↔ o.isGE = true := by
  cases o <;> decide

/-- On uniform rows the comparison by keys orders rows. -/
theorem ordersOn_compareBy {keys : List SortKey} {rows : List Row}
    (h : ∀ k ∈ keys, k.Uniform rows) :
    OrdersOn (fun r s => Row.compareBy keys r s == .lt) rows := by
  have hcmp := Row.transCmp_compareBy h
  constructor
  · intro r hr s hs hlt
    rw [beq_iff_eq] at hlt
    rw [hcmp.eq_swap (a := ⟨s, hs⟩) (b := ⟨r, hr⟩), hlt]
    rfl
  · intro r hr s hs t ht hrs hst
    rw [beq_lt_eq_false_iff] at *
    exact hcmp.isGE_trans (a := ⟨r, hr⟩) (b := ⟨s, hs⟩) (c := ⟨t, ht⟩) hrs hst

/-- A row that does not come after another one precedes it or ties with it. -/
theorem compareBy_not_lt_iff {keys : List SortKey} {rows : List Row} {r s : Row}
    (h : ∀ k ∈ keys, k.Uniform rows) (hr : r ∈ rows) (hs : s ∈ rows) :
    (Row.compareBy keys s r == .lt) = false ↔ Row.Precedes keys r s ∨ Row.Ties keys r s := by
  rw [← Row.compareBy_eq_lt_iff h hr hs, ← Row.compareBy_eq_eq_iff h hr hs,
    (Row.transCmp_compareBy h).eq_swap (a := ⟨s, hs⟩) (b := ⟨r, hr⟩)]
  cases Row.compareBy keys r s <;> decide

/-- Sorting uniform rows moves them so that every earlier row precedes every later one or
ties with it, in the lexicographic order of the keys.  Rows that tie under every key keep
their order, and without keys all rows do. -/
theorem sortRows_ordered (keys : List SortKey) (rows : List Row)
    (h : ∀ k ∈ keys, k.Uniform rows) :
    (sortRows keys rows).Perm rows ∧
      ((sortRows keys rows).Pairwise fun r s => Row.Precedes keys r s ∨ Row.Ties keys r s) ∧
      (∀ tied : List Row, tied.Sublist rows → tied.Pairwise (Row.Ties keys) →
        tied.Sublist (sortRows keys rows)) ∧
      sortRows [] rows = rows := by
  have hmem : ∀ r, r ∈ sortRows keys rows → r ∈ rows :=
    fun r => (perm_sortRows keys rows).mem_iff.1
  refine ⟨perm_sortRows keys rows, ?_, ?_, sortRows_nil rows⟩
  · have hpairs := pairwise_stableSort (ordersOn_compareBy h)
    rw [← sortRows_eq_stableSort] at hpairs
    exact hpairs.imp_of_mem fun hr hs hle =>
      (compareBy_not_lt_iff h (hmem _ hr) (hmem _ hs)).1 hle
  · intro tied hsub htied
    rw [sortRows_eq_stableSort]
    refine sublist_stableSort hsub (htied.imp_of_mem fun hr hs hties => ?_)
    exact (compareBy_not_lt_iff h (hsub.subset hr) (hsub.subset hs)).2 (.inr hties)

/-- Books by author and, for one author, the youngest first: a missing year comes before
all years, a missing author after all authors, and two books that tie stay as they are. -/
theorem sortRows_ordered_books :
    let author (name : String) : List (String × List Row) :=
      [("author", [.mk [("name", .text name)] []])]
    let book (id : Int64) (year : Value) (relations : List (String × List Row)) : Row :=
      .mk [("id", .int id), ("year", year)] relations
    let rows : List Row := [book 1 (.int 1815) (author "Jane"), book 2 (.int 1900) [],
      book 3 .null (author "Emily"), book 4 (.int 1847) (author "Emily"),
      book 5 (.int 1815) (author "Jane"), book 6 (.int 1850) (author "Emily")]
    let keys : List SortKey := [⟨["author"], "name", .ascending⟩, ⟨[], "year", .descending⟩]
    (∀ k ∈ keys, k.Uniform rows) ∧
      sortRows keys rows = [book 3 .null (author "Emily"), book 6 (.int 1850) (author "Emily"),
        book 4 (.int 1847) (author "Emily"), book 1 (.int 1815) (author "Jane"),
        book 5 (.int 1815) (author "Jane"), book 2 (.int 1900) []] ∧
      (sortRows keys rows).Pairwise fun r s => Row.Precedes keys r s ∨ Row.Ties keys r s := by
  intro author book rows keys
  have huniform : ∀ k ∈ keys, k.Uniform rows := by
    intro k hk
    simp only [keys, List.mem_cons, List.not_mem_nil, or_false] at hk
    rcases hk with rfl | rfl
    · exact ⟨by decide +kernel, by decide +kernel⟩
    · exact ⟨by decide +kernel, by decide +kernel⟩
  exact ⟨huniform, by rfl, (sortRows_ordered keys rows huniform).2.1⟩

/-- Uniform rows have one stable order: every list of the rows in the order of the keys that
keeps tied rows behind each other is the one that sorting leaves. -/
theorem eq_sortRows {keys : List SortKey} {rows out : List Row}
    (h : ∀ k ∈ keys, k.Uniform rows) (hperm : out.Perm rows)
    (hordered : out.Pairwise fun r s => Row.Precedes keys r s ∨ Row.Ties keys r s)
    (hstable : ∀ tied : List Row, tied.Sublist rows → tied.Pairwise (Row.Ties keys) →
      tied.Sublist out) : out = sortRows keys rows := by
  rw [sortRows_eq_stableSort]
  refine (ordersOn_compareBy h).eq_stableSort hperm ?_ ?_
  · exact hordered.imp_of_mem fun hr hs hle =>
      (compareBy_not_lt_iff h (hperm.subset hr) (hperm.subset hs)).2 hle
  · intro tied hsub htied
    refine hstable tied hsub (htied.imp_of_mem fun hr hs hrs => ?_)
    have hr' := hsub.subset hr
    have hs' := hsub.subset hs
    rcases (compareBy_not_lt_iff h hr' hs').1 hrs.2 with hprecedes | hties
    · rw [← Row.compareBy_eq_lt_iff h hr' hs'] at hprecedes
      exact absurd hrs.1 (by simp [hprecedes])
    · exact hties

end EntityQuery
