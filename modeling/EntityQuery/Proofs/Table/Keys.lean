import EntityQuery.Table
import Mathlib.Data.List.Nodup

/-!
# Rows by key

What saving and deleting do to the keys of a table, to their order, and to the row that is
found under a key.

Main results:

- Theorems `keys_save` and `find?_save`: a row takes the place of its key, or the end.
- Theorems `keys_delete` and `find?_delete`: deleting takes one key out.
- Theorem `rows_eq_filterMap`: with distinct keys the rows are those found under the keys.
-/

namespace EntityQuery

namespace Table

variable {K : Type} [DecidableEq K] {t : Table K} {r : Row} {key : K}

@[simp] theorem keyOf_save (t : Table K) (r : Row) : (t.save r).keyOf = t.keyOf := rfl

@[simp] theorem keyOf_delete (t : Table K) (key : K) : (t.delete key).keyOf = t.keyOf := rfl

/-! ## Finding -/

/-- A row is found under the keys that there are. -/
theorem mem_keys_iff : key ∈ t.keys ↔ ∃ row, t.find? key = some row := by
  rw [← Option.isSome_iff_exists, find?, List.find?_isSome]
  simp [keys]

/-- The row that is found under a key is a row with this key. -/
theorem keyOf_of_find? {row : Row} (h : t.find? key = some row) :
    row ∈ t.rows ∧ t.keyOf row = key :=
  ⟨List.mem_of_find?_eq_some h, by simpa using List.find?_some h⟩

/-- With distinct keys every row is found under its key. -/
theorem find?_keyOf (h : t.keys.Nodup) (hr : r ∈ t.rows) : t.find? (t.keyOf r) = some r := by
  obtain ⟨row, hrow⟩ := mem_keys_iff.mp (List.mem_map_of_mem hr)
  obtain ⟨hmem, hkey⟩ := keyOf_of_find? hrow
  rw [hrow, List.inj_on_of_nodup_map h hmem hr hkey]

/-- With distinct keys the rows are those found under the keys. -/
theorem rows_eq_filterMap (h : t.keys.Nodup) : t.rows = t.keys.filterMap t.find? := by
  have hself : t.rows.filterMap (t.find? ∘ t.keyOf) = t.rows.filterMap some := by
    apply List.filterMap_congr
    intro row hrow
    exact find?_keyOf h hrow
  rw [keys, List.filterMap_map, hself, List.filterMap_some]

/-! ## Saving -/

/-- A row takes the place of its key, or a new one at the end. -/
theorem map_put (keyOf : Row → K) (r : Row) (rows : List Row) :
    (put keyOf r rows).map keyOf =
      if keyOf r ∈ rows.map keyOf then rows.map keyOf else rows.map keyOf ++ [keyOf r] := by
  induction rows with
  | nil => simp [put]
  | cons s rows ih =>
      rw [put]
      by_cases hs : keyOf s = keyOf r
      · simp [hs]
      · rw [if_neg hs, List.map_cons, ih]
        by_cases hmem : keyOf r ∈ rows.map keyOf
        · simp [hmem]
        · simp [hmem, Ne.symm hs]

/-- The row is found under its key, and under other keys what was there. -/
theorem find?_put (keyOf : Row → K) (r : Row) (rows : List Row) (key : K) :
    (put keyOf r rows).find? (fun row => keyOf row == key) =
      if key = keyOf r then some r else rows.find? fun row => keyOf row == key := by
  induction rows with
  | nil =>
      by_cases h : keyOf r = key
      · simp [put, h]
      · simp [put, h, Ne.symm h]
  | cons s rows ih =>
      rw [put]
      by_cases hs : keyOf s = keyOf r
      · rw [if_pos hs]
        by_cases h : keyOf r = key
        · simp [h]
        · simp [h, hs, Ne.symm h]
      · rw [if_neg hs]
        by_cases h : keyOf s = key
        · have hne : key ≠ keyOf r := fun hkey => hs (h.trans hkey)
          simp [h, hne]
        · simp [h, ih]

/-- Saving keeps the place of a key that is there and adds another one at the end. -/
theorem keys_save (t : Table K) (r : Row) :
    (t.save r).keys = if t.keyOf r ∈ t.keys then t.keys else t.keys ++ [t.keyOf r] :=
  map_put t.keyOf r t.rows

/-- The saved row is found under its key, and under other keys what was there. -/
theorem find?_save (t : Table K) (r : Row) (key : K) :
    (t.save r).find? key = if key = t.keyOf r then some r else t.find? key :=
  find?_put t.keyOf r t.rows key

/-- Saving keeps keys distinct. -/
theorem nodup_keys_save (h : t.keys.Nodup) (r : Row) : (t.save r).keys.Nodup := by
  rw [keys_save]
  split
  · exact h
  · next hmem =>
      rw [List.nodup_append]
      refine ⟨h, List.nodup_singleton _, ?_⟩
      intro key hkey other hother
      rw [List.mem_singleton.mp hother]
      exact ne_of_mem_of_not_mem hkey hmem

/-! ## Deleting -/

/-- Deleting takes the first place of a key out. -/
theorem keys_delete (t : Table K) (key : K) : (t.delete key).keys = t.keys.erase key := by
  have hsame : (fun other => key == other) ∘ t.keyOf = fun r => t.keyOf r == key := by
    funext r
    exact BEq.comm
  rw [keys, keys, List.erase_eq_eraseP, List.eraseP_map, hsame]
  rfl

/-- Deleting keeps keys distinct. -/
theorem nodup_keys_delete (h : t.keys.Nodup) (key : K) : (t.delete key).keys.Nodup := by
  rw [keys_delete]
  exact h.erase key

/-- Deleting a key that is not there changes nothing. -/
theorem delete_of_not_mem (h : key ∉ t.keys) : t.delete key = t := by
  have hrows : t.rows.eraseP (fun r => t.keyOf r == key) = t.rows := by
    apply List.eraseP_of_forall_not
    intro r hr hkey
    rw [beq_iff_eq] at hkey
    exact h (hkey ▸ List.mem_map_of_mem hr)
  rw [delete, hrows]

/-- With distinct keys, deleting leaves the rows of other keys. -/
theorem rows_delete (h : t.keys.Nodup) (key : K) :
    (t.delete key).rows = t.rows.filter fun row => t.keyOf row != key := by
  have hdelete : ∀ rows : List Row, (rows.map t.keyOf).Nodup →
      rows.eraseP (fun row => t.keyOf row == key) = rows.filter fun row => t.keyOf row != key := by
    intro rows hrows
    induction rows with
    | nil => rfl
    | cons s rows ih =>
        rw [List.map_cons, List.nodup_cons] at hrows
        by_cases hs : t.keyOf s = key
        · have hothers : rows.filter (fun row => t.keyOf row != key) = rows := by
            rw [List.filter_eq_self]
            intro row hrow
            have hne : t.keyOf row ≠ key := by
              rintro rfl
              exact hrows.1 (hs ▸ List.mem_map_of_mem hrow)
            simpa using hne
          simp [hs, hothers]
        · simp [hs, ih hrows.2]
  exact hdelete t.rows h

/-- With distinct keys nothing is found under a deleted key, and under other keys what was
there. -/
theorem find?_delete (h : t.keys.Nodup) (deleted key : K) :
    (t.delete deleted).find? key = if key = deleted then none else t.find? key := by
  rw [find?, rows_delete h, List.find?_filter, keyOf_delete]
  by_cases hkey : key = deleted
  · rw [if_pos hkey, List.find?_eq_none]
    intro row hrow
    simp [hkey]
  · have hsame : (fun row => decide ((t.keyOf row != deleted) = true ∧
        (t.keyOf row == key) = true)) = fun row => t.keyOf row == key := by
      funext row
      by_cases hrow : t.keyOf row = key <;> simp [hrow, hkey]
    rw [if_neg hkey, hsame, find?]

/-- Deleting takes out one row if the key is there. -/
theorem size_delete_add (t : Table K) (key : K) :
    (t.delete key).size + (if t.contains key then 1 else 0) = t.size := by
  have hany : t.contains key = t.rows.any fun r => t.keyOf r == key := by
    rw [contains, find?, Bool.eq_iff_iff, List.find?_isSome, List.any_eq_true]
  rw [size, delete, List.length_eraseP, hany, size]
  split
  · next h =>
      obtain ⟨row, hrow, -⟩ := List.any_eq_true.mp h
      have := List.length_pos_of_mem hrow
      omega
  · rfl

end Table

end EntityQuery
