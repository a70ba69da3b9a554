import EntityQuery.Paging.Sorting
import EntityQuery.Proofs.Join.Chain

/-!
# Paths along single rows

Where no relation on a path holds more than one row, a left-outer join has no choice: the
path reaches one row, or none if a row on the way is missing.

Main results:

- Definition `Row.SingleAlong`: the rows from which a path meets no second related row.
- Theorem `reaches_iff_of_singleAlong`: the one row that such a path reaches.
-/

namespace EntityQuery

/-- No relation on the way along hops holds more than one row. -/
def Row.SingleAlong : Row → List String → Prop
  | _, [] => True
  | r, hop :: hops =>
    (r.related hop).length ≤ 1 ∧ ∀ next ∈ r.related hop, next.SingleAlong hops

instance Row.decidableSingleAlong : (r : Row) → (hops : List String) →
    Decidable (r.SingleAlong hops)
  | _, [] => .isTrue trivial
  | r, hop :: hops =>
    have (next : Row) : Decidable (next.SingleAlong hops) := decidableSingleAlong next hops
    inferInstanceAs (Decidable ((r.related hop).length ≤ 1 ∧
      ∀ next ∈ r.related hop, next.SingleAlong hops))

/-- A left-outer join along a relation to one row brings in that row, if it is there. -/
theorem leftOuter_iff_of_length_le_one {relation : String} {row : Row} {next : Option Row}
    (h : (row.related relation).length ≤ 1) :
    LeftOuter relation (some row) next ↔ next = (row.related relation).head? := by
  constructor
  · intro houter
    cases houter with
    | related hmem =>
        match hrelated : row.related relation, h with
        | [], _ => simp [hrelated] at hmem
        | [only], _ =>
            rw [hrelated, List.mem_singleton] at hmem
            rw [hmem]
            rfl
    | unrelated hnone => rw [hnone, List.head?_nil]
  · rintro rfl
    cases hrelated : row.related relation with
    | nil => exact .unrelated hrelated
    | cons only rest => exact .related (by rw [hrelated]; exact List.mem_cons_self)

/-- A path goes on from what its first hop brings in. -/
theorem reaches_cons_iff {row last : Option Row} {hop : String} {hops : List String} :
    Reaches row (hop :: hops) last ↔ ∃ next, LeftOuter hop row next ∧ Reaches next hops last := by
  constructor
  · intro h
    cases h with
    | hop hnext hrest => exact ⟨_, hnext, hrest⟩
  · rintro ⟨next, hnext, hrest⟩
    exact .hop hnext hrest

/-- A path without hops stays where it is. -/
theorem reaches_nil_iff {row last : Option Row} : Reaches row [] last ↔ last = row := by
  constructor
  · intro h
    cases h
    rfl
  · rintro rfl
    exact .here _

/-- Without a row a path reaches no row. -/
theorem reaches_none_iff {hops : List String} {last : Option Row} :
    Reaches none hops last ↔ last = none := by
  induction hops with
  | nil => exact reaches_nil_iff
  | cons hop hops ih =>
      rw [reaches_cons_iff, ← ih]
      constructor
      · rintro ⟨next, hnext, hrest⟩
        cases hnext
        exact hrest
      · exact fun hrest => ⟨none, .missing, hrest⟩

/-- A path along single rows reaches what following the first related row each time
leads to. -/
theorem reaches_iff_of_singleAlong {row : Row} {hops : List String} {last : Option Row}
    (h : row.SingleAlong hops) : Reaches (some row) hops last ↔ last = row.follow? hops := by
  induction hops generalizing row with
  | nil => exact reaches_nil_iff
  | cons hop hops ih =>
      obtain ⟨hlength, hnexts⟩ := h
      rw [reaches_cons_iff, Row.follow?]
      simp only [leftOuter_iff_of_length_le_one hlength, exists_eq_left]
      cases hrelated : row.related hop with
      | nil => exact reaches_none_iff
      | cons next rest =>
          exact ih (hnexts next (by rw [hrelated]; exact List.mem_cons_self))

end EntityQuery
