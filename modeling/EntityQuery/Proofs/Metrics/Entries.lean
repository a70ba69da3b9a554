import EntityQuery.Proofs.Metrics.Tallies

/-!
# Entries by path

Entries stand in ascending order of their paths, so a path has one entry at most.  An event
changes the entry of the entity that it is about and no other one, and what events add to
the entry of an entity is again a tally.

Main results:

- Definition `Entries.Ordered`: the order of entries, which every event keeps.
- Theorem `Entries.lookup_updateEntry_self`: the entry that is changed.
- Theorem `Counters.entity?_recordAll_of_ne`: the entries that are not changed.
- Theorem `Counters.toNat_get_of_recordAll`: a counter of an entity is a tally, up to the
  largest count.
-/

namespace EntityQuery.Metrics

/-! ## Ordered entries -/

namespace Entries

variable {entries : Entries} {path p : String} {f : EntityTotals → EntityTotals}

/-- The entries stand in ascending order of their paths. -/
def Ordered (entries : Entries) : Prop :=
  entries.Pairwise fun a b => a.1 < b.1

instance : Decidable entries.Ordered := by
  unfold Ordered
  infer_instance

theorem lookup_cons (path p : String) (t : EntityTotals) (entries : Entries) :
    List.lookup path ((p, t) :: entries) = if path = p then some t else entries.lookup path := by
  rw [List.lookup_cons]
  by_cases h : path = p
  · rw [if_pos h, h, beq_self_eq_true]
  · rw [if_neg h, beq_eq_false_iff_ne.mpr h]

theorem lookup_eq_none_of_lt (h : ∀ x ∈ entries, path < x.1) : entries.lookup path = none := by
  induction entries with
  | nil => rfl
  | cons entry entries ih =>
      have hne : path ≠ entry.1 := by
        intro heq
        have := h entry List.mem_cons_self
        rw [heq] at this
        exact String.lt_irrefl _ this
      rw [lookup_cons, if_neg hne]
      exact ih fun x hx => h x (List.mem_cons_of_mem _ hx)

/-- A change of an entry brings in no path but that of the entry. -/
theorem path_of_mem_updateEntry {x : String × EntityTotals}
    (h : x ∈ updateEntry path f entries) : x.1 = path ∨ ∃ y ∈ entries, y.1 = x.1 := by
  induction entries with
  | nil =>
      rw [updateEntry, List.mem_singleton] at h
      exact .inl (congrArg Prod.fst h)
  | cons entry entries ih =>
      obtain ⟨p, t⟩ := entry
      rw [updateEntry] at h
      split at h
      · rcases List.mem_cons.mp h with rfl | hx
        · exact .inr ⟨(p, t), List.mem_cons_self, rfl⟩
        · exact .inr ⟨x, List.mem_cons_of_mem _ hx, rfl⟩
      · split at h
        · rcases List.mem_cons.mp h with rfl | hx
          · exact .inl rfl
          · exact .inr ⟨x, hx, rfl⟩
        · rcases List.mem_cons.mp h with rfl | hx
          · exact .inr ⟨(p, t), List.mem_cons_self, rfl⟩
          · rcases ih hx with hpath | ⟨y, hy, hyx⟩
            · exact .inl hpath
            · exact .inr ⟨y, List.mem_cons_of_mem _ hy, hyx⟩

/-- A change of an entry keeps the order. -/
theorem Ordered.updateEntry (h : entries.Ordered) (path : String)
    (f : EntityTotals → EntityTotals) : Ordered (updateEntry path f entries) := by
  induction entries with
  | nil => exact List.pairwise_singleton _ _
  | cons entry entries ih =>
      obtain ⟨p, t⟩ := entry
      obtain ⟨hfirst, hrest⟩ := List.pairwise_cons.mp h
      rw [Metrics.updateEntry]
      split
      · exact List.pairwise_cons.mpr ⟨hfirst, hrest⟩
      · next hne =>
        split
        · next hlt =>
            refine List.pairwise_cons.mpr ⟨?_, h⟩
            intro x hx
            rcases List.mem_cons.mp hx with rfl | hx
            · exact hlt
            · exact String.lt_trans hlt (hfirst x hx)
        · next hnot =>
            refine List.pairwise_cons.mpr ⟨?_, ih hrest⟩
            intro x hx
            rcases path_of_mem_updateEntry hx with hpath | ⟨y, hy, hyx⟩
            · rw [hpath]
              rcases Std.lt_trichotomy (a := p) (b := path) with hlt | heq | hgt
              · exact hlt
              · exact absurd heq hne
              · exact absurd hgt hnot
            · rw [← hyx]
              exact hfirst y hy

/-- The entry of a path after it is changed. -/
theorem lookup_updateEntry_self (h : entries.Ordered) :
    (updateEntry path f entries).lookup path = some (f ((entries.lookup path).getD {})) := by
  induction entries with
  | nil => simp [updateEntry]
  | cons entry entries ih =>
      obtain ⟨p, t⟩ := entry
      obtain ⟨hfirst, hrest⟩ := List.pairwise_cons.mp h
      rw [updateEntry]
      split
      · next heq =>
        rw [lookup_cons, lookup_cons, if_pos heq.symm, if_pos heq.symm, Option.getD_some]
      · next hne =>
        split
        · next hlt =>
            have hnone : List.lookup path ((p, t) :: entries) = none := by
              apply lookup_eq_none_of_lt
              intro x hx
              rcases List.mem_cons.mp hx with rfl | hx
              · exact hlt
              · exact String.lt_trans hlt (hfirst x hx)
            rw [lookup_cons, if_pos rfl, hnone, Option.getD_none]
        · rw [lookup_cons, lookup_cons, if_neg (Ne.symm hne), if_neg (Ne.symm hne), ih hrest]

/-- The entries of other paths stay as they are. -/
theorem lookup_updateEntry_of_ne (h : p ≠ path) :
    (updateEntry path f entries).lookup p = entries.lookup p := by
  induction entries with
  | nil => rw [updateEntry, lookup_cons, if_neg h]
  | cons entry entries ih =>
      obtain ⟨p', t⟩ := entry
      rw [updateEntry]
      split
      · next heq => rw [lookup_cons, lookup_cons, heq, if_neg h, if_neg h]
      · split
        · rw [lookup_cons, if_neg h]
        · rw [lookup_cons, lookup_cons, ih]

end Entries

/-! ## Counters of one entity -/

namespace Counters

variable {c : Counters} {e : Event} {es : List Event} {path p : String}

/-- The counters of an entity; without an entry they are zero. -/
def ofEntity (c : Counters) (path : String) : EntityTotals :=
  (c.entity? path).getD {}

/-- Every event keeps the order of the entries. -/
theorem ordered_record (h : c.entities.Ordered) (e : Event) :
    (c.record e).entities.Ordered := by
  rw [record]
  cases e.path? with
  | none => exact h
  | some path => exact h.updateEntry path _

theorem ordered_recordAll (h : c.entities.Ordered) (es : List Event) :
    (c.recordAll es).entities.Ordered := by
  induction es generalizing c with
  | nil => exact h
  | cons e es ih => exact ih (ordered_record h e)

/-- An event leaves the entries of the entities that it is not about. -/
theorem entity?_record_of_ne (h : e.path? ≠ some p) : (c.record e).entity? p = c.entity? p := by
  rw [entity?, record]
  cases he : e.path? with
  | none => rfl
  | some path =>
      have hne : p ≠ path := by
        rintro rfl
        exact h he
      exact Entries.lookup_updateEntry_of_ne hne

/-- An event is recorded in the entry of the entity that it is about. -/
theorem ofEntity_record (h : c.entities.Ordered) (he : e.path? = some path) :
    (c.record e).ofEntity path = (c.ofEntity path).record e := by
  rw [ofEntity, ofEntity, entity?, entity?, record, he]
  dsimp only
  rw [Entries.lookup_updateEntry_self h, Option.getD_some]

/-- Events about an entity leave the entries of all others. -/
theorem entity?_recordAll_of_ne (hpaths : ∀ e ∈ es, e.path? = none ∨ e.path? = some path)
    (hp : p ≠ path) : (c.recordAll es).entity? p = c.entity? p := by
  induction es generalizing c with
  | nil => rfl
  | cons e es ih =>
      have hne : e.path? ≠ some p := by
        rcases hpaths e List.mem_cons_self with he | he
        · simp [he]
        · simp [he, hp.symm]
      exact (ih fun e' he' => hpaths e' (List.mem_cons_of_mem _ he')).trans
        (entity?_record_of_ne hne)

/-- A counter of an entity is a tally of the events about it, up to the largest count. -/
theorem toNat_get_of_recordAll (h : c.entities.Ordered)
    (hpaths : ∀ e ∈ es, e.path? = none ∨ e.path? = some path) {counter : Counter}
    (hcounter : counter.ofEntities = true) :
    (((c.recordAll es).ofEntity path).get counter).toNat =
      min (((c.ofEntity path).get counter).toNat + tally es counter) 0xFFFFFFFFFFFFFFFF := by
  induction es generalizing c with
  | nil =>
      have := ((c.ofEntity path).get counter).toNat_lt
      rw [tally_nil, recordAll, List.foldl_nil]
      omega
  | cons e es ih =>
      have hget : (((c.record e).ofEntity path).get counter) =
          add ((c.ofEntity path).get counter) (e.adds counter) := by
        rcases hpaths e List.mem_cons_self with he | he
        · rw [Event.adds_of_path?_eq_none he hcounter, add_zero, ofEntity,
            entity?_record_of_ne (by simp [he]), ← ofEntity]
        · rw [ofEntity_record h he, EntityTotals.get_record _ _ hcounter]
      rw [recordAll, List.foldl_cons, ← recordAll, ih (ordered_record h e)
        fun e' he' => hpaths e' (List.mem_cons_of_mem _ he'), hget, toNat_add, tally_cons]
      omega

end Counters

end EntityQuery.Metrics
