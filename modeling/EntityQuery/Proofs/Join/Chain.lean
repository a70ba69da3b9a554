import EntityQuery.Proofs.Join.Assignment

/-!
# Joins along a path

A path of relations opens a chain of joins behind the joins that are there: the first
one starts at a source, and every other one at the join before it.  Whatever else an
assignment chooses, the row that it gives the end of a chain is one that the path
reaches, and every row that the path reaches can be chosen there.

Main results:

- Definition `Reaches`: the rows that a path of relations reaches.
- Theorem `Assignment.reaches_chain`: an assignment ends a chain in a row it reaches.
- Theorem `Assignment.exists_append_chain`: every row reached is the end of some
  assignment.
-/

namespace EntityQuery

variable {E : Type}

/-! ## Rows that a path reaches -/

/-- The rows at the end of hops along relations.  Every hop brings in what a left-outer
join does. -/
inductive Reaches : Option Row → List String → Option Row → Prop
  | here (row : Option Row) : Reaches row [] row
  | hop {row next last : Option Row} {name : String} {names : List String}
      (h : LeftOuter name row next) (hrest : Reaches next names last) :
      Reaches row (name :: names) last

/-- A path always reaches something. -/
theorem exists_reaches (row : Option Row) (names : List String) :
    ∃ last, Reaches row names last := by
  induction names generalizing row with
  | nil => exact ⟨row, .here row⟩
  | cons name names ih =>
      obtain ⟨next, hnext⟩ := exists_leftOuter name row
      obtain ⟨last, hlast⟩ := ih next
      exact ⟨last, .hop hnext hlast⟩

/-! ## Chains of joins -/

/-- The joins of a path of relations from a source on, numbered from a place on. -/
def chain : Nat → Source → List (Relation E) → List (Join E)
  | _, _, [] => []
  | id, source, r :: rs => ⟨id, source, r⟩ :: chain (id + 1) (.join id) rs

/-- The source of the rows at the end of a path. -/
def chainEnd : Nat → Source → List (Relation E) → Source
  | _, source, [] => source
  | id, _, _ :: rs => chainEnd (id + 1) (.join id) rs

@[simp] theorem length_chain (id : Nat) (source : Source) (rs : List (Relation E)) :
    (chain id source rs).length = rs.length := by
  induction rs generalizing id source with
  | nil => rfl
  | cons r rs ih => simp [chain, ih]

/-- The end of a path comes before the joins that are opened behind it. -/
theorem chainEnd_isBefore (id : Nat) (source : Source) (rs : List (Relation E))
    (h : source.IsBefore id) : (chainEnd id source rs).IsBefore (id + rs.length) := by
  induction rs generalizing id source with
  | nil => exact h
  | cons r rs ih =>
      have hend : (chainEnd (id + 1) (.join id) rs).IsBefore (id + 1 + rs.length) :=
        ih (id + 1) (.join id) (Nat.lt_succ_self id)
      rw [List.length_cons, Nat.add_comm rs.length 1, ← Nat.add_assoc]
      exact hend

theorem Source.IsBefore.mono {source : Source} {m n : Nat} (h : source.IsBefore m)
    (hmn : m ≤ n) : source.IsBefore n := by
  cases source with
  | root => trivial
  | join id => exact Nat.lt_of_lt_of_le h hmn

/-- A join behind well-formed ones keeps them well-formed. -/
theorem WellFormedJoins.append_join {joins : List (Join E)} (hj : WellFormedJoins joins)
    (join : Join E) (hid : join.id = joins.length) (hparent : join.parent.IsBefore joins.length) :
    WellFormedJoins (joins ++ [join]) := by
  intro i hi
  by_cases hlt : i < joins.length
  · rw [List.getElem_append_left hlt]
    exact hj i hlt
  · have hlast : i = joins.length := by
      rw [List.length_append, List.length_singleton] at hi
      omega
    subst hlast
    rw [List.getElem_concat_length rfl]
    exact ⟨hid, hparent⟩

/-- A chain behind well-formed joins keeps them well-formed. -/
theorem WellFormedJoins.append_chain {joins : List (Join E)} (hj : WellFormedJoins joins)
    (source : Source) (hs : source.IsBefore joins.length) (rs : List (Relation E)) :
    WellFormedJoins (joins ++ chain joins.length source rs) := by
  induction rs generalizing joins source with
  | nil =>
      rw [chain, List.append_nil]
      exact hj
  | cons r rs ih =>
      have hlen : (joins ++ [(⟨joins.length, source, r⟩ : Join E)]).length = joins.length + 1 :=
        List.length_append
      have hnext := ih (hj.append_join ⟨joins.length, source, r⟩ rfl hs)
        (.join joins.length) (by rw [hlen]; exact Nat.lt_succ_self _)
      rw [hlen, List.append_assoc] at hnext
      exact hnext

/-! ## Assignments of chains -/

/-- The choice with one more slot. -/
def Choice.push (c : Choice) (slot : Slot) : Choice :=
  { c with slots := c.slots ++ [slot] }

/-- One more slot leaves the rows of the joins before it. -/
theorem Choice.row?_push {c : Choice} {source : Source} (h : source.IsBefore c.slots.length)
    (slot : Slot) : (c.push slot).row? source = c.row? source := by
  cases source with
  | root => rfl
  | join id =>
      have hlt : id < c.slots.length := h
      simp [row?, push, List.getElem?_append_left hlt]

/-- The row of a join that has brought something in. -/
theorem Choice.row?_join {c : Choice} {id : Nat} {next : Option Row}
    (h : c.slots[id]? = some (.ofRow? next)) : c.row? (.join id) = next := by
  cases next <;> simp [row?, h, Slot.ofRow?]

namespace Assignment

variable {joins : List (Join E)} {root : Row} {c : Choice}

/-- One more join brings in what it can for the row of its parent. -/
theorem push (hj : WellFormedJoins joins) (hc : Assignment joins root c) (join : Join E)
    (hparent : join.parent.IsBefore joins.length) {next : Option Row}
    (hnext : LeftOuter join.relation.name (c.row? join.parent) next) :
    Assignment (joins ++ [join]) root (c.push (.ofRow? next)) := by
  refine ⟨hc.root_eq, by simp [Choice.push, hc.length_eq], ?_⟩
  intro id join' hjoin'
  by_cases hlt : id < joins.length
  · rw [List.getElem?_append_left hlt] at hjoin'
    obtain ⟨next', hslot, houter⟩ := hc.chosen id join' hjoin'
    have hbefore : join'.parent.IsBefore c.slots.length := by
      rw [hc.length_eq]
      cases hp : join'.parent with
      | root => trivial
      | join k => exact Nat.lt_trans (hj.parent_lt hjoin' hp) hlt
    refine ⟨next', ?_, ?_⟩
    · rw [Choice.push, List.getElem?_append_left (by rw [hc.length_eq]; exact hlt)]
      exact hslot
    · rw [Choice.row?_push hbefore]
      exact houter
  · have hlast : id = joins.length := by
      have hid := (List.getElem?_eq_some_iff.mp hjoin').1
      rw [List.length_append, List.length_singleton] at hid
      omega
    subst hlast
    rw [List.getElem?_concat_length, Option.some.injEq] at hjoin'
    subst hjoin'
    refine ⟨next, by rw [Choice.push, ← hc.length_eq, List.getElem?_concat_length], ?_⟩
    rw [Choice.row?_push (by rw [hc.length_eq]; exact hparent)]
    exact hnext

/-- Every row that a path reaches ends an assignment of its joins which agrees with the
assignment of the joins before. -/
theorem exists_append_chain (hj : WellFormedJoins joins) (hc : Assignment joins root c)
    (source : Source) (hs : source.IsBefore joins.length) {rs : List (Relation E)}
    {last : Option Row} (hlast : Reaches (c.row? source) (rs.map (·.name)) last) :
    ∃ d, Assignment (joins ++ chain joins.length source rs) root d ∧
      d.row? (chainEnd joins.length source rs) = last ∧
      ∀ s : Source, s.IsBefore joins.length → d.row? s = c.row? s := by
  induction rs generalizing joins c source with
  | nil =>
      rw [chain, List.append_nil]
      cases hlast
      exact ⟨c, hc, rfl, fun _ _ => rfl⟩
  | cons r rs ih =>
      cases hlast with
      | hop hnext hrest =>
          rename_i next
          have hpush := hc.push hj ⟨joins.length, source, r⟩ hs hnext
          have hrow : (c.push (.ofRow? next)).row? (.join joins.length) = next := by
            apply Choice.row?_join
            rw [Choice.push, ← hc.length_eq, List.getElem?_concat_length]
          have hlen : (joins ++ [(⟨joins.length, source, r⟩ : Join E)]).length =
              joins.length + 1 := List.length_append
          obtain ⟨d, hd, hend, hagree⟩ := ih
            (hj.append_join ⟨joins.length, source, r⟩ rfl hs) hpush
            (.join joins.length) (by rw [hlen]; exact Nat.lt_succ_self _)
            (by rw [hrow]; exact hrest)
          rw [hlen] at hd hend hagree
          rw [List.append_assoc] at hd
          refine ⟨d, hd, hend, ?_⟩
          intro s hbefore
          rw [hagree s (hbefore.mono (Nat.le_succ _))]
          exact Choice.row?_push (by rw [hc.length_eq]; exact hbefore) _

/-- The row at the end of a chain is one that the path reaches. -/
theorem reaches_chain (hc : Assignment joins root c) (id : Nat) (source : Source)
    {rs : List (Relation E)}
    (h : ∀ join ∈ chain id source rs, joins[join.id]? = some join) :
    Reaches (c.row? source) (rs.map (·.name)) (c.row? (chainEnd id source rs)) := by
  induction rs generalizing id source with
  | nil => exact .here _
  | cons r rs ih =>
      obtain ⟨next, hslot, houter⟩ := hc.chosen id ⟨id, source, r⟩ (h _ List.mem_cons_self)
      have hrest := ih (id + 1) (.join id)
        fun join hjoin => h join (List.mem_cons_of_mem _ hjoin)
      rw [Choice.row?_join hslot] at hrest
      exact .hop houter hrest

end Assignment

/-- A well-formed join stands at its number. -/
theorem WellFormedJoins.getElem?_id {joins : List (Join E)} (hj : WellFormedJoins joins)
    {join : Join E} (h : join ∈ joins) : joins[join.id]? = some join := by
  obtain ⟨i, hi, rfl⟩ := List.mem_iff_getElem.mp h
  rw [(hj i hi).1]
  exact List.getElem?_eq_getElem hi

end EntityQuery
