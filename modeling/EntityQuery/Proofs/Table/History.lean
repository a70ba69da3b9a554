import EntityQuery.Proofs.Table.Keys
import EntityQuery.Service.Session
import Mathlib.Data.List.Induction

/-!
# What a table remembers

Rows are saved, one or many at a time, and keys are deleted.  Whatever the sequence of
such calls, the table holds the row last saved under each key that has not been deleted
since, in the order in which the keys were entered: a key keeps its place while it is
saved again and gets a new place when it is saved after a deletion.

Main results:

- Definition `LastSaved`: the row that a history leaves under a key.
- Definition `EnteredAt`: the place in a history where a key was entered.
- Theorem `Recounts.act`: a change of a key is one more act of the history.
- Theorem `Session.keeps_history`: what the calls of a session leave in a table.
-/

namespace EntityQuery

namespace Table

variable {K : Type}

/-! ## Changes -/

/-- A change of one key. -/
inductive Act (K : Type) where
  | save (row : Row)
  | delete (key : K)

/-- The key that is changed. -/
def Act.key (keyOf : Row → K) : Act K → K
  | save row => keyOf row
  | delete key => key

/-- A call that changes a table. -/
inductive Change (K : Type) where
  | save (row : Row)
  | saveAll (rows : List Row)
  | delete (key : K)

/-- The changes of single keys that a call makes, in order. -/
def Change.acts : Change K → List (Act K)
  | save row => [.save row]
  | saveAll rows => rows.map .save
  | delete key => [.delete key]

section Changes

variable [DecidableEq K]

/-- Change one key of a table. -/
def act (t : Table K) : Act K → Table K
  | .save row => t.save row
  | .delete key => t.delete key

/-- Changes of rows leave what their keys are. -/
theorem keyOf_foldl_act (t : Table K) (acts : List (Act K)) :
    (acts.foldl act t).keyOf = t.keyOf := by
  induction acts generalizing t with
  | nil => rfl
  | cons a acts ih =>
      rw [List.foldl_cons, ih]
      cases a <;> rfl

/-- Change a table by a call. -/
def change (t : Table K) : Change K → Table K
  | .save row => t.save row
  | .saveAll rows => t.saveAll rows
  | .delete key => t.delete key

/-- Saving rows is saving each of them. -/
theorem saveAll_eq_foldl_act (t : Table K) (rows : List Row) :
    t.saveAll rows = (rows.map Act.save).foldl act t := by
  rw [saveAll, List.foldl_map]
  rfl

/-- A call changes a table as its acts do. -/
theorem change_eq_foldl_act (t : Table K) (c : Change K) : t.change c = c.acts.foldl act t := by
  cases c with
  | saveAll rows => exact t.saveAll_eq_foldl_act rows
  | _ => rfl

/-- Calls change a table as the acts of all of them do. -/
theorem foldl_change_eq (t : Table K) (changes : List (Change K)) :
    changes.foldl change t = (changes.flatMap Change.acts).foldl act t := by
  induction changes generalizing t with
  | nil => rfl
  | cons c changes ih =>
      rw [List.foldl_cons, ih, change_eq_foldl_act, List.flatMap_cons, List.foldl_append]

end Changes

/-! ## Histories -/

/-- The row is the last one saved under the key, and the key has not been deleted since. -/
def LastSaved (keyOf : Row → K) (acts : List (Act K)) (key : K) (row : Row) : Prop :=
  ∃ before after, acts = before ++ .save row :: after ∧ keyOf row = key ∧
    ∀ a ∈ after, a.key keyOf ≠ key

/-- The key is saved at this place, for the first time since its last deletion. -/
def EnteredAt (keyOf : Row → K) (acts : List (Act K)) (key : K) (place : Nat) : Prop :=
  ∃ before row after, acts = before ++ .save row :: after ∧ before.length = place ∧
    keyOf row = key ∧ .delete key ∉ after ∧
    ∀ us s vs, before = us ++ .save s :: vs → keyOf s = key → .delete key ∈ vs

/-- One key was entered before another. -/
def EnteredBefore (keyOf : Row → K) (acts : List (Act K)) (key other : K) : Prop :=
  ∃ place place', EnteredAt keyOf acts key place ∧ EnteredAt keyOf acts other place' ∧
    place < place'

variable {keyOf : Row → K} {acts : List (Act K)} {key : K} {row : Row} {a : Act K}

/-- The last act decides about its key and leaves what the others say about other keys. -/
theorem lastSaved_concat_iff : LastSaved keyOf (acts ++ [a]) key row ↔
    (a.key keyOf = key ∧ a = .save row) ∨ (a.key keyOf ≠ key ∧ LastSaved keyOf acts key row) := by
  constructor
  · rintro ⟨before, after, hacts, hrow, hafter⟩
    rcases after.eq_nil_or_concat with rfl | ⟨after, a', rfl⟩
    · obtain ⟨-, ha⟩ := List.append_inj' hacts rfl
      rw [List.cons.injEq] at ha
      rw [ha.1]
      exact Or.inl ⟨hrow, rfl⟩
    · have hassoc : before ++ Act.save row :: after.concat a' =
          (before ++ .save row :: after) ++ [a'] := by
        simp
      rw [hassoc] at hacts
      obtain ⟨hinit, ha⟩ := List.append_inj' hacts rfl
      rw [List.cons.injEq] at ha
      rw [ha.1]
      refine Or.inr ⟨hafter a' (by simp), before, after, hinit, hrow, ?_⟩
      intro b hb
      exact hafter b (by simp [hb])
  · rintro (⟨hkey, rfl⟩ | ⟨hkey, before, after, rfl, hrow, hafter⟩)
    · exact ⟨acts, [], rfl, hkey, fun b hb => nomatch hb⟩
    · refine ⟨before, after ++ [a], by simp, hrow, ?_⟩
      intro b hb
      rcases List.mem_append.mp hb with hb | hb
      · exact hafter b hb
      · rw [List.mem_singleton.mp hb]
        exact hkey

/-- A key that is saved and not deleted afterwards is left with a row. -/
theorem exists_lastSaved {s : Row} {us vs : List (Act K)} (hs : keyOf s = key)
    (hvs : .delete key ∉ vs) : ∃ row, LastSaved keyOf (us ++ .save s :: vs) key row := by
  induction vs using List.reverseRecOn with
  | nil => exact ⟨s, us, [], rfl, hs, fun a ha => nomatch ha⟩
  | append_singleton vs a ih =>
      have hassoc : us ++ Act.save s :: (vs ++ [a]) = (us ++ .save s :: vs) ++ [a] := by
        simp
      rw [List.mem_append, not_or, List.mem_singleton] at hvs
      rw [hassoc]
      simp only [lastSaved_concat_iff]
      by_cases ha : a.key keyOf = key
      · cases a with
        | save row => exact ⟨row, Or.inl ⟨ha, rfl⟩⟩
        | delete deleted => exact absurd (congrArg Act.delete ha.symm) hvs.2
      · obtain ⟨row, hrow⟩ := ih hvs.1
        exact ⟨row, Or.inr ⟨ha, hrow⟩⟩

namespace EnteredAt

variable {place : Nat}

theorem lt_length (h : EnteredAt keyOf acts key place) : place < acts.length := by
  obtain ⟨before, row, after, rfl, rfl, -⟩ := h
  simp

/-- A key that was entered and not deleted since is left with a row. -/
theorem exists_lastSaved (h : EnteredAt keyOf acts key place) :
    ∃ row, LastSaved keyOf acts key row := by
  obtain ⟨before, row, after, rfl, -, hrow, hafter, -⟩ := h
  exact Table.exists_lastSaved hrow hafter

/-- A key keeps its place until it is deleted. -/
theorem concat (h : EnteredAt keyOf acts key place) (ha : a ≠ .delete key) :
    EnteredAt keyOf (acts ++ [a]) key place := by
  obtain ⟨before, row, after, rfl, hplace, hrow, hafter, hbefore⟩ := h
  refine ⟨before, row, after ++ [a], by simp, hplace, hrow, ?_, hbefore⟩
  rw [List.mem_append, not_or, List.mem_singleton]
  exact ⟨hafter, ha.symm⟩

/-- A key that is saved again keeps its place. -/
theorem concat_save (h : EnteredAt keyOf acts key place) (r : Row) :
    EnteredAt keyOf (acts ++ [.save r]) key place :=
  h.concat fun hact => nomatch hact

/-- The deletion of another key leaves a key its place. -/
theorem concat_delete (h : EnteredAt keyOf acts key place) {deleted : K}
    (hkey : key ≠ deleted) : EnteredAt keyOf (acts ++ [.delete deleted]) key place := by
  apply h.concat
  intro hact
  cases hact
  exact hkey rfl

/-- A key without a row is entered where it is saved next. -/
theorem of_save (h : ¬ ∃ s, LastSaved keyOf acts (keyOf row) s) :
    EnteredAt keyOf (acts ++ [.save row]) (keyOf row) acts.length := by
  refine ⟨acts, row, [], rfl, rfl, rfl, List.not_mem_nil, ?_⟩
  intro us s vs hacts hs
  apply Classical.byContradiction
  intro hvs
  rw [hacts] at h
  exact h (Table.exists_lastSaved hs hvs)

/-- Between two places of a key there would be a deletion behind the first one. -/
theorem not_lt {place' : Nat} (h : EnteredAt keyOf acts key place)
    (h' : EnteredAt keyOf acts key place') : ¬ place < place' := by
  intro hlt
  obtain ⟨before, row, after, hacts, rfl, hrow, hafter, -⟩ := h
  obtain ⟨before', row', after', hacts', rfl, -, -, hbefore'⟩ := h'
  rw [hacts] at hacts'
  rcases List.append_eq_append_iff.mp hacts' with ⟨mid, hmid, hrest⟩ | ⟨mid, hmid, -⟩
  · cases mid with
    | nil => simp [hmid] at hlt
    | cons m mid =>
        rw [List.cons_append, List.cons.injEq] at hrest
        obtain ⟨rfl, hafter'⟩ := hrest
        have hdeleted := hbefore' before row mid hmid hrow
        rw [hafter'] at hafter
        exact hafter (List.mem_append_left _ hdeleted)
  · rw [hmid, List.length_append] at hlt
    omega

/-- A key has one place. -/
theorem unique {place' : Nat} (h : EnteredAt keyOf acts key place)
    (h' : EnteredAt keyOf acts key place') : place = place' :=
  Nat.le_antisymm (Nat.not_lt.mp (h'.not_lt h)) (Nat.not_lt.mp (h.not_lt h'))

end EnteredAt

/-! ## Tables and their histories -/

/-- A table holds what a history leaves: distinct keys, the rows last saved under them,
and the keys in the order of their places. -/
structure Recounts [DecidableEq K] (t : Table K) (acts : List (Act K)) : Prop where
  nodup : t.keys.Nodup
  find?_iff : ∀ key row, t.find? key = some row ↔ LastSaved t.keyOf acts key row
  entered : ∀ key ∈ t.keys, ∃ place, EnteredAt t.keyOf acts key place
  ordered : t.keys.Pairwise (EnteredBefore t.keyOf acts)

namespace Recounts

variable [DecidableEq K] {t : Table K}

/-- A key is there when the history leaves a row under it. -/
theorem mem_keys_iff (h : t.Recounts acts) :
    key ∈ t.keys ↔ ∃ row, LastSaved t.keyOf acts key row := by
  rw [Table.mem_keys_iff]
  simp only [h.find?_iff]

/-- An empty table has no history. -/
theorem empty (keyOf : Row → K) : (Table.empty keyOf).Recounts [] where
  nodup := List.nodup_nil
  find?_iff := by
    intro key row
    constructor
    · intro hrow
      cases hrow
    · rintro ⟨before, after, hacts, -⟩
      cases before <;> cases hacts
  entered := fun key hkey => nomatch hkey
  ordered := List.Pairwise.nil

/-- Saving a row is one more act of the history. -/
theorem save (h : t.Recounts acts) (r : Row) : (t.save r).Recounts (acts ++ [.save r]) where
  nodup := nodup_keys_save h.nodup r
  find?_iff := by
    intro key row
    rw [find?_save, keyOf_save, lastSaved_concat_iff, ← h.find?_iff, Act.key]
    by_cases hkey : key = t.keyOf r
    · simp [hkey]
    · simp [hkey, Ne.symm hkey]
  entered := by
    intro key hkey
    rw [keys_save] at hkey
    rw [keyOf_save]
    split at hkey
    · obtain ⟨place, hplace⟩ := h.entered key hkey
      exact ⟨place, hplace.concat_save r⟩
    · next hmem =>
        rcases List.mem_append.mp hkey with hkey | hkey
        · obtain ⟨place, hplace⟩ := h.entered key hkey
          exact ⟨place, hplace.concat_save r⟩
        · rw [List.mem_singleton.mp hkey]
          rw [h.mem_keys_iff] at hmem
          exact ⟨acts.length, .of_save hmem⟩
  ordered := by
    have hkept : t.keys.Pairwise (EnteredBefore t.keyOf (acts ++ [.save r])) := by
      apply h.ordered.imp
      rintro key other ⟨place, place', hplace, hplace', hlt⟩
      exact ⟨place, place', hplace.concat_save r, hplace'.concat_save r, hlt⟩
    rw [keys_save, keyOf_save]
    split
    · exact hkept
    · next hmem =>
        rw [List.pairwise_append]
        refine ⟨hkept, List.pairwise_singleton .., ?_⟩
        intro key hkey other hother
        obtain ⟨place, hplace⟩ := h.entered key hkey
        rw [h.mem_keys_iff] at hmem
        rw [List.mem_singleton.mp hother]
        exact ⟨place, acts.length, hplace.concat_save r, .of_save hmem, hplace.lt_length⟩

/-- Deleting a key is one more act of the history. -/
theorem delete (h : t.Recounts acts) (deleted : K) :
    (t.delete deleted).Recounts (acts ++ [.delete deleted]) where
  nodup := nodup_keys_delete h.nodup deleted
  find?_iff := by
    intro key row
    rw [find?_delete h.nodup, keyOf_delete, lastSaved_concat_iff, ← h.find?_iff, Act.key]
    by_cases hkey : key = deleted
    · simp [hkey]
    · simp [hkey, Ne.symm hkey]
  entered := by
    intro key hkey
    rw [keys_delete, h.nodup.mem_erase_iff] at hkey
    obtain ⟨place, hplace⟩ := h.entered key hkey.2
    exact ⟨place, hplace.concat_delete hkey.1⟩
  ordered := by
    rw [keys_delete]
    apply (h.ordered.sublist List.erase_sublist).imp_of_mem
    rintro key other hkey hother ⟨place, place', hplace, hplace', hlt⟩
    rw [h.nodup.mem_erase_iff] at hkey hother
    exact ⟨place, place', hplace.concat_delete hkey.1, hplace'.concat_delete hother.1, hlt⟩

/-- A change of one key is one more act of the history. -/
theorem act (h : t.Recounts acts) (a : Act K) : (t.act a).Recounts (acts ++ [a]) := by
  cases a with
  | save row => exact h.save row
  | delete key => exact h.delete key

/-- Changes of keys are more acts of the history, in their order. -/
theorem foldl_act (h : t.Recounts acts) (more : List (Act K)) :
    (more.foldl Table.act t).Recounts (acts ++ more) := by
  induction more generalizing t acts with
  | nil =>
      rw [List.append_nil]
      exact h
  | cons a more ih =>
      have hmore := ih (h.act a)
      rw [List.append_assoc] at hmore
      exact hmore

end Recounts

end Table

/-! ## Sessions -/

variable {E K : Type}

/-- The call of the service of an entity that makes a change. -/
def Table.Change.call (e : E) : Table.Change K → Call E K
  | save row => .create e row
  | saveAll rows => .createAll e rows
  | delete key => .delete e key

/-- What the service answers to a change: what it was given to save. -/
def Table.Change.reply : Table.Change K → Reply E
  | save row => .row row
  | saveAll rows => .rows rows
  | delete _ => .done

namespace Session

variable [DecidableEq E] [DecidableEq K]

/-- A change is answered, and made in the table of the entity. -/
theorem perform_change (schema : Schema E) (s : Session E K) (e : E) (c : Table.Change K) :
    (s.perform schema (c.call e)).1 = c.reply ∧
      ((s.perform schema (c.call e)).2.service e).table = (s.service e).table.change c := by
  cases c <;>
    simp [Table.Change.call, Table.Change.reply, Table.change, perform, update, Service.create,
      Service.createAll, Service.delete]

/-- Changes are answered and made one after another. -/
theorem run_changes (schema : Schema E) (s : Session E K) (e : E)
    (changes : List (Table.Change K)) :
    ((Script.ofCalls (changes.map (·.call e))).run schema s).1 = changes.map Table.Change.reply ∧
      (((Script.ofCalls (changes.map (·.call e))).run schema s).2.service e).table =
        changes.foldl Table.change (s.service e).table := by
  induction changes generalizing s with
  | nil => exact ⟨rfl, rfl⟩
  | cons c changes ih =>
      obtain ⟨hreply, htable⟩ := perform_change schema s e c
      obtain ⟨hreplies, htables⟩ := ih (s.perform schema (c.call e)).2
      rw [List.foldl_cons, ← htable, ← htables, List.map_cons, List.map_cons, ← hreply,
        ← hreplies]
      exact ⟨rfl, rfl⟩

/-- Whatever the keys of rows are, whatever rows an entity starts with and whatever is saved
and deleted, the calls answer with what they were given to save, and the table holds what
the history leaves: under distinct keys the rows last saved and not deleted since, in the
order in which the keys were entered.  Look-ups, the size and the deletion of a key agree
with this. -/
theorem keeps_history (schema : Schema E) (keyOf : E → Row → K) (config : Config) (now : Nat)
    (e : E) (rows : List Row) (changes : List (Table.Change K)) :
    let acts := rows.map Table.Act.save ++ changes.flatMap Table.Change.acts
    let run := (Script.ofCalls (changes.map (·.call e))).run schema
      ((Session.keyed keyOf config now).load e rows)
    let t := (run.2.service e).table
    run.1 = changes.map Table.Change.reply ∧
    t.keyOf = keyOf e ∧
    t.keys.Nodup ∧
    (∀ key row, t.find? key = some row ↔ Table.LastSaved t.keyOf acts key row) ∧
    (∀ key, key ∈ t.keys ↔ ∃ place, Table.EnteredAt t.keyOf acts key place) ∧
    (t.keys.Pairwise fun key other => ∀ place place', Table.EnteredAt t.keyOf acts key place →
      Table.EnteredAt t.keyOf acts other place' → place < place') ∧
    t.rows = t.keys.filterMap t.find? ∧
    (∀ keys, t.findAll keys = keys.filterMap t.find?) ∧
    (∀ key, t.contains key = true ↔ ∃ row, Table.LastSaved t.keyOf acts key row) ∧
    t.size = t.keys.length ∧
    (t.isEmpty = true ↔ ∀ key, ¬ ∃ row, Table.LastSaved t.keyOf acts key row) ∧
    ∀ key, ((¬ ∃ row, Table.LastSaved t.keyOf acts key row) → t.delete key = t) ∧
      (t.delete key).rows = t.rows.filter fun row => t.keyOf row != key := by
  intro acts run t
  obtain ⟨hreplies, htable⟩ :=
    run_changes schema ((Session.keyed keyOf config now).load e rows) e changes
  have hacts : t = acts.foldl Table.act (.empty (keyOf e)) := by
    have hload : (((Session.keyed keyOf config now).load e rows).service e).table =
        (Table.empty (keyOf e)).saveAll rows := by
      simp [load, Session.keyed, Service.new]
    rw [hload, Table.foldl_change_eq, Table.saveAll_eq_foldl_act, ← List.foldl_append] at htable
    exact htable
  have hkeyOf : t.keyOf = keyOf e := by
    rw [hacts, Table.keyOf_foldl_act]
    rfl
  have hrecounts : t.Recounts acts := by
    rw [hacts]
    exact (Table.Recounts.empty _).foldl_act acts
  refine ⟨hreplies, hkeyOf, hrecounts.nodup, hrecounts.find?_iff, ?_, ?_,
    Table.rows_eq_filterMap hrecounts.nodup, fun _ => rfl, ?_, ?_, ?_, ?_⟩
  · intro key
    constructor
    · exact hrecounts.entered key
    · rintro ⟨place, hplace⟩
      exact hrecounts.mem_keys_iff.mpr hplace.exists_lastSaved
  · apply hrecounts.ordered.imp
    rintro key other ⟨place, place', hplace, hplace', hlt⟩ other₁ other₂ h₁ h₂
    rw [h₁.unique hplace, h₂.unique hplace']
    exact hlt
  · intro key
    rw [← hrecounts.mem_keys_iff, Table.mem_keys_iff, Table.contains, Option.isSome_iff_exists]
  · exact (List.length_map ..).symm
  · simp only [← hrecounts.mem_keys_iff]
    rw [← List.eq_nil_iff_forall_not_mem, Table.keys, List.map_eq_nil_iff]
    exact List.isEmpty_iff
  · intro key
    rw [← hrecounts.mem_keys_iff]
    exact ⟨Table.delete_of_not_mem, Table.rows_delete hrecounts.nodup key⟩

/-- Of two books the first one is deleted and saved again, so it stands behind the book
saved in between; the other one is replaced in its place. -/
theorem keeps_history_books :
    let book (id : Int64) (title : String) : Row := .mk [("id", .int id), ("title", .text title)] []
    let schema : Schema Unit := ⟨fun _ => ⟨"book", "Book", "id", [], []⟩⟩
    let changes : List (Table.Change Int64) := [.saveAll [book 2 "Persuasion", book 3 "Emma"],
      .delete 1, .save (book 1 "Sanditon")]
    let run := (Script.ofCalls (changes.map (·.call ()))).run schema
      ((Session.new schema {} 0).load () [book 1 "Lady Susan", book 2 "Emma"])
    let t := (run.2.service ()).table
    t.keys = [2, 3, 1] ∧ t.keys.Nodup ∧ t.find? 1 = some (book 1 "Sanditon") := by
  intro book schema changes run t
  obtain ⟨-, -, hnodup, hfind, -⟩ := keeps_history schema
    (fun _ r => r.key "id") {} 0 () [book 1 "Lady Susan", book 2 "Emma"] changes
  refine ⟨by decide +kernel, hnodup, (hfind 1 _).mpr ?_⟩
  exact ⟨[.save (book 1 "Lady Susan"), .save (book 2 "Emma"), .save (book 2 "Persuasion"),
    .save (book 3 "Emma"), .delete 1], [], rfl, by decide +kernel, fun a ha => nomatch ha⟩

end Session

end EntityQuery
