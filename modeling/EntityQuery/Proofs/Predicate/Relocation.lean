import EntityQuery.Join.Search
import EntityQuery.Predicate.Binding
import EntityQuery.Proofs.Join.Assignment

/-!
# Predicates of one row

The predicate of a criterion reads a single row, wherever that row comes from.  It can
be moved from one source to another: its truth value follows the row, and binding its
operands does not see the source.

Main results:

- Definition `Predicate.relocate`: a predicate moved to a source.
- Theorem `evaluate_relocate`: its truth value depends on the row of the source alone.
- Theorem `bind_relocate`: binding and moving commute.
-/

namespace EntityQuery

/-- The field of the same name and kind at another source. -/
def FieldRef.relocate (source : Source) (f : FieldRef) : FieldRef :=
  { f with source := source }

/-- The value of a column in a row; without a row or the column it is missing. -/
def valueAt (row : Option Row) (column : String) : Value :=
  (row.bind (·.value? column)).getD .null

namespace Predicate

mutual

/-- The predicate that reads all its fields from one source. -/
def relocate (source : Source) : Predicate → Predicate
  | const b => const b
  | all parts => all (relocateEach source parts)
  | any parts => any (relocateEach source parts)
  | not part => not (part.relocate source)
  | test f t => test (f.relocate source) t

/-- The parts of a group, each moved to a source. -/
def relocateEach (source : Source) : List Predicate → List Predicate
  | [] => []
  | part :: parts => part.relocate source :: relocateEach source parts

end

theorem relocateEach_eq_map (source : Source) (parts : List Predicate) :
    relocateEach source parts = parts.map (relocate source) := by
  induction parts with
  | nil => rfl
  | cons part parts ih => simp [relocateEach, ih]

/-! ## Truth values -/

/-- The truth value of a predicate when all its fields are read from one row. -/
def evaluateAt (row : Option Row) (p : Predicate) : Truth :=
  (p.relocate (.join 0)).evaluate ⟨default, [.ofRow? row]⟩

/-- Sources with the same row give a moved predicate the same truth value. -/
theorem evaluate_relocate_congr {c d : Choice} {s t : Source} (h : c.row? s = d.row? t)
    (p : Predicate) : (p.relocate s).evaluate c = (p.relocate t).evaluate d := by
  induction p using Predicate.induct with
  | const b => rfl
  | all parts ih =>
      simp only [relocate, relocateEach_eq_map, evaluate, evaluateEach_eq_map, List.map_map]
      congr 1
      exact List.map_congr_left ih
  | any parts ih =>
      simp only [relocate, relocateEach_eq_map, evaluate, evaluateEach_eq_map, List.map_map]
      congr 1
      exact List.map_congr_left ih
  | not part ih =>
      simp only [relocate, evaluate]
      rw [ih]
  | test f t => simp only [relocate, evaluate, Choice.value, FieldRef.relocate, h]

/-- A moved predicate has the truth value that the row of its source gives it. -/
theorem evaluate_relocate {c : Choice} {s : Source} {row : Option Row} (h : c.row? s = row)
    (p : Predicate) : (p.relocate s).evaluate c = p.evaluateAt row := by
  apply evaluate_relocate_congr
  rw [h]
  cases row <;> rfl

/-- An alternative is true of a row when one of its parts is. -/
theorem evaluateAt_any_eq_yes_iff {row : Option Row} {parts : List Predicate} :
    (Predicate.any parts).evaluateAt row = .yes ↔ ∃ part ∈ parts, part.evaluateAt row = .yes := by
  simp only [evaluateAt, relocate, relocateEach_eq_map, evaluate_any_eq_yes_iff, List.mem_map]
  constructor
  · rintro ⟨_, ⟨part, hpart, rfl⟩, hyes⟩
    exact ⟨part, hpart, hyes⟩
  · rintro ⟨part, hpart, hyes⟩
    exact ⟨_, ⟨part, hpart, rfl⟩, hyes⟩

/-- The negation of a predicate has the opposite truth value of a row. -/
theorem evaluateAt_not {row : Option Row} {part : Predicate} :
    (Predicate.not part).evaluateAt row = (part.evaluateAt row).not := by
  simp [evaluateAt, relocate, evaluate]

/-- A test has the truth value that the value of its field gives it. -/
theorem evaluateAt_test {row : Option Row} {f : FieldRef} {t : Test} :
    (Predicate.test f t).evaluateAt row = t.evaluate (valueAt row f.name) := by
  cases row <;> rfl

/-! ## Binding -/

/-- An operand is bound to the kind of a field, wherever it is read from. -/
theorem bindOperand_relocate (s : Source) (f : FieldRef) (v : Value) :
    (f.relocate s).bindOperand v = f.bindOperand v := rfl

/-- The items of a list are bound to the kind of a field, wherever it is read from. -/
theorem bindItems_relocate (s : Source) (f : FieldRef) (vs : List Value) :
    (f.relocate s).bindItems vs = f.bindItems vs := by
  induction vs with
  | nil => rfl
  | cons v vs ih => rw [FieldRef.bindItems, FieldRef.bindItems, ih, bindOperand_relocate]

/-- A test is bound to the kind of a field, wherever it is read from. -/
theorem bind_test_relocate (s : Source) (f : FieldRef) (t : Test) :
    t.bind (f.relocate s) = t.bind f := by
  cases t with
  | compare comparison operand =>
      cases comparison <;> cases operand <;>
        simp only [Test.bind, bindItems_relocate] <;> rfl
  | like pattern escape => rfl
  | isNull => rfl
  | isNotNull => rfl
  | isTrue => rfl

/-- The parts of a group are bound to the moved parts. -/
theorem bindEach_relocate {s : Source} {parts : List Predicate}
    (h : ∀ part ∈ parts, (part.relocate s).bind = part.bind.map (relocate s)) :
    bindEach (relocateEach s parts) = (bindEach parts).map (relocateEach s) := by
  induction parts with
  | nil => rfl
  | cons part parts ih =>
      rw [relocateEach, bindEach, bindEach, h part List.mem_cons_self,
        ih fun p hp => h p (List.mem_cons_of_mem part hp)]
      cases part.bind with
      | error e => rfl
      | ok bound => cases bindEach parts <;> rfl

/-- Binding a moved predicate moves the bound one. -/
theorem bind_relocate (s : Source) (p : Predicate) :
    (p.relocate s).bind = p.bind.map (relocate s) := by
  induction p using Predicate.induct with
  | const b => rfl
  | all parts ih =>
      rw [relocate, bind, bind, bindEach_relocate ih]
      cases bindEach parts <;> rfl
  | any parts ih =>
      rw [relocate, bind, bind, bindEach_relocate ih]
      cases bindEach parts <;> rfl
  | not part ih =>
      rw [relocate, bind, bind, ih]
      cases part.bind <;> rfl
  | test f t =>
      rw [relocate, bind, bind, bind_test_relocate]
      cases t.bind f <;> rfl

end Predicate

end EntityQuery
