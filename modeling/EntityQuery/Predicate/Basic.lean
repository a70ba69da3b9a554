import EntityQuery.Schema
import EntityQuery.Value.Basic

/-!
# Predicates

A predicate is a combination of tests of fields.  A field is read from the root row of
a query or from a row that a join brings in.

Main results:

- Definition `Predicate.fields`: the fields a predicate reads, in order.
- Theorem `Predicate.induct`: induction with a hypothesis for every part of a group.
-/

namespace EntityQuery

/-! ## Fields -/

/-- Where a row of a query comes from: the root, or a join given by its place. -/
inductive Source where
  | root
  | join (id : Nat)
deriving DecidableEq, Repr

/-- A field of one of the rows of a query. -/
structure FieldRef where
  source : Source
  name : String
  kind : FieldKind
deriving DecidableEq, Repr

/-! ## Tests -/

/-- A comparison with an operand. -/
inductive Comparison where
  | eq
  | ne
  | lt
  | lte
  | gt
  | gte
  | isIn
deriving DecidableEq, Repr

namespace Comparison

/-- Whether the comparison asks which side is smaller. -/
def isOrdering : Comparison → Bool
  | lt | lte | gt | gte => true
  | _ => false

/-- The symbol of a comparison. -/
def symbol : Comparison → String
  | eq => "="
  | ne => "<>"
  | lt => "<"
  | lte => "<="
  | gt => ">"
  | gte => ">="
  | isIn => "IN"

end Comparison

/-- What is asked of the value of a field. -/
inductive Test where
  | compare (comparison : Comparison) (operand : Value)
  | like (pattern : String) (escape : Option Char)
  | isNull
  | isNotNull
  | isTrue

/-! ## Predicates -/

/-- A combination of tests. -/
inductive Predicate where
  | const (value : Bool)
  | all (parts : List Predicate)
  | any (parts : List Predicate)
  | not (part : Predicate)
  | test (field : FieldRef) (test : Test)

namespace Predicate

instance : Inhabited Predicate := ⟨const true⟩

mutual

/-- The fields that a predicate reads, in order and with repetitions. -/
def fields : Predicate → List FieldRef
  | const _ => []
  | all parts => fieldsOfEach parts
  | any parts => fieldsOfEach parts
  | not part => part.fields
  | test field _ => [field]

/-- The fields that the parts of a group read. -/
def fieldsOfEach : List Predicate → List FieldRef
  | [] => []
  | part :: parts => part.fields ++ fieldsOfEach parts

end

theorem fieldsOfEach_eq_flatMap (parts : List Predicate) :
    fieldsOfEach parts = parts.flatMap fields := by
  induction parts with
  | nil => rfl
  | cons part parts ih => simp [fieldsOfEach, ih]

/-- Induction over predicates, with a hypothesis for every part of a group. -/
theorem induct {motive : Predicate → Prop} (const : ∀ b, motive (.const b))
    (all : ∀ parts, (∀ p ∈ parts, motive p) → motive (.all parts))
    (any : ∀ parts, (∀ p ∈ parts, motive p) → motive (.any parts))
    (not : ∀ part, motive part → motive (.not part))
    (test : ∀ field t, motive (.test field t)) (p : Predicate) : motive p := by
  refine Predicate.rec (motive_1 := motive) (motive_2 := fun ps => ∀ p ∈ ps, motive p)
    const all any not test ?_ ?_ p
  · intro p hp; cases hp
  · intro head tail hhead htail p hp
    rcases List.mem_cons.1 hp with rfl | hp
    · exact hhead
    · exact htail p hp

/-- Both predicates. -/
def and (left right : Predicate) : Predicate := all [left, right]

/-- One of two predicates at least. -/
def or (left right : Predicate) : Predicate := any [left, right]

end Predicate

end EntityQuery
