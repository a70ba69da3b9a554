import EntityQuery.Binary64.Reading
import EntityQuery.Predicate.Basic
import EntityQuery.Text.Blank

/-!
# Binding of predicates

Before any row is read, the operands of a predicate are converted to the kinds of the
fields they are compared with.  A predicate with an operand or a test that a kind does
not support is refused as a whole.

Main results:

- Definition `bindOperand?`: the operand of a kind for a value.
- Definition `Predicate.bind`: a predicate with all its operands bound.
-/

namespace EntityQuery

/-! ## Faults -/

/-- A field was asked what its kind does not support. -/
structure KindMismatch where
  field : String
  kind : FieldKind
  operation : String
deriving DecidableEq, Repr

/-- What the fault is called. -/
def KindMismatch.message (m : KindMismatch) : String :=
  m.operation ++ " is not supported for " ++ m.kind.display ++ " column '" ++ m.field ++ "'"

namespace FieldRef

/-- The fault of asking a field for an operation. -/
def mismatch (f : FieldRef) (operation : String) : KindMismatch :=
  ⟨f.name, f.kind, operation⟩

end FieldRef

/-! ## Operands -/

/-- The truth value that a word names in any letter case. -/
def boolOfText? (s : String) : Option Bool :=
  match String.ofList ((Text.trim s).toList.map Char.toLower) with
  | "true" => some true
  | "false" => some false
  | _ => none

/-- The operand of a kind for a value: a value of the kind, or one that converts to it.
Integers, floats and truth values may be spelled in texts. -/
def bindOperand? : FieldKind → Value → Option Value
  | .int, .int n => some (.int n)
  | .int, .text s => (Text.int64? (Text.trim s)).map .int
  | .float, .float x => some (.float x)
  | .float, .int n => some (.float (.ofInt n.toInt))
  | .float, .text s => (Binary64.ofText? (Text.trim s)).map .float
  | .bool, .bool b => some (.bool b)
  | .bool, .text s => (boolOfText? s).map .bool
  | .text, .text s => some (.text s)
  | .timestamp, .timestamp t => some (.timestamp t)
  | .uuid, .uuid u => some (.uuid u)
  | .enum type, .enum member =>
    if type.variantAt? member.ordinal = some member.name then some (.enum member) else none
  | _, _ => none

namespace FieldRef

/-- Bind an operand to the kind of a field. -/
def bindOperand (f : FieldRef) (v : Value) : Except KindMismatch Value :=
  match bindOperand? f.kind v with
  | some bound => .ok bound
  | none => .error (f.mismatch (v.label ++ " operand"))

/-- Bind the items of a list, up to the first fault. -/
def bindItems (f : FieldRef) : List Value → Except KindMismatch (List Value)
  | [] => .ok []
  | v :: vs =>
    match f.bindOperand v with
    | .error e => .error e
    | .ok bound => (bindItems f vs).map (bound :: ·)

end FieldRef

/-! ## Predicates -/

/-- Bind a test of a field.  Membership needs a list, every other comparison a single
value. -/
def Test.bind (f : FieldRef) : Test → Except KindMismatch Test
  | compare comparison operand =>
    if comparison.isOrdering && !f.kind.isOrderable then .error (f.mismatch "ordering comparison")
    else
      match comparison, operand with
      | .isIn, .list items => (f.bindItems items).map fun bound => compare .isIn (.list bound)
      | .isIn, _ => .error (f.mismatch "membership test")
      | _, .list _ => .error (f.mismatch "membership test")
      | comparison, operand => (f.bindOperand operand).map (compare comparison)
  | isTrue =>
    match f.kind with
    | .bool => .ok isTrue
    | _ => .error (f.mismatch "boolean test")
  | like pattern escape => .ok (like pattern escape)
  | isNull => .ok isNull
  | isNotNull => .ok isNotNull

namespace Predicate

mutual

/-- A predicate with all its operands bound, or the first fault. -/
def bind : Predicate → Except KindMismatch Predicate
  | const b => .ok (const b)
  | all parts => (bindEach parts).map all
  | any parts => (bindEach parts).map any
  | not part => part.bind.map not
  | test field t => (t.bind field).map (test field)

/-- The parts of a group, bound one after another. -/
def bindEach : List Predicate → Except KindMismatch (List Predicate)
  | [] => .ok []
  | part :: parts =>
    match part.bind with
    | .error e => .error e
    | .ok bound => (bindEach parts).map (bound :: ·)

end

end Predicate

end EntityQuery
