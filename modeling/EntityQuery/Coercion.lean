import EntityQuery.Schema
import EntityQuery.Value.Raw

/-!
# Coercion of raw values

A raw value becomes a value of a column's kind when a criterion is compiled.  Dates,
identifiers and members of enumerations are converted here; for the other kinds the raw
value is taken as it is and converted when the predicate is bound.

Main results:

- Definition `coerce`: the value of a raw value for a kind.
- Theorem `coerce_passthrough`: no other kind refuses a value.
-/

namespace EntityQuery

/-- How the values of a kind are coerced. -/
inductive CoercionKind where
  | date
  | identifier
  | enum
  | passthrough
deriving DecidableEq, Repr

/-- How the values of a kind are coerced. -/
def FieldKind.coercion : FieldKind → CoercionKind
  | .timestamp => .date
  | .uuid => .identifier
  | .enum _ => .enum
  | _ => .passthrough

/-- Why a raw value is refused. -/
inductive CoercionError where
  | invalidDate (raw : String)
  | invalidEnum (enumName raw : String)
  | invalidUuid (raw : String)
deriving DecidableEq, Repr

namespace CoercionError

/-- What the fault is called. -/
def message : CoercionError → String
  | invalidDate raw => "'" ++ raw ++ "' is not an epoch-millisecond timestamp"
  | invalidEnum enumName raw => "Invalid Enum Value '" ++ raw ++ "' for " ++ enumName
  | invalidUuid raw => "'" ++ raw ++ "' is not a canonical UUID"

end CoercionError

namespace RawValue

/-- The milliseconds that a raw value spells, as an integer or as its text. -/
def millis? : RawValue → Option Int64
  | int n => some n
  | text s => Text.int64? s
  | _ => none

/-- A date is given in milliseconds. -/
def toDate (raw : RawValue) : Except CoercionError Value :=
  match raw.millis?.bind fun n => Timestamp.ofMillis? n.toInt with
  | some t => .ok (.timestamp t)
  | none => .error (.invalidDate raw.display)

/-- An identifier is given by its hyphenated text. -/
def toIdentifier (raw : RawValue) : Except CoercionError Value :=
  let identifier := match raw with
    | text s => Uuid.ofText? s
    | _ => none
  match identifier with
  | some u => .ok (.uuid u)
  | none => .error (.invalidUuid raw.display)

/-- The first member whose name or place is written like this. -/
def memberNamed? (s : String) : Nat → List String → Option EnumMember
  | _, [] => none
  | ordinal, name :: names =>
    if name = s ∨ Text.intText ordinal = s then some ⟨ordinal, name⟩
    else memberNamed? s (ordinal + 1) names

/-- A member of an enumeration is given by its name or by its place. -/
def toMember (type : EnumType) (raw : RawValue) : Except CoercionError Value :=
  match memberNamed? raw.display 0 type.variants with
  | some member => .ok (.enum member)
  | none => .error (.invalidEnum type.name raw.display)

end RawValue

/-- The value of a raw value for a kind. -/
def coerce (kind : FieldKind) (raw : RawValue) : Except CoercionError Value :=
  match kind with
  | .timestamp => raw.toDate
  | .uuid => raw.toIdentifier
  | .enum type => raw.toMember type
  | _ => .ok raw.toValue

/-- A kind without a conversion takes every raw value as it is. -/
theorem coerce_passthrough {kind : FieldKind} (h : kind.coercion = .passthrough)
    (raw : RawValue) : coerce kind raw = .ok raw.toValue := by
  cases kind <;> first | rfl | cases h

end EntityQuery
