import EntityQuery.Criteria.Request
import EntityQuery.Json.Record

/-!
# Requests in JSON

The wire form of requests and their parts.  A request is read in two steps: first as a
form in which operators are still tokens, then by naming the operators.  When the form
does not decode, the tokens alone decide whether an unknown operator is to blame.

Main results:

- Definitions `Request.toJson` and `Request.ofJson?`: the wire form of requests.
- Definition `Request.ofBody`: the request in a body, or why there is none.
-/

namespace EntityQuery

/-! ## Scalars -/

namespace RawValue

/-- The wire form of a raw value; floats that are not finite become null. -/
def toJson : RawValue → Json
  | bool value => .bool value
  | int value => .number (.ofInt value.toInt)
  | float value => if value.isFinite then .number (.ofBinary64 value) else .null
  | text value => .text (some value)

/-- A number is an integer if it fits in 64 bits with a sign, and a float otherwise. -/
def ofNumber? (n : Json.Number) : Option RawValue :=
  match n.toInt?.bind Text.int64OfInt? with
  | some value => some (int value)
  | none => n.toBinary64?.map float

/-- The raw value that a scalar spells. -/
def ofJson? : Json → Option RawValue
  | .bool value => some (bool value)
  | .number n => ofNumber? n
  | .text value => value.map text
  | _ => none

end RawValue

namespace Operator

/-- The wire form of an operator is its token. -/
def toJson (op : Operator) : Json := .text (some op.token)

/-- The operator that a token names. -/
def ofJson? (json : Json) : Option Operator := json.text?.bind ofToken?

end Operator

namespace GroupOperator

/-- The name of a group operator. -/
def name : GroupOperator → String
  | and => "AND"
  | or => "OR"

/-- The group operator of a name. -/
def ofName? : String → Option GroupOperator
  | "AND" => some and
  | "OR" => some or
  | _ => none

/-- The wire form of a group operator is its name. -/
def toJson (op : GroupOperator) : Json := .text (some op.name)

/-- The group operator that a choice names. -/
def ofJson? (json : Json) : Option GroupOperator := json.choice?.bind ofName?

end GroupOperator

namespace Direction

/-- The name of a direction. -/
def name : Direction → String
  | ascending => "ASC"
  | descending => "DESC"

/-- The direction of a name. -/
def ofName? : String → Option Direction
  | "ASC" => some ascending
  | "DESC" => some descending
  | _ => none

/-- The wire form of a direction is its name. -/
def toJson (d : Direction) : Json := .text (some d.name)

/-- The direction that a choice names. -/
def ofJson? (json : Json) : Option Direction := json.choice?.bind ofName?

@[simp] theorem ofName?_name (d : Direction) : ofName? d.name = some d := by
  cases d <;> rfl

end Direction

/-! ## Sort directives and criteria -/

namespace SortDirective

/-- The fields of a sort directive. -/
def fields : List (List String) := [["column"], ["sortType"]]

/-- The wire form of a sort directive. -/
def toJson (s : SortDirective) : Json :=
  .object [(some "column", .text (some s.column)), (some "sortType", s.direction.toJson)]

/-- The sort directive that a record spells. -/
def ofJson? (json : Json) : Option SortDirective := do
  match ← json.record? fields with
  | [column, direction] =>
    some ⟨← Json.required Json.text? column, ← Json.required Direction.ofJson? direction⟩
  | _ => none

end SortDirective

/-- A criterion whose operator is still a token. -/
structure CriterionForm where
  column : String
  token : String
  values : List RawValue
deriving DecidableEq

namespace CriterionForm

/-- The fields of a criterion. -/
def fields : List (List String) := [["column"], ["operator"], ["values"]]

/-- The form that a record spells; values may be left out. -/
def ofJson? (json : Json) : Option CriterionForm := do
  match ← json.record? fields with
  | [column, operator, values] =>
    some {
      column := ← Json.required Json.text? column
      token := ← Json.required Json.text? operator
      values := ← Json.withDefault (Json.list? RawValue.ofJson?) [] values }
  | _ => none

/-- The criterion, if the token names an operator. -/
def toCriterion? (form : CriterionForm) : Option Criterion :=
  (Operator.ofToken? form.token).map fun operator => ⟨form.column, operator, form.values⟩

end CriterionForm

namespace Criterion

/-- The wire form of a criterion. -/
def toJson (c : Criterion) : Json :=
  .object [(some "column", .text (some c.column)), (some "operator", c.operator.toJson),
    (some "values", .array (c.values.map RawValue.toJson))]

/-- The criterion that a record spells. -/
def ofJson? (json : Json) : Option Criterion :=
  (CriterionForm.ofJson? json).bind CriterionForm.toCriterion?

end Criterion

/-! ## Requests -/

/-- A request whose operators are still tokens. -/
structure RequestForm where
  page : UInt32
  size : Int32
  sort : List SortDirective
  criteriaOperator : Option GroupOperator
  criteria : List CriterionForm
  orCriteria : List CriterionForm
deriving DecidableEq

/-- A 32-bit number without a sign. -/
def uint32OfJson? (json : Json) : Option UInt32 :=
  (json.natBelow? 0x100000000).map UInt32.ofNat

/-- A 32-bit number with a sign. -/
def int32OfJson? (json : Json) : Option Int32 :=
  json.int?.bind fun n => if -0x80000000 ≤ n ∧ n < 0x80000000 then some (Int32.ofInt n) else none

/-- A group operator that may also be null. -/
def optionalGroupOperator? : Json → Option (Option GroupOperator)
  | .null => some none
  | json => (GroupOperator.ofJson? json).map some

namespace RequestForm

/-- The fields of a request; the page size has two names. -/
def fields : List (List String) :=
  [["page"], ["size", "pageSize"], ["sort"], ["criteriaOperator"], ["criteria"], ["orCriteria"]]

/-- The form that a record spells; only the page is required. -/
def ofJson? (json : Json) : Option RequestForm := do
  match ← json.record? fields with
  | [page, size, sort, criteriaOperator, criteria, orCriteria] =>
    some {
      page := ← Json.required uint32OfJson? page
      size := ← Json.withDefault int32OfJson? 0 size
      sort := ← Json.withDefault (Json.list? SortDirective.ofJson?) [] sort
      criteriaOperator := ← Json.withDefault optionalGroupOperator? none criteriaOperator
      criteria := ← Json.withDefault (Json.list? CriterionForm.ofJson?) [] criteria
      orCriteria := ← Json.withDefault (Json.list? CriterionForm.ofJson?) [] orCriteria }
  | _ => none

/-- The tokens in order, criteria before alternatives. -/
def tokens (form : RequestForm) : List String :=
  (form.criteria ++ form.orCriteria).map (·.token)

/-- The request, if all tokens name operators. -/
def toRequest? (form : RequestForm) : Option Request := do
  some {
    page := form.page
    size := form.size
    sort := form.sort
    criteriaOperator := form.criteriaOperator
    criteria := ← form.criteria.mapM CriterionForm.toCriterion?
    orCriteria := ← form.orCriteria.mapM CriterionForm.toCriterion? }

end RequestForm

/-- The first token that names no operator. -/
def firstUnknown? (tokens : List String) : Option String :=
  tokens.find? fun token => (Operator.ofToken? token).isNone

/-- Why a body does not hold a request. -/
inductive BodyError where
  | unknownOperator (token : String)
  | malformed
deriving DecidableEq, Repr

namespace Request

/-- The wire form of a request.  Empty lists and a missing operator are left out. -/
def toJson (r : Request) : Json :=
  .object
    ([(some "page", .number (.ofInt r.page.toNat)), (some "size", .number (.ofInt r.size.toInt))] ++
    (if r.sort.isEmpty then [] else [(some "sort", .array (r.sort.map SortDirective.toJson))]) ++
    (match r.criteriaOperator with
    | none => []
    | some operator => [(some "criteriaOperator", operator.toJson)]) ++
    (if r.criteria.isEmpty then [] else [(some "criteria", .array (r.criteria.map Criterion.toJson))]) ++
    (if r.orCriteria.isEmpty then []
    else [(some "orCriteria", .array (r.orCriteria.map Criterion.toJson))]))

/-- The request that a record spells. -/
def ofJson? (json : Json) : Option Request :=
  (RequestForm.ofJson? json).bind RequestForm.toRequest?

/-- The token of a criterion of which only the operator is read. -/
def tokenOfJson? (json : Json) : Option String := do
  match ← json.record? [["operator"]] with
  | [operator] => Json.required Json.text? operator
  | _ => none

/-- The tokens of a request of which only the operators are read. -/
def tokensOfJson? (json : Json) : Option (List String) := do
  match ← json.record? [["criteria"], ["orCriteria"]] with
  | [criteria, orCriteria] =>
    some ((← Json.withDefault (Json.list? tokenOfJson?) [] criteria) ++
      (← Json.withDefault (Json.list? tokenOfJson?) [] orCriteria))
  | _ => none

/-- The request in a body.  An unknown operator is reported as such even if the rest of
the body is wrong too, as long as its tokens can be read. -/
def ofBody (body : String) : Except BodyError Request :=
  match Json.read? body with
  | none => .error .malformed
  | some json =>
    match ofJson? json with
    | some request => .ok request
    | none =>
      match (tokensOfJson? json).bind firstUnknown? with
      | some token => .error (.unknownOperator token)
      | none => .error .malformed

/-- The body of a request. -/
def toBody (r : Request) : String :=
  r.toJson.write

end Request

end EntityQuery
