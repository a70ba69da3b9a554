import EntityQuery.Criteria.Wire
import EntityQuery.Proofs.Json.Records

/-!
# Requests over the wire

The body of a request is read back as the same request: texts character by character,
operators by their tokens, and every raw value in its own variant.  Lists that are left
out come back empty, and so does a missing operator.  Only a binary64 number may be lost,
when its spelling names another number or none.

Main results:

- Definition `RawValue.ReadsBack`: the spelling of a raw value names it.
- Theorem `Request.ofJson?_toJson`: the wire form of a request is read back.
- Theorem `Request.ofBody_toBody`: the body of a request is read back.
-/

namespace EntityQuery

/-! ## Raw values -/

namespace RawValue

/-- The spelling of a raw value names it: a binary64 number is finite and its digits are
read as the same number.  The other values have such a spelling always. -/
def ReadsBack : RawValue → Prop
  | float x => x.isFinite = true ∧
    (Json.Number.ofChars? (Json.Number.ofBinary64 x).chars).bind Json.Number.toBinary64? = some x
  | _ => True

instance (raw : RawValue) : Decidable raw.ReadsBack := by
  cases raw <;> unfold ReadsBack <;> infer_instance

/-- The digits of a binary64 number that reads back spell the number that was written. -/
theorem ReadsBack.exists_number {x : Binary64} (h : (float x).ReadsBack) :
    (float x).toJson = .number (.ofBinary64 x) ∧
      Json.Number.ofChars? (Json.Number.ofBinary64 x).chars = some (.ofBinary64 x) ∧
      (Json.Number.ofBinary64 x).toBinary64? = some x := by
  obtain ⟨hfinite, hread⟩ := h
  obtain ⟨n, hchars, hx⟩ := Option.bind_eq_some_iff.mp hread
  have hn := hchars
  rw [Json.Number.ofChars?_chars (Json.Number.digitParts_ofBinary64 x)] at hn
  split at hn
  · cases hn
  · cases hn
    exact ⟨if_pos hfinite, hchars, hx⟩

/-- The wire form of a raw value is readable. -/
theorem readable_toJson {raw : RawValue} (h : raw.ReadsBack) : raw.toJson.Readable := by
  cases raw with
  | bool value => exact Json.readable_bool value
  | int value => exact Json.readable_ofInt value.toInt
  | float x =>
      obtain ⟨hjson, hchars, -⟩ := ReadsBack.exists_number h
      rw [hjson]
      exact Json.readable_number (Json.Number.digitParts_ofBinary64 x) hchars
  | text value => exact Json.readable_text value

/-- A raw value is read back in its variant. -/
theorem ofJson?_toJson {raw : RawValue} (h : raw.ReadsBack) : ofJson? raw.toJson = some raw := by
  cases raw with
  | bool value => rfl
  | int value =>
      have hlow := value.le_toInt
      have hhigh := value.toInt_lt
      rw [toJson, ofJson?, ofNumber?, Json.Number.toInt?_ofInt hlow (by omega), Option.bind_some,
        Text.int64OfInt?_toInt]
  | float x =>
      obtain ⟨hjson, -, hx⟩ := ReadsBack.exists_number h
      rw [hjson, ofJson?, ofNumber?, Json.Number.toInt?_ofBinary64, hx]
      rfl
  | text value => rfl

end RawValue

/-! ## Sort directives and criteria -/

namespace SortDirective

/-- A sort directive is written with its two fields. -/
theorem toJson_eq (s : SortDirective) :
    s.toJson = .ofFields ["column", "sortType"]
      [some (.text (some s.column)), some s.direction.toJson] := rfl

theorem readable_toJson (s : SortDirective) : s.toJson.Readable := by
  rw [toJson_eq]
  apply Json.readable_ofFields
  rw [List.forall_mem_cons, List.forall_mem_singleton]
  exact ⟨Json.readable_some (Json.readable_text _), Json.readable_some (Json.readable_text _)⟩

/-- A sort directive is read back. -/
theorem ofJson?_toJson (s : SortDirective) : ofJson? s.toJson = some s := by
  have hdirection : Direction.ofJson? s.direction.toJson = some s.direction :=
    Direction.ofName?_name s.direction
  rw [toJson_eq, ofJson?, Json.record?_ofFields (by decide) rfl]
  simp [Json.required, Json.text?, hdirection]

end SortDirective

namespace Criterion

/-- The criterion with its token. -/
def toForm (c : Criterion) : CriterionForm := ⟨c.column, c.operator.token, c.values⟩

/-- The operator of a criterion is named by its token. -/
theorem toCriterion?_toForm (c : Criterion) : c.toForm.toCriterion? = some c := by
  simp [toForm, CriterionForm.toCriterion?]

/-- A criterion is written with its three fields. -/
theorem toJson_eq (c : Criterion) :
    c.toJson = .ofFields ["column", "operator", "values"]
      [some (.text (some c.column)), some c.operator.toJson,
        some (.array (c.values.map RawValue.toJson))] := rfl

variable {c : Criterion}

theorem readable_toJson (h : ∀ raw ∈ c.values, raw.ReadsBack) : c.toJson.Readable := by
  have hvalues : (Json.array (c.values.map RawValue.toJson)).Readable := by
    apply Json.readable_array
    rw [List.forall_mem_map]
    exact fun raw hraw => RawValue.readable_toJson (h raw hraw)
  rw [toJson_eq]
  apply Json.readable_ofFields
  rw [List.forall_mem_cons, List.forall_mem_cons, List.forall_mem_singleton]
  exact ⟨Json.readable_some (Json.readable_text _), Json.readable_some (Json.readable_text _),
    Json.readable_some hvalues⟩

/-- A criterion is read back with its token. -/
theorem ofJson?_toJson (h : ∀ raw ∈ c.values, raw.ReadsBack) :
    CriterionForm.ofJson? c.toJson = some c.toForm := by
  have hvalues : Json.list? RawValue.ofJson? (.array (c.values.map RawValue.toJson)) =
      some c.values := by
    rw [Json.list?_array_map fun raw hraw => RawValue.ofJson?_toJson (h raw hraw), List.map_id']
  rw [toJson_eq, CriterionForm.ofJson?, Json.record?_ofFields (by decide) rfl]
  simp [Json.required, Json.withDefault, Json.text?, Operator.toJson, hvalues, toForm]

end Criterion

/-! ## Numbers of a request -/

theorem uint32OfJson?_ofInt (n : UInt32) :
    uint32OfJson? (.number (.ofInt n.toNat)) = some n := by
  have hlt := n.toNat_lt
  rw [uint32OfJson?, Json.natBelow?, Json.int?, Json.Number.toInt?_ofInt (by omega) (by omega),
    Option.bind_some, if_pos (by omega)]
  simp

theorem int32OfJson?_ofInt (n : Int32) : int32OfJson? (.number (.ofInt n.toInt)) = some n := by
  have hlow := n.le_toInt
  have hhigh := n.toInt_lt
  rw [int32OfJson?, Json.int?, Json.Number.toInt?_ofInt (by omega) (by omega),
    Option.bind_some, if_pos (by omega), Int32.ofInt_toInt]

/-! ## Requests -/

namespace Request

/-- The fields of a request that are written. -/
def fieldValues (r : Request) : List (Option Json) :=
  [some (.number (.ofInt r.page.toNat)), some (.number (.ofInt r.size.toInt)),
    Json.listField SortDirective.toJson r.sort, r.criteriaOperator.map GroupOperator.toJson,
    Json.listField Criterion.toJson r.criteria, Json.listField Criterion.toJson r.orCriteria]

/-- A request is written with the fields that are set. -/
theorem toJson_eq (r : Request) :
    r.toJson = .ofFields ["page", "size", "sort", "criteriaOperator", "criteria", "orCriteria"]
      r.fieldValues := by
  unfold toJson fieldValues Json.listField
  cases r.sort.isEmpty <;> cases r.criteriaOperator <;> cases r.criteria.isEmpty <;>
    cases r.orCriteria.isEmpty <;> rfl

/-- The binary64 numbers of a request are spelled so that they are read back. -/
def ReadsBack (r : Request) : Prop :=
  ∀ c ∈ r.criteria ++ r.orCriteria, ∀ raw ∈ c.values, raw.ReadsBack

instance (r : Request) : Decidable r.ReadsBack := by
  unfold ReadsBack
  infer_instance

variable {r : Request}

/-- The wire form of a request is readable. -/
theorem readable_toJson (h : r.ReadsBack) : r.toJson.Readable := by
  obtain ⟨hcriteria, halternatives⟩ := List.forall_mem_append.mp h
  rw [toJson_eq]
  apply Json.readable_ofFields
  simp only [fieldValues, List.forall_mem_cons]
  refine ⟨?_, ?_, ?_, ?_, ?_, ?_, List.forall_mem_nil _⟩
  · exact Json.readable_some (Json.readable_ofInt _)
  · exact Json.readable_some (Json.readable_ofInt _)
  · exact Json.readable_listField fun s _ => s.readable_toJson
  · cases r.criteriaOperator with
    | none => exact fun _ hjson => nomatch hjson
    | some operator => exact Json.readable_some (Json.readable_text _)
  · exact Json.readable_listField fun c hc => Criterion.readable_toJson (hcriteria c hc)
  · exact Json.readable_listField fun c hc => Criterion.readable_toJson (halternatives c hc)

/-- A list of criteria is read back with their tokens. -/
theorem withDefault_criteria {cs : List Criterion} (h : ∀ c ∈ cs, ∀ raw ∈ c.values, raw.ReadsBack) :
    Json.withDefault (Json.list? CriterionForm.ofJson?) [] (Json.listField Criterion.toJson cs) =
      some (cs.map Criterion.toForm) :=
  Json.withDefault_listField fun c hc => Criterion.ofJson?_toJson (h c hc)

/-- The tokens of criteria name their operators. -/
theorem mapM_toForm (cs : List Criterion) :
    (cs.map Criterion.toForm).mapM CriterionForm.toCriterion? = some cs := by
  rw [Json.mapM_map_eq_some fun c _ => c.toCriterion?_toForm, List.map_id']

/-- The fields of a request are read back, criteria with their tokens. -/
theorem ofJson?_form (h : r.ReadsBack) :
    RequestForm.ofJson? r.toJson = some ⟨r.page, r.size, r.sort, r.criteriaOperator,
      r.criteria.map Criterion.toForm, r.orCriteria.map Criterion.toForm⟩ := by
  obtain ⟨hcriteria, halternatives⟩ := List.forall_mem_append.mp h
  have hpage : Json.required uint32OfJson? (some (.number (.ofInt r.page.toNat))) = some r.page :=
    uint32OfJson?_ofInt r.page
  have hsize : Json.withDefault int32OfJson? 0 (some (.number (.ofInt r.size.toInt))) =
      some r.size := int32OfJson?_ofInt r.size
  have hsort : Json.withDefault (Json.list? SortDirective.ofJson?) []
      (Json.listField SortDirective.toJson r.sort) = some r.sort := by
    rw [Json.withDefault_listField fun s _ => SortDirective.ofJson?_toJson s, List.map_id']
  have hoperator : Json.withDefault optionalGroupOperator? none
      (r.criteriaOperator.map GroupOperator.toJson) = some r.criteriaOperator := by
    cases r.criteriaOperator with
    | none => rfl
    | some operator => cases operator <;> rfl
  rw [toJson_eq, RequestForm.ofJson?, Json.record?_ofFields (by decide) rfl]
  simp only [fieldValues, Option.bind_eq_bind, Option.bind_some, hpage, hsize, hsort, hoperator,
    withDefault_criteria hcriteria, withDefault_criteria halternatives]

/-- The wire form of a request is read back. -/
theorem ofJson?_toJson (h : r.ReadsBack) : ofJson? r.toJson = some r := by
  rw [ofJson?, ofJson?_form h, Option.bind_some, RequestForm.toRequest?]
  simp only [Option.bind_eq_bind, Option.bind_some, mapM_toForm]

/-- The body of a request is read back as the request, if the binary64 numbers in it are
spelled so that they are read back. -/
theorem ofBody_toBody (h : r.ReadsBack) : ofBody r.toBody = .ok r := by
  have hread : Json.read? r.toBody = some r.toJson := Json.read?_write (readable_toJson h)
  rw [ofBody, hread]
  simp only [ofJson?_toJson h]

/-- Quotes, control characters, the largest and smallest integers, texts that look like
numbers and whole binary64 numbers all come back. -/
theorem ofBody_toBody_mixed :
    let quoted : Criterion := ⟨"title, \"series\"", .isIn,
      [.text "a \\ \" \n \x01 \x7f ß 😀", .text "12", .text "", .bool true,
        .int Int64.minValue, .int Int64.maxValue]⟩
    let priced : Criterion := ⟨"price", .lesserThan,
      [.float (.ofRatio false 2 1), .float (.ofRatio true 0 1), .float (.ofRatio false 5 3)]⟩
    let r : Request :=
      { page := 4294967295, size := -2147483648, sort := [⟨"title", .descending⟩],
        criteria := [quoted, ⟨"isbn", .isNull, []⟩, priced] }
    r.ReadsBack ∧ ofBody r.toBody = .ok r := by
  intro quoted priced r
  have h : r.ReadsBack := by decide +kernel
  exact ⟨h, ofBody_toBody h⟩

/-- Of two binary64 numbers side by side, the digits of one may be read as the other. -/
example : ¬ (RawValue.float (.ofRatio false 271 3)).ReadsBack := by decide +kernel

end Request

end EntityQuery
