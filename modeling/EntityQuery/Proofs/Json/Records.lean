import EntityQuery.Json.Record
import EntityQuery.Proofs.Json.Reading
import Mathlib.Data.List.Forall2

/-!
# Reading back records

A record is written as an object with a key for each field that is given.  When every
field knows exactly one of the keys, the values are read back field by field, and those
of fields that are not given are found missing.

Main results:

- Definition `ofFields`: the object of the fields that are given.
- Theorem `record?_ofFields`: its values are read back.
- Theorem `list?_array_map`: lists are read back item by item.
-/

namespace EntityQuery.Json

/-! ## Results of lists -/

/-- A list of results is the list of the values when each result is a value. -/
theorem mapM_eq_some_of_forall₂ {α β : Type} {f : α → Option β} {xs : List α} {ys : List β}
    (h : List.Forall₂ (fun x y => f x = some y) xs ys) : xs.mapM f = some ys := by
  induction h with
  | nil => rfl
  | cons hx _ ih =>
      rw [List.mapM_cons, hx, ih]
      rfl

/-- Decoding what was encoded item by item. -/
theorem mapM_map_eq_some {α β γ : Type} {encode : α → β} {decode : β → Option γ} {f : α → γ}
    {xs : List α} (h : ∀ x ∈ xs, decode (encode x) = some (f x)) :
    (xs.map encode).mapM decode = some (xs.map f) := by
  apply mapM_eq_some_of_forall₂
  rw [List.forall₂_map_left_iff, List.forall₂_map_right_iff]
  exact List.forall₂_same.mpr h

/-- A list is read back item by item. -/
theorem list?_array_map {α γ : Type} {encode : α → Json} {decode : Json → Option γ} {f : α → γ}
    {xs : List α} (h : ∀ x ∈ xs, decode (encode x) = some (f x)) :
    list? decode (array (xs.map encode)) = some (xs.map f) :=
  mapM_map_eq_some h

/-! ## Objects of fields -/

/-- The keys of the fields that are given, with their values. -/
def given (keys : List String) (values : List (Option Json)) : List (String × Json) :=
  (keys.zip values).filterMap fun (key, value) => value.map fun v => (key, v)

/-- The object of the fields that are given. -/
def ofFields (keys : List String) (values : List (Option Json)) : Json :=
  object ((given keys values).map fun (key, value) => (some key, value))

/-- Every key of such an object spells a text. -/
theorem namedEntries?_map (entries : List (String × Json)) :
    namedEntries? (entries.map fun (key, value) => (some key, value)) = some entries := by
  have h : ∀ entry ∈ entries,
      namedEntry? ((fun (key, value) => (some key, value)) entry) = some (id entry) :=
    fun _ _ => rfl
  have hread := mapM_map_eq_some h
  rw [List.map_id] at hread
  exact hread

/-- An object of readable values is readable. -/
theorem readable_ofFields {keys : List String} {values : List (Option Json)}
    (h : ∀ value ∈ values, ∀ json ∈ value, json.Readable) : (ofFields keys values).Readable := by
  apply readable_object
  intro entry hentry
  obtain ⟨⟨key, json⟩, hgiven, rfl⟩ := List.mem_map.mp hentry
  obtain ⟨⟨key', value⟩, hzip, hvalue⟩ := List.mem_filterMap.mp hgiven
  obtain ⟨json', hjson, heq⟩ := Option.map_eq_some_iff.mp hvalue
  cases heq
  exact ⟨Option.some_ne_none key, h value (List.of_mem_zip hzip).2 json hjson⟩

/-! ## Fields that may be left out -/

/-- The value of a field that is given is readable. -/
theorem readable_some {json : Json} (h : json.Readable) : ∀ j ∈ some json, j.Readable := by
  rintro j ⟨⟩
  exact h

section Lists

variable {α β : Type} {encode : α → Json} {xs : List α}

/-- The field of a list: nothing for an empty one. -/
def listField (encode : α → Json) (xs : List α) : Option Json :=
  if xs.isEmpty then none else some (array (xs.map encode))

theorem readable_listField (h : ∀ x ∈ xs, (encode x).Readable) :
    ∀ json ∈ listField encode xs, json.Readable := by
  unfold listField
  split
  · exact fun _ hjson => nomatch hjson
  · apply readable_some
    apply readable_array
    rw [List.forall_mem_map]
    exact h

/-- A list is read back, and one that is left out is empty. -/
theorem withDefault_listField {decode : Json → Option β} {f : α → β}
    (h : ∀ x ∈ xs, decode (encode x) = some (f x)) :
    withDefault (list? decode) [] (listField encode xs) = some (xs.map f) := by
  cases xs with
  | nil => rfl
  | cons x xs => exact list?_array_map h

end Lists

/-! ## Reading fields -/

variable {names : List String} {keys : List String} {values : List (Option Json)}

/-- Names have the value that is given for the first key if it is one of them. -/
theorem valuesUnder_given_cons (names : List String) (key : String) (keys : List String)
    (value : Option Json) (values : List (Option Json)) :
    valuesUnder names (given (key :: keys) (value :: values)) =
      (if names.contains key then value.toList else []) ++ valuesUnder names (given keys values) := by
  cases value with
  | none => simp [given]
  | some v =>
      simp only [given, valuesUnder, List.zip_cons_cons, List.filterMap_cons, Option.map_some,
        List.filter_cons]
      split <;> rfl

/-- Names that are no keys have no values. -/
theorem valuesUnder_given_eq_nil (h : keys.filter names.contains = []) :
    valuesUnder names (given keys values) = [] := by
  induction keys generalizing values with
  | nil => rfl
  | cons key keys ih =>
      obtain ⟨hkey, hkeys⟩ := List.forall_mem_cons.mp (List.filter_eq_nil_iff.mp h)
      cases values with
      | nil => rfl
      | cons value values =>
          rw [valuesUnder_given_cons, if_neg hkey, ih (List.filter_eq_nil_iff.mpr hkeys)]
          rfl

/-- Names of which one is a key have the value that is given for it. -/
theorem valuesUnder_given {key : String} {value : Option Json}
    (h : keys.filter names.contains = [key]) (hmem : (key, value) ∈ keys.zip values) :
    valuesUnder names (given keys values) = value.toList := by
  induction keys generalizing values with
  | nil => cases h
  | cons key' keys ih =>
      cases values with
      | nil => cases hmem
      | cons value' values =>
          rw [valuesUnder_given_cons]
          rw [List.zip_cons_cons, List.mem_cons] at hmem
          by_cases hkey : names.contains key' = true
          · rw [List.filter_cons_of_pos hkey, List.cons.injEq] at h
            obtain ⟨rfl, hnone⟩ := h
            rw [if_pos hkey, valuesUnder_given_eq_nil hnone, List.append_nil]
            -- No later key is the same, since it would be one of the names too.
            rcases hmem with heq | hlater
            · rw [(Prod.mk.inj heq).2]
            · exact absurd hkey (List.filter_eq_nil_iff.mp hnone _ (List.of_mem_zip hlater).1)
          · rw [List.filter_cons_of_neg hkey] at h
            rw [if_neg hkey, List.nil_append]
            rcases hmem with heq | hlater
            · have hmem := List.of_mem_filter (h ▸ List.mem_singleton_self key)
              rw [(Prod.mk.inj heq).1] at hmem
              exact absurd hmem hkey
            · exact ih h hlater

/-- The values of an object are read back when each field knows one of the keys. -/
theorem record?_ofFields {fields : List (List String)}
    (h : fields.map (fun names => keys.filter names.contains) = keys.map ([·]))
    (hlength : values.length = keys.length) : record? fields (ofFields keys values) = some values := by
  have hfields : fields.length = keys.length := by
    simpa using congrArg List.length h
  have hread : fields.mapM (fun names => atMostOne? (valuesUnder names (given keys values))) =
      some values := by
    apply mapM_eq_some_of_forall₂
    refine List.forall₂_iff_get.mpr ⟨hfields.trans hlength.symm, ?_⟩
    intro i hi hi'
    have hkey : i < keys.length := hlength ▸ hi'
    have hknown : keys.filter fields[i].contains = [keys[i]] := by
      simpa [hi, hkey] using congrArg (·[i]?) h
    have hzip : i < (keys.zip values).length := by
      rw [List.length_zip]
      omega
    have hmem := List.getElem_mem hzip
    rw [List.getElem_zip] at hmem
    rw [List.get_eq_getElem, List.get_eq_getElem, valuesUnder_given hknown hmem]
    cases values[i] <;> rfl
  show (namedEntries? _).bind _ = _
  rw [namedEntries?_map]
  exact hread

end EntityQuery.Json
