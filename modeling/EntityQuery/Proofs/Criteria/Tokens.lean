import EntityQuery.Failure
import EntityQuery.Proofs.Json.Records

/-!
# Bodies with unknown operators

A body whose form can be read is a request as soon as every token in it names an operator.
Otherwise its tokens are read once more without the rest of the form.  This second
reading finds the operator of a criterion by its key: where the body or one of its
criteria is spelled as an array, no token is found and the body counts as malformed.

Main results:

- Definition `RequestForm.ofBody?`: the form in a body, with operators as any texts.
- Definition `Request.SpelledWithKeys`: the request and its criteria are objects.
- Theorem `Request.tokensOfJson?_eq`: the second reading in terms of the form.
- Theorem `Request.ofBody_of_form`: what becomes of a body whose form can be read.
- Theorem `Request.ofBody_criterion_array`: an unknown operator in an array is not named.
-/

namespace EntityQuery

/-! ## Records with keys -/

namespace Json

/-- The tree is an object. -/
def isObject : Json → Bool
  | object _ => true
  | _ => false

/-- The items of an array. -/
def items : Json → List Json
  | array items => items
  | _ => []

section Results

variable {α β γ : Type} {f : α → Option β} {xs : List α} {ys : List β}

/-- A list of results has a result for each member. -/
theorem exists_of_mapM_cons {x : α} (h : (x :: xs).mapM f = some ys) :
    ∃ y rest, f x = some y ∧ xs.mapM f = some rest ∧ ys = y :: rest := by
  rw [List.mapM_cons] at h
  obtain ⟨y, hy, h⟩ := Option.bind_eq_some_iff.mp h
  obtain ⟨rest, hrest, h⟩ := Option.bind_eq_some_iff.mp h
  cases h
  exact ⟨y, rest, hy, hrest, rfl⟩

/-- A list has results exactly when its members have them one by one. -/
theorem mapM_eq_some_iff_forall₂ :
    xs.mapM f = some ys ↔ List.Forall₂ (fun x y => f x = some y) xs ys := by
  refine ⟨fun h => ?_, mapM_eq_some_of_forall₂⟩
  induction xs generalizing ys with
  | nil =>
      cases h
      exact .nil
  | cons x xs ih =>
      obtain ⟨y, rest, hy, hrest, rfl⟩ := exists_of_mapM_cons h
      exact .cons hy (ih hrest)

/-- A function that sees only some of the members that another one accepts has results for
a list when it sees all members. -/
theorem mapM_eq_ite {g : α → Option γ} {sees : α → Bool} {out : β → γ}
    (hg : ∀ x y, f x = some y → g x = if sees x then some (out y) else none)
    (h : xs.mapM f = some ys) :
    xs.mapM g = if xs.all sees then some (ys.map out) else none := by
  induction xs generalizing ys with
  | nil =>
      cases h
      rfl
  | cons x xs ih =>
      obtain ⟨y, rest, hy, hrest, rfl⟩ := exists_of_mapM_cons h
      rw [List.mapM_cons, hg x y hy, ih hrest, List.all_cons]
      cases sees x <;> cases xs.all sees <;> rfl

end Results

/-- At most one value is given for a field when none or one is there. -/
theorem atMostOne?_eq_some_iff {values : List Json} {value : Option Json} :
    atMostOne? values = some value ↔ values = value.toList := by
  unfold atMostOne?
  split
  · cases value <;> simp
  · cases value <;> simp [eq_comm]
  · next hnil hone =>
      cases value with
      | none => simpa using hnil
      | some v => simpa using hone v

/-- Entries whose keys all spell texts are those of the texts. -/
theorem eq_map_of_namedEntries? {entries : List (Option String × Json)}
    {named : List (String × Json)} (h : namedEntries? entries = some named) :
    entries = named.map fun (key, value) => (some key, value) := by
  induction entries generalizing named with
  | nil =>
      cases h
      rfl
  | cons entry entries ih =>
      obtain ⟨name, value⟩ := entry
      obtain ⟨first, rest, hfirst, hrest, rfl⟩ := exists_of_mapM_cons h
      obtain ⟨key, rfl, rfl⟩ := Option.map_eq_some_iff.mp hfirst
      rw [List.map_cons, ← ih hrest]

/-- The values under a name are those of the entries with the name. -/
theorem mem_valuesUnder {name : String} {named : List (String × Json)} {value : Json} :
    value ∈ valuesUnder [name] named ↔ (name, value) ∈ named := by
  simp [valuesUnder, eq_comm]

/-- An object is a record when its keys are texts and each field has at most one value. -/
theorem record?_object_eq_some_iff {fields : List (List String)}
    {entries : List (Option String × Json)} {values : List (Option Json)} :
    record? fields (object entries) = some values ↔ ∃ named, namedEntries? entries = some named ∧
      List.Forall₂ (fun names value => valuesUnder names named = value.toList) fields values := by
  simp only [record?, Option.bind_eq_some_iff, mapM_eq_some_iff_forall₂, atMostOne?_eq_some_iff]

/-- The first item of an array is the value of the first field. -/
theorem head_of_record?_array {fields : List (List String)} {item : Json} {items : List Json}
    {value : Option Json} {values : List (Option Json)}
    (h : record? fields (array (item :: items)) = some (value :: values)) : value = some item := by
  rw [record?] at h
  split at h
  · simp only [List.map_cons, List.cons_append, Option.some.injEq, List.cons.injEq] at h
    exact h.1.symm
  · cases h

end Json

/-! ## Tokens of criteria -/

namespace CriterionForm

/-- The form of a criterion has the token that is given for its operator. -/
theorem exists_record?_of_ofJson? {json : Json} {form : CriterionForm}
    (h : ofJson? json = some form) :
    ∃ column operator values, json.record? fields = some [column, operator, values] ∧
      Json.required Json.text? column = some form.column ∧
      Json.required Json.text? operator = some form.token := by
  obtain ⟨given, hgiven, h⟩ := Option.bind_eq_some_iff.mp h
  split at h
  · next column operator values =>
      obtain ⟨name, hname, h⟩ := Option.bind_eq_some_iff.mp h
      obtain ⟨token, htoken, h⟩ := Option.bind_eq_some_iff.mp h
      obtain ⟨_, -, h⟩ := Option.bind_eq_some_iff.mp h
      cases h
      exact ⟨column, operator, values, hgiven, hname, htoken⟩
  · cases h

end CriterionForm

namespace Request

/-- The operator of a criterion is found by its key: an array that spells a criterion is
too long to spell an operator alone. -/
theorem tokenOfJson?_eq {json : Json} {form : CriterionForm}
    (h : CriterionForm.ofJson? json = some form) :
    tokenOfJson? json = if json.isObject then some form.token else none := by
  obtain ⟨column, operator, values, hrecord, hcolumn, htoken⟩ :=
    CriterionForm.exists_record?_of_ofJson? h
  cases json with
  | object entries =>
      obtain ⟨named, hnamed, hfields⟩ := Json.record?_object_eq_some_iff.mp hrecord
      simp only [CriterionForm.fields, List.forall₂_cons] at hfields
      have hoperator : (Json.object entries).record? [["operator"]] = some [operator] :=
        Json.record?_object_eq_some_iff.mpr ⟨named, hnamed, .cons hfields.2.1 .nil⟩
      simp [tokenOfJson?, hoperator, htoken, Json.isObject]
  | array items =>
      match items with
      | [] =>
          cases hrecord
          cases hcolumn
      | [_] =>
          cases hrecord
          cases htoken
      | _ :: _ :: _ => simp [tokenOfJson?, Json.record?, Json.isObject]
  | _ => cases hrecord

/-- The criteria in a request: the items under its keys for criteria. -/
def criteriaTrees : Json → List Json
  | .object entries => entries.flatMap fun (key, value) =>
    if key = some "criteria" ∨ key = some "orCriteria" then value.items else []
  | _ => []

/-- The request and all criteria in it are spelled as objects. -/
def SpelledWithKeys (json : Json) : Bool :=
  json.isObject && (criteriaTrees json).all Json.isObject

/-- The tokens of a list of criteria are read when all of them are objects. -/
theorem withDefault_tokens {value : Option Json} {forms : List CriterionForm}
    (h : Json.withDefault (Json.list? CriterionForm.ofJson?) [] value = some forms) :
    Json.withDefault (Json.list? tokenOfJson?) [] value =
      if (value.toList.flatMap Json.items).all Json.isObject then some (forms.map (·.token))
      else none := by
  cases value with
  | none =>
      cases h
      rfl
  | some json =>
      cases json with
      | array items =>
          rw [Option.toList_some, List.flatMap_singleton]
          exact Json.mapM_eq_ite (fun _ _ => tokenOfJson?_eq) h
      | _ => cases h

/-- The criteria in an object are those of its two lists. -/
theorem all_isObject_criteriaTrees {entries : List (Option String × Json)}
    {named : List (String × Json)} (h : Json.namedEntries? entries = some named) :
    (criteriaTrees (.object entries)).all Json.isObject =
      (((Json.valuesUnder ["criteria"] named).flatMap Json.items).all Json.isObject &&
        ((Json.valuesUnder ["orCriteria"] named).flatMap Json.items).all Json.isObject) := by
  obtain rfl := Json.eq_map_of_namedEntries? h
  apply Bool.eq_iff_iff.mpr
  simp only [criteriaTrees, List.all_flatMap, List.all_map, List.all_eq_true, Bool.and_eq_true,
    Json.mem_valuesUnder, Option.some.injEq, Function.comp_apply, Prod.forall]
  constructor
  · intro hall
    refine ⟨fun json hjson => ?_, fun json hjson => ?_⟩
    · simpa using hall _ json hjson
    · simpa using hall _ json hjson
  · rintro ⟨hcriteria, halternatives⟩ key json hjson item hitem
    split at hitem
    · next hkey =>
        rcases hkey with rfl | rfl
        · exact hcriteria json hjson item hitem
        · exact halternatives json hjson item hitem
    · cases hitem

end Request

namespace RequestForm

/-- The form of a request has the criteria that are given under its two keys. -/
theorem exists_record?_of_ofJson? {json : Json} {form : RequestForm}
    (h : ofJson? json = some form) :
    ∃ page size sort operator criteria orCriteria,
      json.record? fields = some [page, size, sort, operator, criteria, orCriteria] ∧
      Json.required uint32OfJson? page = some form.page ∧
      Json.withDefault (Json.list? CriterionForm.ofJson?) [] criteria = some form.criteria ∧
      Json.withDefault (Json.list? CriterionForm.ofJson?) [] orCriteria = some form.orCriteria := by
  obtain ⟨given, hgiven, h⟩ := Option.bind_eq_some_iff.mp h
  split at h
  · next page size sort operator criteria orCriteria =>
      obtain ⟨_, hpage, h⟩ := Option.bind_eq_some_iff.mp h
      obtain ⟨_, -, h⟩ := Option.bind_eq_some_iff.mp h
      obtain ⟨_, -, h⟩ := Option.bind_eq_some_iff.mp h
      obtain ⟨_, -, h⟩ := Option.bind_eq_some_iff.mp h
      obtain ⟨_, hcriteria, h⟩ := Option.bind_eq_some_iff.mp h
      obtain ⟨_, horCriteria, h⟩ := Option.bind_eq_some_iff.mp h
      cases h
      exact ⟨page, size, sort, operator, criteria, orCriteria, hgiven, hpage, hcriteria, horCriteria⟩
  · cases h

end RequestForm

namespace Request

/-- A page is no list of criteria. -/
theorem list?_tokens_of_page {json : Json} {page : UInt32}
    (h : Json.required uint32OfJson? (some json) = some page) :
    Json.list? tokenOfJson? json = none := by
  cases json <;> first | rfl | cases h

/-- The tokens of a request are read when the request and its criteria are objects: an
array that spells a request begins with a page, where the criteria would be looked for. -/
theorem tokensOfJson?_eq {json : Json} {form : RequestForm}
    (h : RequestForm.ofJson? json = some form) :
    tokensOfJson? json = if SpelledWithKeys json then some form.tokens else none := by
  obtain ⟨page, size, sort, operator, criteria, orCriteria, hrecord, hpage, hcriteria,
    horCriteria⟩ := RequestForm.exists_record?_of_ofJson? h
  cases json with
  | object entries =>
      obtain ⟨named, hnamed, hfields⟩ := Json.record?_object_eq_some_iff.mp hrecord
      simp only [RequestForm.fields, List.forall₂_cons] at hfields
      obtain ⟨-, -, -, -, hunder, hunder', -⟩ := hfields
      have hlists : (Json.object entries).record? [["criteria"], ["orCriteria"]] =
          some [criteria, orCriteria] :=
        Json.record?_object_eq_some_iff.mpr ⟨named, hnamed, .cons hunder (.cons hunder' .nil)⟩
      simp only [tokensOfJson?, hlists, Option.bind_eq_bind, Option.bind_some,
        withDefault_tokens hcriteria, withDefault_tokens horCriteria, SpelledWithKeys,
        all_isObject_criteriaTrees hnamed, hunder, hunder', Json.isObject, Bool.true_and]
      cases (criteria.toList.flatMap Json.items).all Json.isObject <;>
        cases (orCriteria.toList.flatMap Json.items).all Json.isObject <;>
        simp [RequestForm.tokens]
  | array items =>
      match items with
      | [] =>
          cases hrecord
          cases hpage
      | first :: rest =>
          rw [Json.head_of_record?_array hrecord] at hpage
          have htokens : Json.list? tokenOfJson? first = none := list?_tokens_of_page hpage
          match rest with
          | [] | [_] | _ :: _ :: _ =>
            simp [tokensOfJson?, Json.record?, Json.withDefault, htokens, SpelledWithKeys,
              Json.isObject]
  | _ => cases hrecord

end Request

/-! ## Bodies -/

/-- A token that names no operator is a token of none. -/
theorem Operator.ofToken?_eq_none_iff {token : String} :
    ofToken? token = none ↔ ∀ op : Operator, op.token ≠ token := by
  rw [Option.eq_none_iff_forall_ne_some]
  simp only [ne_eq, ofToken?_eq_some_iff]

/-- Forms of criteria are criteria when each token names an operator. -/
theorem CriterionForm.exists_mapM_toCriterion? {forms : List CriterionForm}
    (h : ∀ form ∈ forms, ∃ op : Operator, op.token = form.token) :
    ∃ cs, forms.mapM toCriterion? = some cs := by
  induction forms with
  | nil => exact ⟨[], rfl⟩
  | cons form forms ih =>
      obtain ⟨op, hop⟩ := h form List.mem_cons_self
      obtain ⟨cs, hcs⟩ := ih fun f hf => h f (List.mem_cons_of_mem form hf)
      refine ⟨⟨form.column, op, form.values⟩ :: cs, ?_⟩
      rw [List.mapM_cons, toCriterion?, Operator.ofToken?_eq_some_iff.mpr hop, hcs]
      rfl

/-- A form whose token names no operator is no criterion. -/
theorem CriterionForm.mapM_toCriterion?_eq_none {forms : List CriterionForm}
    {form : CriterionForm} (hform : form ∈ forms) (h : ∀ op : Operator, op.token ≠ form.token) :
    forms.mapM toCriterion? = none := by
  rw [Option.eq_none_iff_forall_ne_some]
  intro cs hcs
  induction forms generalizing cs with
  | nil => cases hform
  | cons first forms ih =>
      obtain ⟨c, rest, hc, hrest, rfl⟩ := Json.exists_of_mapM_cons hcs
      rcases List.mem_cons.mp hform with rfl | hform
      · rw [toCriterion?, Operator.ofToken?_eq_none_iff.mpr h] at hc
        cases hc
      · exact ih hform rest hrest

namespace RequestForm

/-- The form in a body, in which operators are any texts. -/
def ofBody? (body : String) : Option RequestForm :=
  (Json.read? body).bind ofJson?

variable {form : RequestForm}

/-- A form whose tokens all name operators is a request. -/
theorem exists_toRequest? (h : ∀ token ∈ form.tokens, ∃ op : Operator, op.token = token) :
    ∃ r, form.toRequest? = some r := by
  simp only [tokens, List.forall_mem_map, List.forall_mem_append] at h
  obtain ⟨criteria, hcriteria⟩ := CriterionForm.exists_mapM_toCriterion? h.1
  obtain ⟨alternatives, halternatives⟩ := CriterionForm.exists_mapM_toCriterion? h.2
  rw [toRequest?, hcriteria, halternatives]
  exact ⟨_, rfl⟩

/-- A form with a token that names no operator is no request. -/
theorem toRequest?_eq_none {token : String} (htoken : token ∈ form.tokens)
    (h : ∀ op : Operator, op.token ≠ token) : form.toRequest? = none := by
  obtain ⟨c, hc, rfl⟩ := List.mem_map.mp htoken
  rcases List.mem_append.mp hc with hc | hc
  · simp [toRequest?, CriterionForm.mapM_toCriterion?_eq_none hc h]
  · simp [toRequest?, CriterionForm.mapM_toCriterion?_eq_none hc h]

end RequestForm

/-- The first of some tokens that names no operator is found. -/
theorem firstUnknown?_append_cons {known rest : List String} {token : String}
    (hknown : ∀ t ∈ known, ∃ op : Operator, op.token = t)
    (htoken : ∀ op : Operator, op.token ≠ token) :
    firstUnknown? (known ++ token :: rest) = some token := by
  rw [firstUnknown?, List.find?_eq_some_iff_append]
  refine ⟨by simp [Operator.ofToken?_eq_none_iff.mpr htoken], known, rest, rfl, ?_⟩
  intro t ht
  obtain ⟨op, hop⟩ := hknown t ht
  simp [Operator.ofToken?_eq_some_iff.mpr hop]

namespace Request

/-- The request in a body and all criteria in it are spelled as objects. -/
def BodySpelledWithKeys (body : String) : Bool :=
  (Json.read? body).any SpelledWithKeys

/-- A body whose form can be read is the request of the form if all tokens name
operators.  Otherwise the first token that names none is reported, if the request and its
criteria are spelled as objects, and else the body counts as malformed. -/
theorem ofBody_of_form {body : String} {form : RequestForm}
    (hform : RequestForm.ofBody? body = some form) :
    ((∀ token ∈ form.tokens, ∃ op : Operator, op.token = token) →
      ∃ r, form.toRequest? = some r ∧ ofBody body = .ok r) ∧
    ∀ known token rest, form.tokens = known ++ token :: rest →
      (∀ t ∈ known, ∃ op : Operator, op.token = t) → (∀ op : Operator, op.token ≠ token) →
      (BodySpelledWithKeys body = true → ofBody body = .error (.unknownOperator token) ∧
        (Failure.body (.unknownOperator token)).kind = .unsupportedOperator) ∧
      (BodySpelledWithKeys body = false → ofBody body = .error .malformed) := by
  obtain ⟨json, hread, hjson⟩ := Option.bind_eq_some_iff.mp hform
  have hrequest : ofJson? json = form.toRequest? := by
    rw [ofJson?, hjson, Option.bind_some]
  refine ⟨fun hall => ?_, fun known token rest htokens hknown htoken => ?_⟩
  · obtain ⟨r, hr⟩ := RequestForm.exists_toRequest? hall
    exact ⟨r, hr, by simp [ofBody, hread, hrequest, hr]⟩
  · have hmem : token ∈ form.tokens := by simp [htokens]
    have hnone : ofJson? json = none := by
      rw [hrequest, RequestForm.toRequest?_eq_none hmem htoken]
    have hspelled : BodySpelledWithKeys body = SpelledWithKeys json := by
      rw [BodySpelledWithKeys, hread, Option.any_some]
    have hfirst : firstUnknown? form.tokens = some token := by
      rw [htokens, firstUnknown?_append_cons hknown htoken]
    rw [hspelled]
    refine ⟨fun hkeys => ⟨?_, rfl⟩, fun hkeys => ?_⟩
    · simp [ofBody, hread, hnone, tokensOfJson?_eq hjson, hkeys, hfirst]
    · simp [ofBody, hread, hnone, tokensOfJson?_eq hjson, hkeys]

/-- The first unknown operator stands among the alternatives, behind a known one. -/
theorem ofBody_of_form_alternative :
    let known : Json := .object [(some "operator", .text (some "=")),
      (some "column", .text (some "age")), (some "values", .array [.number (.ofInt 40)])]
    let unknown : String → Json := fun token =>
      .object [(some "column", .text (some "title")), (some "operator", .text (some token))]
    let body := (Json.object [(some "page", .number (.ofInt 3)), (some "note", .null),
      (some "orCriteria", .array [unknown "~", unknown "between"]),
      (some "criteria", .array [known])]).write
    RequestForm.ofBody? body = some ⟨3, 0, [], none, [⟨"age", "=", [.int 40]⟩],
        [⟨"title", "~", []⟩, ⟨"title", "between", []⟩]⟩ ∧
      ofBody body = .error (.unknownOperator "~") := by
  intro known unknown body
  have hunknown : ∀ token, (unknown token).Readable := fun token =>
    Json.readable_object (by simp [Json.readable_text])
  have hcriterion : known.Readable := Json.readable_object (by
    simp [Json.readable_text, Json.readable_array, Json.readable_ofInt])
  have hread : Json.read? body = some _ := Json.read?_write (Json.readable_object (by
    simp [Json.readable_ofInt, Json.readable_null, Json.readable_array, hunknown, hcriterion]))
  have hform : RequestForm.ofBody? body = some ⟨3, 0, [], none, [⟨"age", "=", [.int 40]⟩],
      [⟨"title", "~", []⟩, ⟨"title", "between", []⟩]⟩ := by
    rw [RequestForm.ofBody?, hread]
    decide +kernel
  have hknown : ∀ t ∈ ["="], ∃ op : Operator, op.token = t := by
    intro t ht
    exact ⟨.equals, (List.mem_singleton.mp ht).symm⟩
  have hfirst := (ofBody_of_form hform).2 ["="] "~" ["between"] rfl hknown
    fun op => by cases op <;> decide
  have hkeys : BodySpelledWithKeys body = true := by
    rw [BodySpelledWithKeys, hread]
    decide +kernel
  exact ⟨hform, (hfirst.1 hkeys).1⟩

/-- An unknown operator in a criterion that is spelled as an array is not named: the body
counts as malformed although its form can be read. -/
theorem ofBody_criterion_array :
    let criterion : Json := .array [.text (some "age"), .text (some "between"),
      .array [.number (.ofInt 1), .number (.ofInt 2)]]
    let body := (Json.object [(some "page", .number (.ofInt 0)),
      (some "criteria", .array [criterion])]).write
    RequestForm.ofBody? body = some ⟨0, 0, [], none, [⟨"age", "between", [.int 1, .int 2]⟩], []⟩ ∧
      (∀ op : Operator, op.token ≠ "between") ∧ ofBody body = .error .malformed ∧
      (Failure.body .malformed).kind = .validation := by
  intro criterion body
  have hcriterion : criterion.Readable := Json.readable_array (by
    simp [Json.readable_text, Json.readable_array, Json.readable_ofInt])
  have hread : Json.read? body = some _ := Json.read?_write (Json.readable_object (by
    simp [Json.readable_ofInt, Json.readable_array, hcriterion]))
  rw [RequestForm.ofBody?, ofBody, hread]
  exact ⟨by decide +kernel, fun op => by cases op <;> decide, by decide +kernel, rfl⟩

end Request

end EntityQuery
