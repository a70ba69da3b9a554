import EntityQuery.Json.Tree

/-!
# Records in JSON

A record with named fields may be spelled as an object or as an array of the fields'
values in order.  In an object each field occurs at most once, other keys are passed
over, and every key must spell a text; an array may leave out fields at the end.

Main results:

- Definition `Json.record?`: the values given for the fields of a record.
-/

namespace EntityQuery.Json

/-! ## Scalars and lists -/

/-- The text that a tree is. -/
def text? : Json → Option String
  | text value => value
  | _ => none

/-- The integer that a tree is. -/
def int? : Json → Option Int
  | number n => n.toInt?
  | _ => none

/-- The natural number below a bound that a tree is. -/
def natBelow? (bound : Nat) (json : Json) : Option Nat :=
  json.int?.bind fun n => if 0 ≤ n ∧ n < bound then some n.toNat else none

/-- The items of an array, each decoded. -/
def list? {α : Type} (decode : Json → Option α) : Json → Option (List α)
  | array items => items.mapM decode
  | _ => none

/-- The name of a choice without contents: a text, or the only key of an object whose
value is null. -/
def choice? : Json → Option String
  | text value => value
  | object [(key, null)] => key
  | _ => none

/-! ## Records -/

/-- The values in an object under any of the names of a field. -/
def valuesUnder (names : List String) (entries : List (String × Json)) : List Json :=
  (entries.filter fun entry => names.contains entry.1).map (·.2)

/-- At most one value may be given for a field. -/
def atMostOne? : List Json → Option (Option Json)
  | [] => some none
  | [v] => some (some v)
  | _ => none

/-- An entry whose key spells a text. -/
def namedEntry? (entry : Option String × Json) : Option (String × Json) :=
  entry.1.map fun key => (key, entry.2)

/-- The entries of an object, if all keys spell texts. -/
def namedEntries? (entries : List (Option String × Json)) : Option (List (String × Json)) :=
  entries.mapM namedEntry?

/-- The values given for the fields of a record, of which each is known by its names. -/
def record? (fields : List (List String)) : Json → Option (List (Option Json))
  | array items =>
    if items.length ≤ fields.length then
      some (items.map some ++ List.replicate (fields.length - items.length) none)
    else none
  | object entries =>
    (namedEntries? entries).bind fun named =>
      fields.mapM fun names => atMostOne? (valuesUnder names named)
  | _ => none

/-- Whether an object has only the keys of a record. -/
def hasOnly (fields : List (List String)) : Json → Bool
  | object entries => entries.all fun entry =>
    match entry.1 with
    | some key => fields.any (·.contains key)
    | none => false
  | _ => true

/-- Decode the value of a field that must be given. -/
def required {α : Type} (decode : Json → Option α) (value : Option Json) : Option α :=
  value.bind decode

/-- Decode the value of a field that may be left out. -/
def withDefault {α : Type} (decode : Json → Option α) (default : α) : Option Json → Option α
  | none => some default
  | some value => decode value

end EntityQuery.Json
