import EntityQuery.Config.Basic
import EntityQuery.Criteria.Wire

/-!
# Configurations in JSON

The wire form of a configuration is a record in which every field may be left out and
no other key may occur.

Main results:

- Definitions `Config.toJson` and `Config.ofJson?`: the wire form.
-/

namespace EntityQuery

/-- The only character of a text. -/
def onlyChar? (s : String) : Option Char :=
  match s.toList with
  | [c] => some c
  | _ => none

namespace Config

/-- The fields of a configuration. -/
def fields : List (List String) :=
  [["max_page_size"], ["default_criteria_operator"], ["escape_char"]]

/-- The wire form of a configuration. -/
def toJson (c : Config) : Json :=
  .object [(some "max_page_size", .number (.ofInt c.maxPageSize.toNat)),
    (some "default_criteria_operator", c.defaultOperator.toJson),
    (some "escape_char", .text (some c.escape.toString))]

/-- The configuration that a record spells. -/
def ofJson? (json : Json) : Option Config := do
  if json.hasOnly fields then
    match ← json.record? fields with
    | [size, operator, escape] =>
      some {
        maxPageSize := ← Json.withDefault uint32OfJson? largestPageSize size
        defaultOperator := ← Json.withDefault GroupOperator.ofJson? .and operator
        escape := ← Json.withDefault (fun j => j.text?.bind onlyChar?) defaultEscape escape }
    | _ => none
  else none

end Config

end EntityQuery
