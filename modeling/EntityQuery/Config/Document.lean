import EntityQuery.Config.Wire
import EntityQuery.Toml.Document

/-!
# Configurations in documents

A configuration is loaded from a TOML document.  Every setting may be left out and no
other may occur; the settings that are read must make up a valid configuration.

Main results:

- Definition `Config.ofDocument`: the configuration in a document.
-/

namespace EntityQuery.Config

/-- A page size is a whole number of 32 bits. -/
def sizeOfItem? : Toml.Item → Option UInt32
  | .integer n => if 0 ≤ n ∧ n < 0x100000000 then some (UInt32.ofNat n.toNat) else none
  | _ => none

/-- A choice without contents is a text, or a table with one empty entry. -/
def choiceOfItem? : Toml.Item → Option String
  | .text name => some name
  | .table _ [(name, .emptyArray)] => some name
  | .table _ [(name, .table _ [])] => some name
  | _ => none

/-- An escape character is a text of one character. -/
def escapeOfItem? : Toml.Item → Option Char
  | .text s => onlyChar? s
  | _ => none

/-- Take over one setting. -/
def set? (c : Config) : String × Toml.Item → Option Config
  | ("max_page_size", item) => (sizeOfItem? item).map fun n => { c with maxPageSize := n }
  | ("default_criteria_operator", item) =>
    ((choiceOfItem? item).bind GroupOperator.ofName?).map fun op => { c with defaultOperator := op }
  | ("escape_char", item) => (escapeOfItem? item).map fun e => { c with escape := e }
  | _ => none

/-- The settings of a document, on top of the defaults. -/
def ofEntries? (entries : Toml.Entries) : Option Config :=
  entries.foldlM set? {}

/-- The configuration in a document, if it is a valid one. -/
def ofDocument (text : String) : Except ConfigError Config :=
  match (Toml.read? text).bind ofEntries? with
  | none => .error .unreadable
  | some config =>
    match config.validate with
    | .error e => .error e
    | .ok () => .ok config

end EntityQuery.Config
