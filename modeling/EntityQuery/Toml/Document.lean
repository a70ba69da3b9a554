import EntityQuery.Toml.Token
import EntityQuery.Text.Integer

/-!
# TOML documents

The part of TOML that settings use: texts, whole numbers, tables in all their forms and
empty arrays.  A document with any other value is refused.  A machine goes through the
tokens once, with the inline tables that are still open on a stack.  Inside an inline
table a line may end anywhere but within a dotted key.

Main results:

- Definition `read?`: the entries of a document.
- Definitions `define?` and `openTable?`: how keys and headers add to a table.
-/

namespace EntityQuery.Toml

/-! ## Values and tables -/

/-- How a table came about, which decides what may still be added to it. -/
inductive Origin where
  | implied
  | headed
  | dotted
  | inline
deriving DecidableEq, Repr

/-- A value of a document. -/
inductive Item where
  | text (value : String)
  | integer (value : Int)
  | emptyArray
  | table (origin : Origin) (entries : List (String × Item))

/-- The entries of a table. -/
abbrev Entries := List (String × Item)

/-- Replace the value of a key that is there. -/
def replace (key : String) (item : Item) (entries : Entries) : Entries :=
  entries.map fun entry => if entry.1 = key then (key, item) else entry

/-- Give a value to a dotted key.  Tables on the way are made, or were made by dotted
keys before; the last key must be new. -/
def define? : List String → Item → Entries → Option Entries
  | [], _, _ => none
  | [key], item, entries =>
    match entries.lookup key with
    | none => some (entries ++ [(key, item)])
    | some _ => none
  | key :: path, item, entries =>
    match entries.lookup key with
    | none => (define? path item []).map fun sub => entries ++ [(key, .table .dotted sub)]
    | some (.table .dotted old) =>
      (define? path item old).map fun sub => replace key (.table .dotted sub) entries
    | some _ => none

/-- Open the table of a header.  It must be new, or have been implied by a longer header
before. -/
def openTable? : List String → Entries → Option Entries
  | [], _ => none
  | [key], entries =>
    match entries.lookup key with
    | none => some (entries ++ [(key, .table .headed [])])
    | some (.table .implied old) => some (replace key (.table .headed old) entries)
    | some _ => none
  | key :: path, entries =>
    match entries.lookup key with
    | none => (openTable? path []).map fun sub => entries ++ [(key, .table .implied sub)]
    | some (.table .inline _) => none
    | some (.table origin old) =>
      (openTable? path old).map fun sub => replace key (.table origin sub) entries
    | some _ => none

/-- Give a value to a dotted key inside the table of a header. -/
def defineIn? : List String → List String → Item → Entries → Option Entries
  | [], path, item, entries => define? path item entries
  | key :: header, path, item, entries =>
    match entries.lookup key with
    | some (.table origin old) =>
      (defineIn? header path item old).map fun sub => replace key (.table origin sub) entries
    | _ => none

/-! ## Numbers and keys -/

/-- Digits with single underscores between them, without the underscores. -/
def digits? (isDigit : Char → Bool) : List Char → Option (List Char)
  | [] => none
  | [c] => if isDigit c then some [c] else none
  | c :: '_' :: cs => if isDigit c then (digits? isDigit cs).map (c :: ·) else none
  | c :: cs => if isDigit c then (digits? isDigit cs).map (c :: ·) else none

/-- A decimal number without a sign and without zeros in front. -/
def decimal? (cs : List Char) : Option Nat :=
  match digits? Char.isDigit cs with
  | some ('0' :: _ :: _) => none
  | some ds => some (Nat.ofDigitChars 10 ds 0)
  | none => none

/-- A number in a base of at most sixteen. -/
def inBase? (base : Nat) (cs : List Char) : Option Nat :=
  let isDigit := fun c => match Text.hexValue? c with
    | some d => decide (d < base)
    | none => false
  (digits? isDigit cs).map fun ds =>
    ds.foldl (fun n c => base * n + (Text.hexValue? c).getD 0) 0

/-- The whole number that a word spells, if it fits in 64 bits. -/
def integer? (word : List Char) : Option Int :=
  let value : Option Int := match word with
    | '+' :: cs => (decimal? cs).map Int.ofNat
    | '-' :: cs => (decimal? cs).map fun n => -(Int.ofNat n)
    | '0' :: 'x' :: cs => (inBase? 16 cs).map Int.ofNat
    | '0' :: 'o' :: cs => (inBase? 8 cs).map Int.ofNat
    | '0' :: 'b' :: cs => (inBase? 2 cs).map Int.ofNat
    | cs => (decimal? cs).map Int.ofNat
  value.bind fun n => if -0x8000000000000000 ≤ n ∧ n < 0x8000000000000000 then some n else none

/-- The key that a token is: a bare word or a quoted text on one line. -/
def key? : Token → Option String
  | .word cs => if cs.contains '+' then none else some (String.ofList cs)
  | .text cs false => some (String.ofList cs)
  | _ => none

/-! ## Documents -/

/-- An inline table that is still open: what it holds so far, and the key it belongs
to. -/
structure Frame where
  entries : Entries
  path : List String

/-- What the machine expects next.  Paths are kept in reverse. -/
inductive Expected where
  | statement
  | header (path : List String)
  | afterHeader (path : List String)
  | key (path : List String)
  | afterKey (path : List String)
  | equalsSign (path : List String)
  | value (path : List String)
  | arrayEnd (path : List String)
  | entry
  | afterEntry
  | lineEnd

/-- The state of the machine: the document so far, the header it is under, and the open
inline tables. -/
structure State where
  document : Entries
  header : List String
  stack : List Frame
  expected : Expected

/-- Give a value to the key it stands behind. -/
def State.complete? (s : State) (path : List String) (item : Item) : Option State :=
  match s.stack with
  | [] =>
    (defineIn? s.header path.reverse item s.document).map fun document =>
      { s with document, expected := .lineEnd }
  | frame :: stack =>
    (define? path.reverse item frame.entries).map fun entries =>
      { s with stack := { frame with entries } :: stack, expected := .afterEntry }

/-- Close the innermost inline table. -/
def State.close? (s : State) : Option State :=
  match s.stack with
  | [] => none
  | frame :: stack =>
    { s with stack }.complete? frame.path (.table .inline frame.entries)

/-- Take one token. -/
def State.step? (s : State) (t : Token) : Option State :=
  match s.expected, t with
  | .statement, .newline => some s
  | .statement, .openBracket => some { s with expected := .header [] }
  | .statement, t => (key? t).map fun key => { s with expected := .afterKey [key] }
  | .header path, t => (key? t).map fun key => { s with expected := .afterHeader (key :: path) }
  | .afterHeader path, .dot => some { s with expected := .header path }
  | .afterHeader path, .closeBracket =>
    (openTable? path.reverse s.document).map fun document =>
      { s with document, header := path.reverse, expected := .lineEnd }
  | .key path, t => (key? t).map fun key => { s with expected := .afterKey (key :: path) }
  | .afterKey path, .dot => some { s with expected := .key path }
  | .afterKey path, .equals => some { s with expected := .value path }
  | .afterKey path, .newline =>
    if s.stack.isEmpty then none else some { s with expected := .equalsSign path }
  | .equalsSign _, .newline => some s
  | .equalsSign path, .equals => some { s with expected := .value path }
  | .value _, .newline => if s.stack.isEmpty then none else some s
  | .value path, .word cs => (integer? cs).bind fun n => s.complete? path (.integer n)
  | .value path, .text cs _ => s.complete? path (.text (String.ofList cs))
  | .value path, .openBracket => some { s with expected := .arrayEnd path }
  | .value path, .openBrace =>
    some { s with stack := ⟨[], path⟩ :: s.stack, expected := .entry }
  | .arrayEnd _, .newline => some s
  | .arrayEnd path, .closeBracket => s.complete? path .emptyArray
  | .entry, .newline => some s
  | .entry, .closeBrace => s.close?
  | .entry, t => (key? t).map fun key => { s with expected := .afterKey [key] }
  | .afterEntry, .newline => some s
  | .afterEntry, .comma => some { s with expected := .entry }
  | .afterEntry, .closeBrace => s.close?
  | .lineEnd, .newline => some { s with expected := .statement }
  | _, _ => none

/-- The document when the tokens end. -/
def State.finish? (s : State) : Option Entries :=
  match s.expected with
  | .statement | .lineEnd => some s.document
  | _ => none

/-- The entries of a document. -/
def read? (text : String) : Option Entries :=
  (Token.ofChars? text.toList).bind fun tokens =>
    (tokens.foldlM State.step? ⟨[], [], [], .statement⟩).bind State.finish?

end EntityQuery.Toml
