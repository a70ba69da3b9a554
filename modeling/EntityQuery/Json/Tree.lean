import EntityQuery.Json.Token

/-!
# JSON trees

A tree is written as its tokens and read back by a machine that goes through the
tokens once, with the open arrays and objects on a stack.  Objects keep their entries
in order and with repetitions.

Main results:

- Definitions `Json.write` and `Json.read?`: text of a tree and tree of a text.
- Theorem `run_tokens`: from any stack, the machine reads the tokens of a tree as that
  tree.
- Theorem `ofTokens?_tokens`: the tokens of a tree are read back.
-/

namespace EntityQuery

/-! ## Trees -/

/-- A JSON value.  Texts and keys are `none` when their escapes do not spell a text. -/
inductive Json where
  | null
  | bool (value : Bool)
  | number (value : Json.Number)
  | text (value : Option String)
  | array (items : List Json)
  | object (entries : List (Option String × Json))

namespace Json

instance : Inhabited Json := ⟨null⟩

/-! ## Writing -/

mutual

/-- The tokens of a tree. -/
def tokens : Json → List Token
  | null => [.null]
  | bool value => [.bool value]
  | number value => [.number value]
  | text value => [.text value]
  | array [] => [.openArray, .closeArray]
  | array (item :: items) =>
    .openArray :: (item.tokens ++ itemTokens items ++ [.closeArray])
  | object [] => [.openObject, .closeObject]
  | object ((key, value) :: entries) =>
    .openObject :: .text key :: .colon :: (value.tokens ++ entryTokens entries ++ [.closeObject])

/-- The tokens of further items, each after a comma. -/
def itemTokens : List Json → List Token
  | [] => []
  | item :: items => .comma :: (item.tokens ++ itemTokens items)

/-- The tokens of further entries, each after a comma. -/
def entryTokens : List (Option String × Json) → List Token
  | [] => []
  | (key, value) :: entries =>
    .comma :: .text key :: .colon :: (value.tokens ++ entryTokens entries)

end

/-- The text of a tree, without blanks. -/
def write (json : Json) : String :=
  String.ofList (json.tokens.flatMap Token.chars)

/-! ## Reading -/

/-- An array or object that is still open: what it holds so far, the last first, and
the key that the next value belongs to. -/
inductive Frame where
  | array (items : List Json)
  | object (entries : List (Option String × Json)) (key : Option String)

/-- What the machine expects next. -/
inductive State where
  | value (stack : List Frame)
  | firstItem (stack : List Frame)
  | firstKey (stack : List Frame)
  | key (entries : List (Option String × Json)) (stack : List Frame)
  | colon (entries : List (Option String × Json)) (key : Option String) (stack : List Frame)
  | after (value : Json) (stack : List Frame)

namespace State

/-- Start a value. -/
def start? (stack : List Frame) : Token → Option State
  | .null => some (after .null stack)
  | .bool b => some (after (.bool b) stack)
  | .number n => some (after (.number n) stack)
  | .text t => some (after (.text t) stack)
  | .openArray => some (firstItem stack)
  | .openObject => some (firstKey stack)
  | _ => none

/-- Go on after a complete value: to the next item or entry, or out of what is open. -/
def continue? (v : Json) : List Frame → Token → Option State
  | .array items :: stack, .comma => some (value (.array (v :: items) :: stack))
  | .array items :: stack, .closeArray => some (after (.array (v :: items).reverse) stack)
  | .object entries k :: stack, .comma => some (key ((k, v) :: entries) stack)
  | .object entries k :: stack, .closeObject =>
    some (after (.object ((k, v) :: entries).reverse) stack)
  | _, _ => none

/-- Take one token. -/
def step? : State → Token → Option State
  | value stack, t => start? stack t
  | firstItem stack, .closeArray => some (after (.array []) stack)
  | firstItem stack, t => start? (.array [] :: stack) t
  | firstKey stack, .closeObject => some (after (.object []) stack)
  | firstKey stack, .text k => some (colon [] k stack)
  | key entries stack, .text k => some (colon entries k stack)
  | colon entries k stack, .colon => some (value (.object entries k :: stack))
  | after v stack, t => continue? v stack t
  | _, _ => none

/-- Take tokens one after another. -/
def run? (s : State) (ts : List Token) : Option State :=
  ts.foldlM step? s

@[simp] theorem run?_nil (s : State) : s.run? [] = some s := rfl

theorem run?_cons (s : State) (t : Token) (ts : List Token) :
    s.run? (t :: ts) = (s.step? t).bind (·.run? ts) := rfl

theorem run?_append (s : State) (ts us : List Token) :
    s.run? (ts ++ us) = (s.run? ts).bind (·.run? us) := by
  simp [run?, List.foldlM_append]

end State

/-- The tree that the tokens spell. -/
def ofTokens? (ts : List Token) : Option Json :=
  match (State.value []).run? ts with
  | some (.after v []) => some v
  | _ => none

/-- The tree that a text spells. -/
def read? (s : String) : Option Json :=
  (Token.ofChars? s.toList).bind ofTokens?

/-! ## Reading back -/

mutual

/-- From any stack, the machine reads the tokens of a tree as that tree. -/
theorem run_tokens (json : Json) (stack : List Frame) :
    (State.value stack).run? json.tokens = some (.after json stack) := by
  match json with
  | null | bool _ | number _ | text _ => rfl
  | array [] => rfl
  | array (item :: items) =>
    have hi := run_tokens item (.array [] :: stack)
    have hr := run_itemTokens items [] item stack
    have hs : (State.value stack).run? (array (item :: items)).tokens =
        ((State.value (.array [] :: stack)).run? item.tokens).bind fun s =>
          s.run? (itemTokens items ++ [.closeArray]) := by
      rw [tokens, State.run?_cons, List.append_assoc]
      show (State.firstItem stack).run? _ = _
      rw [State.run?_append]
      cases ht : item.tokens with
      | nil => exact absurd ht (tokens_ne_nil item)
      | cons t ts =>
        have hne : t ≠ .closeArray := fun h => head_tokens_ne item ts (h ▸ ht)
        rw [State.run?_cons, State.run?_cons]
        have : (State.firstItem stack).step? t = (State.value (.array [] :: stack)).step? t := by
          cases t <;> first | rfl | exact absurd rfl hne
        rw [this]
    rw [hs, hi]
    simpa using hr
  | object [] => rfl
  | object ((key, value) :: entries) =>
    have hi := run_tokens value (.object [] key :: stack)
    have hr := run_entryTokens entries [] key value stack
    have hs : (State.value stack).run? (object ((key, value) :: entries)).tokens =
        ((State.value (.object [] key :: stack)).run? value.tokens).bind fun s =>
          s.run? (entryTokens entries ++ [.closeObject]) := by
      rw [tokens, State.run?_cons, List.append_assoc]
      show (State.firstKey stack).run? _ = _
      rw [State.run?_cons]
      show (State.colon [] key stack).run? _ = _
      rw [State.run?_cons]
      show (State.value (.object [] key :: stack)).run? _ = _
      rw [State.run?_append]
    rw [hs, hi]
    simpa using hr

/-- Further items and the closing bracket complete an open array. -/
theorem run_itemTokens (items before : List Json) (last : Json) (stack : List Frame) :
    (State.after last (.array before :: stack)).run? (itemTokens items ++ [.closeArray]) =
      some (.after (.array (before.reverse ++ last :: items)) stack) := by
  match items with
  | [] => simp [itemTokens, State.run?_cons, State.step?, State.continue?]
  | item :: items =>
    have hi := run_tokens item (.array (last :: before) :: stack)
    have hr := run_itemTokens items (last :: before) item stack
    rw [itemTokens, List.cons_append, State.run?_cons, List.append_assoc]
    show (State.value (.array (last :: before) :: stack)).run? _ = _
    rw [State.run?_append, hi]
    simpa using hr

/-- Further entries and the closing brace complete an open object. -/
theorem run_entryTokens (entries before : List (Option String × Json)) (key : Option String)
    (last : Json) (stack : List Frame) :
    (State.after last (.object before key :: stack)).run? (entryTokens entries ++ [.closeObject]) =
      some (.after (.object (before.reverse ++ (key, last) :: entries)) stack) := by
  match entries with
  | [] => simp [entryTokens, State.run?_cons, State.step?, State.continue?]
  | (key', value) :: entries =>
    have hi := run_tokens value (.object ((key, last) :: before) key' :: stack)
    have hr := run_entryTokens entries ((key, last) :: before) key' value stack
    rw [entryTokens, List.cons_append, State.run?_cons]
    show (State.key ((key, last) :: before) stack).run? _ = _
    rw [List.cons_append, State.run?_cons]
    show (State.colon ((key, last) :: before) key' stack).run? _ = _
    rw [List.cons_append, State.run?_cons, List.append_assoc]
    show (State.value (.object ((key, last) :: before) key' :: stack)).run? _ = _
    rw [State.run?_append, hi]
    simpa using hr

/-- A tree has a token. -/
theorem tokens_ne_nil (json : Json) : json.tokens ≠ [] := by
  match json with
  | null | bool _ | number _ | text _ | array [] | object [] => simp [tokens]
  | array (_ :: _) | object ((_, _) :: _) => simp [tokens]

/-- No tree starts with a closing bracket. -/
theorem head_tokens_ne (json : Json) (ts : List Token) : json.tokens ≠ .closeArray :: ts := by
  match json with
  | null | bool _ | number _ | text _ | array [] | object [] => simp [tokens]
  | array (_ :: _) | object ((_, _) :: _) => simp [tokens]

end

/-- The tokens of a tree are read back. -/
theorem ofTokens?_tokens (json : Json) : ofTokens? json.tokens = some json := by
  simp [ofTokens?, run_tokens]

end Json

end EntityQuery
