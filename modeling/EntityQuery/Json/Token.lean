import EntityQuery.Json.Number
import EntityQuery.Text.Hex

/-!
# Tokens of JSON

A JSON text is a sequence of tokens with blanks between them.  Texts are kept with
their escapes resolved; a text whose escapes name half of a surrogate pair has no
value, although it may stand where values are skipped.

Main results:

- Definition `Token.ofChars?`: the tokens of a text.
- Definition `Token.chars`: the characters of a token.
- Theorem `textElements?_length`: reading a text uses up characters.
-/

namespace EntityQuery.Json

/-! ## Texts -/

/-- A part of a text: a character as such, or a UTF-16 unit named by an escape. -/
inductive TextElement where
  | char (c : Char)
  | unit (n : Nat)
deriving DecidableEq

namespace TextElement

/-- Whether a unit is the first half of a surrogate pair. -/
def isHigh (n : Nat) : Bool := 0xD800 ≤ n && n < 0xDC00

/-- Whether a unit is the second half of a surrogate pair. -/
def isLow (n : Nat) : Bool := 0xDC00 ≤ n && n < 0xE000

/-- The character of a surrogate pair. -/
def pair (high low : Nat) : Char :=
  Char.ofNat (0x10000 + (high - 0xD800) * 0x400 + (low - 0xDC00))

/-- The characters that elements stand for; halves of pairs must come together. -/
def resolve? : List TextElement → Option (List Char)
  | [] => some []
  | .char c :: es => (resolve? es).map (c :: ·)
  | .unit n :: .unit m :: es =>
    if isHigh n && isLow m then (resolve? es).map (pair n m :: ·)
    else if isHigh n || isLow n then none
    else (resolve? (.unit m :: es)).map (Char.ofNat n :: ·)
  | .unit n :: es =>
    if isHigh n || isLow n then none else (resolve? es).map (Char.ofNat n :: ·)

end TextElement

/-- The character that an escape of one letter names. -/
def escaped? : Char → Option Char
  | '"' => some '"'
  | '\\' => some '\\'
  | '/' => some '/'
  | 'b' => some '\x08'
  | 'f' => some '\x0c'
  | 'n' => some '\n'
  | 'r' => some '\r'
  | 't' => some '\t'
  | _ => none

/-- The elements of a text after its opening quote, and what follows the closing one.
Control characters must be escaped. -/
def textElements? : List Char → Option (List TextElement × List Char)
  | [] => none
  | '"' :: rest => some ([], rest)
  | '\\' :: 'u' :: a :: b :: c :: d :: rest =>
    match Text.hexOfChars? [a, b, c, d], textElements? rest with
    | some n, some (es, rest') => some (.unit n :: es, rest')
    | _, _ => none
  | '\\' :: e :: rest =>
    match escaped? e, textElements? rest with
    | some c, some (es, rest') => some (.char c :: es, rest')
    | _, _ => none
  | c :: rest =>
    if c = '\\' ∨ c.toNat < 0x20 then none
    else (textElements? rest).map fun (es, rest') => (.char c :: es, rest')

/-- Reading a text uses up characters. -/
theorem textElements?_length {cs : List Char} {es : List TextElement} {rest : List Char}
    (h : textElements? cs = some (es, rest)) : rest.length < cs.length := by
  fun_induction textElements? cs generalizing es rest with
  | case1 => cases h
  | case2 => cases h; simp
  | case3 a b c d rest' n es' rest'' hrec hhex ih =>
    cases h
    have := ih hrec
    simp only [List.length_cons]; omega
  | case4 => cases h
  | case5 e rest' _ c es' rest'' hrec hesc ih =>
    cases h
    have := ih hrec
    simp only [List.length_cons]; omega
  | case6 => cases h
  | case7 => cases h
  | case8 c rest' _ _ _ _ ih =>
    obtain ⟨⟨es', rest''⟩, hrec, hr⟩ := Option.map_eq_some_iff.1 h
    cases hr
    have := ih hrec
    simp only [List.length_cons]; omega

/-- How a character is written inside a text. -/
def escapeChar (c : Char) : List Char :=
  if c = '"' then ['\\', '"']
  else if c = '\\' then ['\\', '\\']
  else if c = '\x08' then ['\\', 'b']
  else if c = '\x0c' then ['\\', 'f']
  else if c = '\n' then ['\\', 'n']
  else if c = '\r' then ['\\', 'r']
  else if c = '\t' then ['\\', 't']
  else if c.toNat < 0x20 then '\\' :: 'u' :: Text.hexChars 4 c.toNat
  else [c]

/-! ## Tokens -/

/-- A token; a text is `none` when its escapes do not spell one. -/
inductive Token where
  | openArray
  | closeArray
  | openObject
  | closeObject
  | comma
  | colon
  | null
  | bool (value : Bool)
  | number (value : Number)
  | text (value : Option String)
deriving DecidableEq

namespace Token

/-- The characters of a token; a text without a value is written as the empty text. -/
def chars : Token → List Char
  | openArray => ['[']
  | closeArray => [']']
  | openObject => ['\x7b']
  | closeObject => ['\x7d']
  | comma => [',']
  | colon => [':']
  | null => ['n', 'u', 'l', 'l']
  | bool true => ['t', 'r', 'u', 'e']
  | bool false => ['f', 'a', 'l', 's', 'e']
  | number n => n.chars
  | text s => '"' :: ((s.getD "").toList.flatMap escapeChar ++ ['"'])

/-- The blanks between tokens. -/
def isSpace (c : Char) : Bool :=
  c == ' ' || c == '\n' || c == '\t' || c == '\r'

/-- The characters that numbers are made of. -/
def isNumberChar (c : Char) : Bool :=
  c.isDigit || c == '-' || c == '+' || c == '.' || c == 'e' || c == 'E'

/-- A token of one character. -/
def ofChar? : Char → Option Token
  | '[' => some openArray
  | ']' => some closeArray
  | '\x7b' => some openObject
  | '\x7d' => some closeObject
  | ',' => some comma
  | ':' => some colon
  | _ => none

/-- The token at the start of a text and what follows it.  A number takes all
characters that numbers are made of. -/
def first? (c : Char) (cs : List Char) : Option (Token × List Char) :=
  match ofChar? c with
  | some t => some (t, cs)
  | none =>
    if c = '"' then
      (textElements? cs).map fun (es, rest) =>
        (text ((TextElement.resolve? es).map String.ofList), rest)
    else if isNumberChar c then
      (Number.ofChars? (c :: cs.takeWhile isNumberChar)).map fun n =>
        (number n, cs.dropWhile isNumberChar)
    else
      match c, cs with
      | 'n', 'u' :: 'l' :: 'l' :: rest => some (null, rest)
      | 't', 'r' :: 'u' :: 'e' :: rest => some (bool true, rest)
      | 'f', 'a' :: 'l' :: 's' :: 'e' :: rest => some (bool false, rest)
      | _, _ => none

theorem dropWhile_length_le (p : Char → Bool) (cs : List Char) :
    (cs.dropWhile p).length ≤ cs.length :=
  (List.dropWhile_sublist p).length_le

/-- A token leaves no more characters than stood behind its first one. -/
theorem first?_length {c : Char} {cs : List Char} {t : Token} {rest : List Char}
    (h : first? c cs = some (t, rest)) : rest.length ≤ cs.length := by
  unfold first? at h
  split at h
  · cases h; exact Nat.le_refl _
  · split at h
    · obtain ⟨⟨es, rest'⟩, he, hr⟩ := Option.map_eq_some_iff.1 h
      cases hr
      exact Nat.le_of_lt (textElements?_length he)
    · split at h
      · obtain ⟨n, _, hr⟩ := Option.map_eq_some_iff.1 h
        cases hr
        exact dropWhile_length_le _ _
      · split at h <;> cases h
        all_goals simp only [List.length_cons]; omega

/-- The tokens of a text. -/
def ofChars? : List Char → Option (List Token)
  | [] => some []
  | c :: cs =>
    if isSpace c then ofChars? cs
    else
      match h : first? c cs with
      | none => none
      | some (t, rest) =>
        have : rest.length < cs.length + 1 := Nat.lt_succ_of_le (first?_length h)
        (ofChars? rest).map (t :: ·)
termination_by cs => cs.length

end Token

end EntityQuery.Json
