import EntityQuery.Text.Hex

/-!
# Tokens of TOML

A document of settings is a sequence of tokens: words, which are bare keys and numbers,
quoted texts, punctuation and line ends.  Blanks and comments separate tokens and leave
no trace.  A line end inside a text stands for itself, one or two characters, except right
behind the opening quotes; the closing quotes may follow up to two quotes of the text.

Main results:

- Definition `Token.ofChars?`: the tokens of a document.
-/

namespace EntityQuery.Toml

/-- A token.  Texts that may run over several lines are told apart, because keys may
not. -/
inductive Token where
  | word (value : List Char)
  | text (value : List Char) (multiline : Bool)
  | equals
  | dot
  | comma
  | openBrace
  | closeBrace
  | openBracket
  | closeBracket
  | newline
deriving DecidableEq

namespace Token

/-! ## Characters -/

/-- The characters of bare keys and of numbers without a point. -/
def isWordChar (c : Char) : Bool :=
  c.isAlphanum || c == '_' || c == '-' || c == '+'

/-- Control characters that may not stand in a comment or a text. -/
def isForbidden (c : Char) : Bool :=
  (c.toNat < 0x20 && c != '\t') || c.toNat == 0x7F

/-- A token of one character. -/
def ofChar? : Char → Option Token
  | '=' => some equals
  | '.' => some dot
  | ',' => some comma
  | '\x7b' => some openBrace
  | '\x7d' => some closeBrace
  | '[' => some openBracket
  | ']' => some closeBracket
  | _ => none

/-- The character that an escape of one letter names. -/
def escaped? : Char → Option Char
  | 'b' => some '\x08'
  | 't' => some '\t'
  | 'n' => some '\n'
  | 'f' => some '\x0c'
  | 'r' => some '\r'
  | 'e' => some '\x1b'
  | '"' => some '"'
  | '\\' => some '\\'
  | _ => none

/-- How many hexadecimal digits follow the letter of an escape. -/
def escapeWidth? : Char → Option Nat
  | 'x' => some 2
  | 'u' => some 4
  | 'U' => some 8
  | _ => none

/-- The character with a code, if there is one. -/
def scalar? (n : Nat) : Option Char :=
  if n.isValidChar then some (Char.ofNat n) else none

/-- Blanks and line ends, which a backslash at the end of a line skips. -/
def isSkipped (c : Char) : Bool :=
  c == ' ' || c == '\t' || c == '\n'

/-! ## Scanning -/

/-- Where the scanner is: between tokens, or inside one, with the characters read so far
in reverse. -/
inductive Mode where
  | between
  | word (before : List Char)
  | comment
  | basic (multiline : Bool) (before : List Char)
  | escape (multiline : Bool) (before : List Char)
  | digits (multiline : Bool) (missing value : Nat) (before : List Char)
  | lineEnd (seen : Bool) (before : List Char)
  | literal (multiline : Bool) (before : List Char)

/-- Whether a condition holds of the next character. -/
def nextIs (p : Char → Bool) : List Char → Bool
  | [] => false
  | c :: _ => p c

/-- Where the scanner is behind a character that a backslash at the end of a line skips,
given what follows and whether the line has ended.  A carriage return is skipped only as
a part of a line end. -/
def Mode.afterSkipped? (seen : Bool) (before : List Char) : List Char → Option Mode
  | '\r' :: '\n' :: _ => some (.lineEnd seen before)
  | cs =>
    if nextIs isSkipped cs then some (.lineEnd seen before)
    else if seen then some (.basic true before)
    else none

/-- The tokens of the characters from a place on. -/
def scan : Mode → List Char → Option (List Token)
  | .between, [] => some []
  | .between, '"' :: '"' :: '"' :: '\r' :: '\n' :: cs => scan (.basic true []) cs
  | .between, '"' :: '"' :: '"' :: '\n' :: cs => scan (.basic true []) cs
  | .between, '"' :: '"' :: '"' :: cs => scan (.basic true []) cs
  | .between, '"' :: cs => scan (.basic false []) cs
  | .between, '\'' :: '\'' :: '\'' :: '\r' :: '\n' :: cs => scan (.literal true []) cs
  | .between, '\'' :: '\'' :: '\'' :: '\n' :: cs => scan (.literal true []) cs
  | .between, '\'' :: '\'' :: '\'' :: cs => scan (.literal true []) cs
  | .between, '\'' :: cs => scan (.literal false []) cs
  | .between, '\r' :: '\n' :: cs => (scan .between cs).map (newline :: ·)
  | .between, c :: cs =>
    if c = '\n' then (scan .between cs).map (newline :: ·)
    else if c = ' ' ∨ c = '\t' then scan .between cs
    else if c = '#' then scan .comment cs
    else if isWordChar c then
      if nextIs isWordChar cs then scan (.word [c]) cs
      else (scan .between cs).map (word [c] :: ·)
    else
      match ofChar? c with
      | some t => (scan .between cs).map (t :: ·)
      | none => none
  | .word _, [] => none
  | .word before, c :: cs =>
    if nextIs isWordChar cs then scan (.word (c :: before)) cs
    else (scan .between cs).map (word (c :: before).reverse :: ·)
  | .comment, [] => some []
  | .comment, '\r' :: '\n' :: cs => (scan .between cs).map (newline :: ·)
  | .comment, c :: cs =>
    if c = '\n' then (scan .between cs).map (newline :: ·)
    else if isForbidden c then none
    else scan .comment cs
  | .basic false before, '"' :: cs => (scan .between cs).map (text before.reverse false :: ·)
  | .basic true before, '"' :: '"' :: '"' :: '"' :: '"' :: cs =>
    (scan .between cs).map (text ('"' :: '"' :: before).reverse true :: ·)
  | .basic true before, '"' :: '"' :: '"' :: '"' :: cs =>
    (scan .between cs).map (text ('"' :: before).reverse true :: ·)
  | .basic true before, '"' :: '"' :: '"' :: cs =>
    (scan .between cs).map (text before.reverse true :: ·)
  | .basic multiline before, '\\' :: cs => scan (.escape multiline before) cs
  | .basic true before, '\r' :: '\n' :: cs => scan (.basic true ('\n' :: '\r' :: before)) cs
  | .basic multiline before, c :: cs =>
    if isForbidden c && !(multiline && c == '\n') then none
    else scan (.basic multiline (c :: before)) cs
  | .basic _ _, [] => none
  | .escape true before, '\r' :: '\n' :: cs =>
    match Mode.afterSkipped? true before cs with
    | some mode => scan mode cs
    | none => none
  | .escape multiline before, c :: cs =>
    match escaped? c, escapeWidth? c with
    | some d, _ => scan (.basic multiline (d :: before)) cs
    | none, some width => scan (.digits multiline width 0 before) cs
    | none, none =>
      if multiline && isSkipped c then
        match Mode.afterSkipped? (c == '\n') before cs with
        | some mode => scan mode cs
        | none => none
      else none
  | .escape _ _, [] => none
  | .digits multiline missing value before, c :: cs =>
    match Text.hexValue? c with
    | none => none
    | some d =>
      if missing ≤ 1 then
        match scalar? (16 * value + d) with
        | some e => scan (.basic multiline (e :: before)) cs
        | none => none
      else scan (.digits multiline (missing - 1) (16 * value + d) before) cs
  | .digits _ _ _ _, [] => none
  | .lineEnd _ before, '\r' :: '\n' :: cs =>
    match Mode.afterSkipped? true before cs with
    | some mode => scan mode cs
    | none => none
  | .lineEnd seen before, c :: cs =>
    match Mode.afterSkipped? (seen || c == '\n') before cs with
    | some mode => scan mode cs
    | none => none
  | .lineEnd _ _, [] => none
  | .literal false before, '\'' :: cs => (scan .between cs).map (text before.reverse false :: ·)
  | .literal true before, '\'' :: '\'' :: '\'' :: '\'' :: '\'' :: cs =>
    (scan .between cs).map (text ('\'' :: '\'' :: before).reverse true :: ·)
  | .literal true before, '\'' :: '\'' :: '\'' :: '\'' :: cs =>
    (scan .between cs).map (text ('\'' :: before).reverse true :: ·)
  | .literal true before, '\'' :: '\'' :: '\'' :: cs =>
    (scan .between cs).map (text before.reverse true :: ·)
  | .literal true before, '\r' :: '\n' :: cs => scan (.literal true ('\n' :: '\r' :: before)) cs
  | .literal multiline before, c :: cs =>
    if isForbidden c && !(multiline && c == '\n') then none
    else scan (.literal multiline (c :: before)) cs
  | .literal _ _, [] => none

/-- The tokens of a document.  A byte order mark in front is passed over. -/
def ofChars? : List Char → Option (List Token)
  | '\ufeff' :: cs => scan .between cs
  | cs => scan .between cs

end Token

end EntityQuery.Toml
