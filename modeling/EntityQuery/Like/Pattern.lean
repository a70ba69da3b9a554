import EntityQuery.Text.LowerCase

/-!
# Patterns

A pattern is a text in which `%` stands for any run of characters and `_` for any one
character.  After the escape character, if there is one, a character stands for itself.
Patterns are in lower case, and so are the texts they are matched against.

Main results:

- Definition `tokenize`: the tokens of a pattern.
- Definition `containing`: the pattern of the texts that contain a literal.
- Theorem `tokenize_escapeLiteral`: an escaped literal stands for itself.
-/

namespace EntityQuery.Like

/-! ## Tokens -/

/-- A part of a pattern: any run, any one character, or a character. -/
inductive Token where
  | any
  | one
  | literal (c : Char)
deriving DecidableEq, Repr

/-- The tokens of a pattern.  The escape character is considered first; at the end of
the pattern it stands for itself. -/
def tokenize (escape : Option Char) : List Char → List Token
  | [] => []
  | c :: cs =>
    if some c = escape then
      match cs with
      | [] => [.literal c]
      | d :: ds => .literal d :: tokenize escape ds
    else if c = '%' then .any :: tokenize escape cs
    else if c = '_' then .one :: tokenize escape cs
    else .literal c :: tokenize escape cs

/-! ## Patterns of criteria -/

/-- The characters that are escaped in a literal, besides the escape character. -/
def specials : List Char := ['_', '[', ']', '-', '%']

/-- A literal with the escape character before each character that needs it. -/
def escapeLiteral (escape : Char) (cs : List Char) : List Char :=
  cs.flatMap fun c => if c = escape ∨ c ∈ specials then [escape, c] else [c]

/-- The pattern of the texts that contain a literal in any letter case. -/
def containing (escape : Char) (literal : String) : String :=
  String.ofList ('%' :: (escapeLiteral escape (Text.lowerChars literal.toList) ++ ['%']))

/-- A pattern in which the client places the wildcards. -/
def wildcard (literal : String) : String :=
  Text.lower literal

/-- An escaped literal stands for its characters, whatever follows it. -/
theorem tokenize_escapeLiteral (escape : Char) (cs rest : List Char) :
    tokenize (some escape) (escapeLiteral escape cs ++ rest) =
      cs.map .literal ++ tokenize (some escape) rest := by
  induction cs with
  | nil => rfl
  | cons c cs ih =>
    have hcons : escapeLiteral escape (c :: cs) =
        (if c = escape ∨ c ∈ specials then [escape, c] else [c]) ++ escapeLiteral escape cs := rfl
    rw [hcons]
    split
    · simp [tokenize, ih]
    · next h =>
      simp only [specials, List.mem_cons, not_or] at h
      show tokenize (some escape) (c :: (escapeLiteral escape cs ++ rest)) = _
      rw [tokenize.eq_def]
      simp [h.1, h.2.1, h.2.2.2.2.2.1, ih]

end EntityQuery.Like
