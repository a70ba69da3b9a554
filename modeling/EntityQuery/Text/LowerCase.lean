import EntityQuery.Text.CaseTable

/-!
# Lower-casing

Texts are compared by patterns in lower case.  Lower-casing is the full Unicode
mapping: a character may have a lower-case form of two characters, and a capital
sigma becomes a final sigma when it ends a word.

Main results:

- Definition `lower`: the lower-case form of a text.
-/

namespace EntityQuery.Text

/-! ## One character -/

/-- The property Cased. -/
def isCased (c : Char) : Bool :=
  inRanges c.toNat casedRanges

/-- The property Case_Ignorable. -/
def isCaseIgnorable (c : Char) : Bool :=
  inRanges c.toNat caseIgnorableRanges

/-- The lower-case form of a character outside any context.  Capital I with dot
above is the only character whose form has two characters. -/
def lowerChar (c : Char) : List Char :=
  if c = 'İ' then ['i', '\u0307']
  else
    match caseShift? c.toNat lowerCaseRuns with
    | some shift => [Char.ofNat (c.toNat + shift).toNat]
    | none => [c]

/-! ## Capital sigma -/

/-- The first character that is not ignored is cased. -/
def meetsCased (cs : List Char) : Bool :=
  match cs.dropWhile isCaseIgnorable with
  | [] => false
  | c :: _ => isCased c

/-- A capital sigma ends a word when a cased character comes before it and none
comes after it, ignored characters aside. -/
def isWordFinal (before after : List Char) : Bool :=
  meetsCased before && !meetsCased after

/-! ## Texts -/

/-- Lower-case the characters of a text, given the ones before them in reverse. -/
def lowerFrom (before : List Char) : List Char → List Char
  | [] => []
  | c :: after =>
    (if c = 'Σ' then [if isWordFinal before after then 'ς' else 'σ'] else lowerChar c) ++
      lowerFrom (c :: before) after

/-- The lower-case form of a text, as characters. -/
def lowerChars (cs : List Char) : List Char :=
  lowerFrom [] cs

/-- The lower-case form of a text. -/
def lower (s : String) : String :=
  String.ofList (lowerChars s.toList)

@[simp] theorem toList_lower (s : String) : (lower s).toList = lowerChars s.toList := by
  simp [lower]

end EntityQuery.Text
