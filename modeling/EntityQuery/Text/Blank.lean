/-!
# Blank characters and trimming

A character is blank when Unicode gives it the property White_Space.  Column
names, path segments and numeric operands are trimmed of blanks before they are
used, and a column is rejected when nothing else is left.

Main results:

- Theorem `trimChars_eq_nil_iff`: only a text of blanks trims to nothing.
-/

namespace EntityQuery.Text

/-! ## The property -/

/-- The characters with the Unicode property White_Space. -/
def isBlank (c : Char) : Bool :=
  let n := c.toNat
  (9 ≤ n && n ≤ 13) || n == 0x20 || n == 0x85 || n == 0xA0 || n == 0x1680 ||
    (0x2000 ≤ n && n ≤ 0x200A) || n == 0x2028 || n == 0x2029 || n == 0x202F ||
    n == 0x205F || n == 0x3000

/-! ## Trimming -/

/-- Drop the blanks at both ends. -/
def trimChars (cs : List Char) : List Char :=
  ((cs.dropWhile isBlank).reverse.dropWhile isBlank).reverse

/-- The text without the blanks at both ends. -/
def trim (s : String) : String :=
  String.ofList (trimChars s.toList)

@[simp] theorem toList_trim (s : String) : (trim s).toList = trimChars s.toList := by
  simp [trim]

theorem dropWhile_isBlank_eq_nil_iff {cs : List Char} :
    cs.dropWhile isBlank = [] ↔ ∀ c ∈ cs, isBlank c = true := by
  induction cs with
  | nil => simp
  | cons c cs ih => by_cases h : isBlank c = true <;> simp [h, ih]

/-- Only a text made of blanks trims to nothing. -/
theorem trimChars_eq_nil_iff {cs : List Char} :
    trimChars cs = [] ↔ ∀ c ∈ cs, isBlank c = true := by
  constructor
  · intro h c hc
    have h' : ∀ d ∈ cs.dropWhile isBlank, isBlank d = true := by
      simpa [trimChars, dropWhile_isBlank_eq_nil_iff] using h
    by_cases hcs : cs.dropWhile isBlank = []
    · exact dropWhile_isBlank_eq_nil_iff.1 hcs c hc
    · have hne := List.head_dropWhile_not isBlank hcs
      rw [h' _ (List.head_mem hcs)] at hne
      exact absurd hne (by decide)
  · intro h
    have : cs.dropWhile isBlank = [] := dropWhile_isBlank_eq_nil_iff.2 h
    simp [trimChars, this]

/-- A text of blanks only, such as the empty text. -/
def isBlankText (s : String) : Bool :=
  (trimChars s.toList).isEmpty

end EntityQuery.Text
