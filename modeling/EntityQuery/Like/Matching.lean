import EntityQuery.Like.Pattern

/-!
# Matching patterns

The runs `%` cut a pattern into segments of fixed length.  The first segment must stand
at the start of the text and the last one at its end; each segment between is taken at
its first occurrence behind the one before, since an earlier place leaves more of the
text for the segments behind.

Main results:

- Definition `matchesTokens`: whether a text matches the tokens of a pattern.
- Definition `matchesPattern`: whether a text matches a pattern.
- Theorem `length_strip?`: a segment takes as many characters as it has places.
-/

namespace EntityQuery.Like

/-! ## Segments -/

/-- A place of a segment: any one character, or a given one. -/
abbrev Place := Option Char

/-- Whether a character may stand at a place. -/
def fits (p : Place) (c : Char) : Bool :=
  match p with
  | none => true
  | some d => c == d

/-- The segment before the first run, and the segments behind each run. -/
def segments : List Token → List Place × List (List Place)
  | [] => ([], [])
  | .any :: ts =>
    let (first, others) := segments ts
    ([], first :: others)
  | .one :: ts =>
    let (first, others) := segments ts
    (none :: first, others)
  | .literal c :: ts =>
    let (first, others) := segments ts
    (some c :: first, others)

/-- What follows a segment that stands at the start of a text. -/
def strip? : List Place → List Char → Option (List Char)
  | [], cs => some cs
  | _ :: _, [] => none
  | p :: ps, c :: cs => if fits p c then strip? ps cs else none

/-- What follows the first occurrence of a segment in a text. -/
def findAfter? (segment : List Place) : List Char → Option (List Char)
  | [] => strip? segment []
  | c :: cs => (strip? segment (c :: cs)).or (findAfter? segment cs)

/-- Whether a text ends with a segment. -/
def endsWith (segment : List Place) (cs : List Char) : Bool :=
  segment.length ≤ cs.length && strip? segment (cs.drop (cs.length - segment.length)) == some []

/-- Whether the segments behind runs occur one after another, the last at the end. -/
def matchesSegments : List (List Place) → List Char → Bool
  | [], cs => cs.isEmpty
  | [last], cs => endsWith last cs
  | segment :: others, cs =>
    match findAfter? segment cs with
    | some rest => matchesSegments others rest
    | none => false

/-! ## Matching -/

/-- Whether a text matches the tokens of a pattern. -/
def matchesTokens (tokens : List Token) (cs : List Char) : Bool :=
  let (first, others) := segments tokens
  match strip? first cs with
  | some rest => matchesSegments others rest
  | none => false

/-- Whether a text matches a pattern.  Letter case counts. -/
def matchesPattern (text pattern : String) (escape : Option Char) : Bool :=
  matchesTokens (tokenize escape pattern.toList) text.toList

/-- A segment takes as many characters as it has places. -/
theorem length_strip? {ps : List Place} {cs rest : List Char} (h : strip? ps cs = some rest) :
    cs.length = ps.length + rest.length := by
  induction ps generalizing cs with
  | nil => cases h; simp
  | cons p ps ih =>
    cases cs with
    | nil => cases h
    | cons c cs =>
      simp only [strip?] at h
      split at h
      · have := ih h
        simp only [List.length_cons]; omega
      · cases h

end EntityQuery.Like
