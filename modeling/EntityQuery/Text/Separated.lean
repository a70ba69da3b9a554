/-!
# Texts separated by a character

Columns are written as pieces with a separator between them: the hops of a path
with `.`, sibling fields and sort columns with `,`.  This file cuts a text at a
separator and puts pieces back together.

Main results:

- Theorem `intercalate_splitChars`: joining the pieces gives the text back.
- Theorem `not_mem_of_mem_splitChars`: no piece holds the separator.
- Theorem `splitChars_intercalate`: cutting joined pieces gives the pieces back.
-/

namespace EntityQuery.Text

/-! ## Cutting -/

/-- The pieces between the separators, in order; a text without separators is
one piece. -/
def splitChars (sep : Char) : List Char → List (List Char)
  | [] => [[]]
  | c :: cs =>
    if c = sep then [] :: splitChars sep cs
    else (splitChars sep cs).modifyHead (c :: ·)

/-- The pieces of a text between the separators. -/
def split (sep : Char) (s : String) : List String :=
  (splitChars sep s.toList).map String.ofList

@[simp] theorem splitChars_nil (sep : Char) : splitChars sep [] = [[]] := rfl

@[simp] theorem splitChars_sep (sep : Char) (cs : List Char) :
    splitChars sep (sep :: cs) = [] :: splitChars sep cs := by
  simp [splitChars]

theorem splitChars_cons_of_ne {sep c : Char} (h : c ≠ sep) (cs : List Char) :
    splitChars sep (c :: cs) = (splitChars sep cs).modifyHead (c :: ·) := by
  simp [splitChars, h]

/-- There is always a first piece. -/
theorem splitChars_ne_nil (sep : Char) (cs : List Char) : splitChars sep cs ≠ [] := by
  induction cs with
  | nil => simp
  | cons c cs ih =>
    by_cases h : c = sep
    · subst h; simp
    · rw [splitChars_cons_of_ne h]
      cases hs : splitChars sep cs with
      | nil => exact absurd hs ih
      | cons p ps => simp

/-! ## Joining -/

/-- The pieces with the separator between them. -/
def join (sep : Char) (pieces : List String) : String :=
  String.ofList ([sep].intercalate (pieces.map String.toList))

theorem intercalate_modifyHead_cons (sep c : Char) {pieces : List (List Char)}
    (h : pieces ≠ []) :
    [sep].intercalate (pieces.modifyHead (c :: ·)) = c :: [sep].intercalate pieces := by
  match pieces, h with
  | [p], _ => simp [List.intercalate]
  | p :: q :: ps, _ => simp [List.intercalate, List.intersperse]

/-- Joining the pieces of a text gives the text back. -/
theorem intercalate_splitChars (sep : Char) (cs : List Char) :
    [sep].intercalate (splitChars sep cs) = cs := by
  induction cs with
  | nil => simp [List.intercalate]
  | cons c cs ih =>
    by_cases h : c = sep
    · subst h
      rw [splitChars_sep]
      cases hs : splitChars c cs with
      | nil => exact absurd hs (splitChars_ne_nil c cs)
      | cons p ps =>
        rw [hs] at ih
        simpa [List.intercalate, List.intersperse] using ih
    · rw [splitChars_cons_of_ne h, intercalate_modifyHead_cons sep c (splitChars_ne_nil sep cs), ih]

/-- No piece holds the separator. -/
theorem not_mem_of_mem_splitChars {sep : Char} {cs p : List Char}
    (h : p ∈ splitChars sep cs) : sep ∉ p := by
  induction cs generalizing p with
  | nil => simp at h; simp [h]
  | cons c cs ih =>
    by_cases hc : c = sep
    · subst hc
      rcases List.mem_cons.1 (by simpa using h) with rfl | h'
      · simp
      · exact ih h'
    · rw [splitChars_cons_of_ne hc] at h
      cases hs : splitChars sep cs with
      | nil => exact absurd hs (splitChars_ne_nil sep cs)
      | cons q qs =>
        rw [hs] at h ih
        rcases List.mem_cons.1 (by simpa using h) with rfl | h'
        · have := ih (List.mem_cons_self ..)
          simpa [Ne.symm hc] using this
        · exact ih (List.mem_cons_of_mem _ h')

/-- A text without separators is its only piece. -/
theorem splitChars_of_not_mem {sep : Char} {cs : List Char} (h : sep ∉ cs) :
    splitChars sep cs = [cs] := by
  induction cs with
  | nil => rfl
  | cons c cs ih =>
    have hc : c ≠ sep := fun e => h (by simp [e])
    have hcs : sep ∉ cs := fun e => h (List.mem_cons_of_mem _ e)
    simp [splitChars_cons_of_ne hc, ih hcs]

/-- A first piece without separators is cut off at the separator after it. -/
theorem splitChars_append_sep {sep : Char} {p : List Char} (h : sep ∉ p) (cs : List Char) :
    splitChars sep (p ++ sep :: cs) = p :: splitChars sep cs := by
  induction p with
  | nil => simp
  | cons c p ih =>
    have hc : c ≠ sep := fun e => h (by simp [e])
    have hp : sep ∉ p := fun e => h (List.mem_cons_of_mem _ e)
    simp [splitChars_cons_of_ne hc, ih hp]

/-- Cutting joined pieces gives the pieces back. -/
theorem splitChars_intercalate {sep : Char} {pieces : List (List Char)} (hne : pieces ≠ [])
    (h : ∀ p ∈ pieces, sep ∉ p) : splitChars sep ([sep].intercalate pieces) = pieces := by
  match pieces, hne with
  | [p], _ => simpa [List.intercalate, List.intersperse] using splitChars_of_not_mem (h p (by simp))
  | p :: q :: ps, _ =>
    have ih := splitChars_intercalate (List.cons_ne_nil q ps)
      (fun r hr => h r (List.mem_cons_of_mem _ hr))
    have hcut := splitChars_append_sep (h p (by simp)) ([sep].intercalate (q :: ps))
    rw [ih] at hcut
    simpa [List.intercalate, List.intersperse] using hcut

end EntityQuery.Text
