import EntityQuery.Text.LowerCase

/-!
# Lower-casing a part of a text

A text is lower-cased character by character, and the characters around a character
count for nothing but a capital sigma.  So a part of a text has the same lower-case form
inside the text as alone, unless a capital sigma in it ends a word in one of the two and
not in the other.

Main results:

- Definition `lowerWithin`: the lower-case form of characters between others.
- Theorem `lowerWithin_eq_iff`: between which characters it is the same.
- Theorem `SigmasAgree.infix_lowerChars`: a part is found again in lower case.
-/

namespace EntityQuery.Text

/-! ## Characters between others -/

/-- The lower-case form of a character, given the ones before it in reverse and the ones
after it. -/
def lowerAt (before : List Char) (c : Char) (after : List Char) : List Char :=
  if c = 'Σ' then [if isWordFinal before after then 'ς' else 'σ'] else lowerChar c

/-- The lower-case form of characters, given the ones before them in reverse and the ones
after them. -/
def lowerWithin (before : List Char) : List Char → List Char → List Char
  | [], _ => []
  | c :: cs, after => lowerAt before c (cs ++ after) ++ lowerWithin (c :: before) cs after

theorem lowerWithin_append (before xs ys after : List Char) :
    lowerWithin before (xs ++ ys) after =
      lowerWithin before xs (ys ++ after) ++ lowerWithin (xs.reverse ++ before) ys after := by
  induction xs generalizing before with
  | nil => rfl
  | cons x xs ih => simp [lowerWithin, ih]

theorem lowerFrom_eq_lowerWithin (before cs : List Char) :
    lowerFrom before cs = lowerWithin before cs [] := by
  induction cs generalizing before with
  | nil => rfl
  | cons c cs ih => rw [lowerFrom, lowerWithin, ih, lowerAt, List.append_nil]

/-- The lower-case form of a text holds the forms of its parts between the others. -/
theorem lowerChars_append_append (before cs after : List Char) :
    lowerChars (before ++ cs ++ after) =
      lowerWithin [] before (cs ++ after) ++ lowerWithin before.reverse cs after ++
        lowerWithin (before ++ cs).reverse after [] := by
  rw [lowerChars, lowerFrom_eq_lowerWithin, lowerWithin_append, lowerWithin_append]
  simp only [List.append_nil]

/-! ## Capital sigmas -/

/-- Characters around a character change its form only if it is a capital sigma that ends
a word among some of them and not among the others. -/
theorem lowerAt_eq_iff {before after before' after' : List Char} {c : Char} :
    lowerAt before c after = lowerAt before' c after' ↔
      (c = 'Σ' → isWordFinal before after = isWordFinal before' after') := by
  unfold lowerAt
  by_cases hc : c = 'Σ'
  · cases isWordFinal before after <;> cases isWordFinal before' after' <;> simp [hc]
  · simp [hc]

theorem length_lowerAt (before after before' after' : List Char) (c : Char) :
    (lowerAt before c after).length = (lowerAt before' c after').length := by
  unfold lowerAt
  split <;> rfl

/-- Characters have the same lower-case form between others exactly when the same capital
sigmas end words there. -/
theorem lowerWithin_eq_iff {before after before' after' cs : List Char} :
    lowerWithin before cs after = lowerWithin before' cs after' ↔
      ∀ xs ys, cs = xs ++ 'Σ' :: ys →
        isWordFinal (xs.reverse ++ before) (ys ++ after) =
          isWordFinal (xs.reverse ++ before') (ys ++ after') := by
  induction cs generalizing before before' with
  | nil => simp [lowerWithin]
  | cons c cs ih =>
      rw [lowerWithin, lowerWithin]
      constructor
      · intro h xs ys hcs
        obtain ⟨hhead, htail⟩ := List.append_inj h (length_lowerAt ..)
        cases xs with
        | nil =>
            cases hcs
            exact lowerAt_eq_iff.mp hhead rfl
        | cons x xs =>
            cases hcs
            simpa using ih.mp htail xs ys rfl
      · intro h
        have hhead : lowerAt before c (cs ++ after) = lowerAt before' c (cs ++ after') := by
          apply lowerAt_eq_iff.mpr
          rintro rfl
          exact h [] cs rfl
        have htail : lowerWithin (c :: before) cs after = lowerWithin (c :: before') cs after' := by
          apply ih.mpr
          intro xs ys hcs
          simpa using h (c :: xs) ys (by rw [hcs]; rfl)
        rw [hhead, htail]

/-- The capital sigmas of a part of a text end words in the text exactly when they do so
in the part alone. -/
def SigmasAgree (before part after : List Char) : Prop :=
  ∀ xs ys, part = xs ++ 'Σ' :: ys →
    isWordFinal (xs.reverse ++ before.reverse) (ys ++ after) = isWordFinal xs.reverse ys

namespace SigmasAgree

variable {before part after : List Char}

/-- The capital sigmas agree exactly when the part has the same lower-case form in the
text and alone. -/
theorem iff_lowerWithin_eq :
    SigmasAgree before part after ↔ lowerWithin before.reverse part after = lowerChars part := by
  simp only [SigmasAgree, lowerChars, lowerFrom_eq_lowerWithin, lowerWithin_eq_iff,
    List.append_nil]

instance : Decidable (SigmasAgree before part after) :=
  decidable_of_iff _ iff_lowerWithin_eq.symm

/-- The lower-case form of a part stands in that of the text. -/
theorem infix_lowerChars (h : SigmasAgree before part after) :
    lowerChars part <:+: lowerChars (before ++ part ++ after) := by
  rw [lowerChars_append_append, iff_lowerWithin_eq.mp h]
  exact ⟨_, _, rfl⟩

end SigmasAgree

end EntityQuery.Text
