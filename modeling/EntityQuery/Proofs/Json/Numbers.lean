import EntityQuery.Json.Number

/-!
# Reading back numbers

A number whose parts are digits is read back from its characters as it is, unless a zero
stands in front of other digits; such characters spell no number.  So an integer is read
back as that integer, and what is written for a binary64 number is never read as an
integer.

Main results:

- Theorem `Number.ofChars?_chars`: the reading of the characters of a number.
- Theorem `Number.toInt?_ofInt`: a 64-bit integer is read back.
- Theorem `Number.toInt?_ofBinary64`: a binary64 number is not read as an integer.
-/

namespace EntityQuery.Json

/-! ## Runs of characters -/

section Run

variable {p : Char → Bool} {cs rest : List Char}

/-- A run of characters ends where the rest starts with another one. -/
theorem takeWhile_append_rest (hcs : ∀ c ∈ cs, p c = true) (hrest : ∀ c ∈ rest.head?, p c = false) :
    (cs ++ rest).takeWhile p = cs := by
  rw [List.takeWhile_append_of_pos hcs]
  cases rest with
  | nil => simp
  | cons c rest => rw [List.takeWhile_cons_of_neg (by simp [hrest c rfl]), List.append_nil]

/-- What follows a run is the rest. -/
theorem dropWhile_append_rest (hcs : ∀ c ∈ cs, p c = true) (hrest : ∀ c ∈ rest.head?, p c = false) :
    (cs ++ rest).dropWhile p = rest := by
  rw [List.dropWhile_append_of_pos hcs]
  cases rest with
  | nil => rfl
  | cons c rest => rw [List.dropWhile_cons_of_neg (by simp [hrest c rfl])]

end Run

namespace Number

/-! ## Spellings -/

/-- All parts of a number are digits; there are some before the point and in an exponent. -/
structure DigitParts (n : Number) : Prop where
  whole_ne_nil : n.whole ≠ []
  whole : ∀ c ∈ n.whole, c.isDigit = true
  fraction : ∀ c ∈ n.fraction, c.isDigit = true
  exponent : ∀ e ∈ n.exponent, e.2 ≠ [] ∧ ∀ c ∈ e.2, c.isDigit = true

/-- Whether a zero stands in front of other digits. -/
def hasLeadingZero : List Char → Bool
  | '0' :: _ :: _ => true
  | _ => false

/-- The characters of a fraction. -/
def fractionChars (fraction : List Char) : List Char :=
  if fraction.isEmpty then [] else '.' :: fraction

/-- The characters of an exponent. -/
def exponentChars : Option (Bool × List Char) → List Char
  | none => []
  | some (negative, digits) => 'e' :: (if negative then '-' else '+') :: digits

/-- The characters of a number are a sign, whole digits, a fraction and an exponent. -/
theorem chars_eq (n : Number) :
    n.chars = (if n.negative then ['-'] else []) ++
      (n.whole ++ (fractionChars n.fraction ++ exponentChars n.exponent)) := by
  rw [chars, fractionChars, List.append_assoc, List.append_assoc]
  cases n.exponent <;> rfl

/-- No digit stands at the start of an exponent. -/
theorem head?_exponentChars (exponent : Option (Bool × List Char)) :
    ∀ c ∈ (exponentChars exponent).head?, c.isDigit = false := by
  cases exponent with
  | none => exact fun c hc => nomatch hc
  | some e => simp [exponentChars]

/-- No digit stands behind the whole digits. -/
theorem head?_fractionChars_append (fraction : List Char) (exponent : Option (Bool × List Char)) :
    ∀ c ∈ (fractionChars fraction ++ exponentChars exponent).head?, c.isDigit = false := by
  cases fraction with
  | nil => exact head?_exponentChars exponent
  | cons d ds => simp [fractionChars]

/-! ## Reading spellings -/

section Parts

variable {whole fraction : List Char} {exponent : Option (Bool × List Char)} (negative : Bool)

theorem withExponent?_exponentChars (whole fraction : List Char)
    (h : ∀ e ∈ exponent, e.2 ≠ [] ∧ ∀ c ∈ e.2, c.isDigit = true) :
    withExponent? negative whole fraction (exponentChars exponent) =
      some ⟨negative, whole, fraction, exponent⟩ := by
  cases exponent with
  | none => rfl
  | some e =>
      obtain ⟨sign, digits⟩ := e
      obtain ⟨hne, hdigits⟩ := h (sign, digits) rfl
      have hread : exponentDigits? sign digits = some (sign, digits) :=
        if_pos ⟨hne, List.all_eq_true.mpr hdigits⟩
      cases sign <;> simp [exponentChars, withExponent?, exponentOfChars?, hread]

theorem withFraction?_chars (whole : List Char) (hfraction : ∀ c ∈ fraction, c.isDigit = true)
    (h : ∀ e ∈ exponent, e.2 ≠ [] ∧ ∀ c ∈ e.2, c.isDigit = true) :
    withFraction? negative whole (fractionChars fraction ++ exponentChars exponent) =
      some ⟨negative, whole, fraction, exponent⟩ := by
  cases fraction with
  | nil =>
      rw [← withExponent?_exponentChars negative whole [] h]
      cases exponent <;> rfl
  | cons d ds =>
      have hstop := head?_exponentChars exponent
      show withFraction? negative whole ('.' :: ((d :: ds) ++ exponentChars exponent)) = _
      rw [withFraction?, takeWhile_append_rest hfraction hstop,
        dropWhile_append_rest hfraction hstop, if_neg (List.cons_ne_nil d ds)]
      exact withExponent?_exponentChars negative whole (d :: ds) h

theorem ofUnsigned?_chars (hne : whole ≠ []) (hwhole : ∀ c ∈ whole, c.isDigit = true)
    (hfraction : ∀ c ∈ fraction, c.isDigit = true)
    (h : ∀ e ∈ exponent, e.2 ≠ [] ∧ ∀ c ∈ e.2, c.isDigit = true) :
    ofUnsigned? negative (whole ++ (fractionChars fraction ++ exponentChars exponent)) =
      if hasLeadingZero whole then none else some ⟨negative, whole, fraction, exponent⟩ := by
  have hstop := head?_fractionChars_append fraction exponent
  rw [ofUnsigned?, takeWhile_append_rest hwhole hstop, dropWhile_append_rest hwhole hstop]
  split
  · exact absurd rfl hne
  · rfl
  · next hzero =>
      have hnone : hasLeadingZero whole = false := by
        unfold hasLeadingZero
        split
        · exact absurd rfl (hzero _ _)
        · rfl
      rw [hnone, withFraction?_chars negative whole hfraction h]
      rfl

end Parts

/-- The characters of a number are read as that number; a zero in front of other digits
is refused. -/
theorem ofChars?_chars {n : Number} (h : n.DigitParts) :
    ofChars? n.chars = if hasLeadingZero n.whole then none else some n := by
  obtain ⟨negative, whole, fraction, exponent⟩ := n
  rw [chars_eq, ← ofUnsigned?_chars negative h.whole_ne_nil h.whole h.fraction h.exponent]
  cases negative with
  | true => rfl
  | false =>
      cases whole with
      | nil => exact absurd rfl h.whole_ne_nil
      | cons d ds =>
          have hminus : d ≠ '-' := by
            rintro rfl
            exact absurd (h.whole '-' List.mem_cons_self) (by decide)
          show ofChars? (d :: _) = ofUnsigned? false (d :: _)
          unfold ofChars?
          split
          · next heq => exact absurd (List.cons.inj heq).1 hminus
          · rfl

/-! ## Integers -/

/-- The digits of a positive number do not start with a zero. -/
theorem head?_toDigits_ne {n : Nat} (h : 0 < n) : (Nat.toDigits 10 n).head? ≠ some '0' := by
  induction n using Nat.strongRecOn with
  | ind n ih =>
      rcases Nat.lt_or_ge n 10 with hlt | hge
      · rw [Nat.toDigits_of_lt_base hlt]
        have hall : ∀ m < 10, 0 < m → [Nat.digitChar m].head? ≠ some '0' := by decide
        exact hall n hlt h
      · rw [Nat.toDigits_of_base_le (by decide) hge, List.head?_append]
        have hrec := ih (n / 10) (Nat.div_lt_self h (by decide)) (Nat.div_pos hge (by decide))
        cases hdigits : Nat.toDigits 10 (n / 10) with
        | nil => exact absurd hdigits Nat.toDigits_ne_nil
        | cons d ds => simpa [hdigits] using hrec

theorem hasLeadingZero_toDigits (n : Nat) : hasLeadingZero (Nat.toDigits 10 n) = false := by
  rcases Nat.eq_zero_or_pos n with rfl | hpos
  · rfl
  · have hhead := head?_toDigits_ne hpos
    unfold hasLeadingZero
    split
    · next heq => simp [heq] at hhead
    · rfl

theorem isDigit_of_mem_toDigits {n : Nat} : ∀ c ∈ Nat.toDigits 10 n, c.isDigit = true :=
  fun _ hc => Nat.isDigit_of_mem_toDigits (by decide) (by decide) hc

theorem digitParts_ofInt (n : Int) : (ofInt n).DigitParts :=
  ⟨Nat.toDigits_ne_nil, isDigit_of_mem_toDigits, fun _ hc => (nomatch hc), fun _ he => (nomatch he)⟩

/-- The characters of an integer spell it. -/
theorem ofChars?_ofInt (n : Int) : ofChars? (ofInt n).chars = some (ofInt n) := by
  rw [ofChars?_chars (digitParts_ofInt n)]
  exact if_neg (by simp [ofInt, hasLeadingZero_toDigits])

/-- An integer that fits in 64 bits is read back. -/
theorem toInt?_ofInt {n : Int} (hlow : -0x8000000000000000 ≤ n) (hhigh : n < 0x10000000000000000) :
    (ofInt n).toInt? = some n := by
  have hvalue : Nat.ofDigitChars 10 (Nat.toDigits 10 n.natAbs) 0 = n.natAbs :=
    Nat.ofDigitChars_ten_toDigits
  simp only [toInt?, ofInt, List.isEmpty_nil, Option.isNone_none, Bool.and_self, if_true, hvalue,
    decide_eq_true_eq]
  split
  · rw [if_pos (by omega)]
    congr 1
    omega
  · rw [if_pos (by omega)]
    congr 1
    omega

/-! ## Binary64 numbers -/

theorem isDigit_of_mem_zero : ∀ c ∈ ['0'], c.isDigit = true :=
  List.forall_mem_singleton.mpr rfl

/-- A decimal of digits has whole digits. -/
theorem wholeDigits_digits {d : Decimal} (hne : d.digits ≠ []) (h : ∀ c ∈ d.digits, c.isDigit = true) :
    d.wholeDigits ≠ [] ∧ ∀ c ∈ d.wholeDigits, c.isDigit = true := by
  unfold Decimal.wholeDigits
  dsimp only
  split
  · exact ⟨List.cons_ne_nil _ _, isDigit_of_mem_zero⟩
  · next hcount =>
      refine ⟨by simp [hcount, hne], ?_⟩
      intro c hc
      rcases List.mem_append.mp hc with hc | hc
      · exact h c (List.mem_of_mem_take hc)
      · rw [List.eq_of_mem_replicate hc]
        rfl

/-- A decimal of digits has digits in its fraction. -/
theorem fractionDigits_digits {d : Decimal} (h : ∀ c ∈ d.digits, c.isDigit = true) :
    ∀ c ∈ d.fractionDigits, c.isDigit = true := by
  intro c hc
  rcases List.mem_append.mp hc with hc | hc
  · rw [List.eq_of_mem_replicate hc]
    rfl
  · exact h c (List.mem_of_mem_drop hc)

/-- The shortest decimal has digits. -/
theorem digits_shortest (rule : Binary64.TieRule) (magnitude : Nat) :
    (Binary64.shortest rule magnitude).digits ≠ [] ∧
      ∀ c ∈ (Binary64.shortest rule magnitude).digits, c.isDigit = true := by
  unfold Binary64.shortest
  split
  · exact ⟨List.cons_ne_nil _ _, isDigit_of_mem_zero⟩
  · exact ⟨Nat.toDigits_ne_nil, isDigit_of_mem_toDigits⟩

theorem digitParts_ofBinary64 (x : Binary64) : (ofBinary64 x).DigitParts := by
  obtain ⟨hne, hdigits⟩ := digits_shortest .even x.magnitude.val
  unfold ofBinary64
  dsimp only
  split
  · obtain ⟨hwhole, hwholeDigits⟩ := wholeDigits_digits hne hdigits
    refine ⟨hwhole, hwholeDigits, ?_, fun e he => (nomatch he)⟩
    dsimp only
    split
    · exact isDigit_of_mem_zero
    · exact fractionDigits_digits hdigits
  · refine ⟨by simpa using hne, fun c hc => hdigits c (List.mem_of_mem_take hc),
      fun c hc => hdigits c (List.mem_of_mem_drop hc), ?_⟩
    intro e he
    cases he
    exact ⟨Nat.toDigits_ne_nil, isDigit_of_mem_toDigits⟩

/-- A number with a fraction or an exponent is not an integer. -/
theorem toInt?_eq_none {n : Number} (h : n.fraction ≠ [] ∨ n.exponent ≠ none) :
    n.toInt? = none := by
  have hparts : (n.fraction.isEmpty && n.exponent.isNone) = false := by
    rcases h with h | h
    · simp [h]
    · rw [Option.isNone_eq_false_iff.mpr (Option.isSome_iff_ne_none.mpr h), Bool.and_false]
  rw [toInt?, hparts]
  rfl

/-- What is written for a binary64 number is never read as an integer. -/
theorem toInt?_ofBinary64 (x : Binary64) : (ofBinary64 x).toInt? = none := by
  apply toInt?_eq_none
  unfold ofBinary64
  dsimp only
  split
  · left
    dsimp only
    split
    · decide
    · next hfraction => exact fun hnil => hfraction (by rw [hnil]; rfl)
  · exact .inr (Option.some_ne_none _)

end Number

end EntityQuery.Json
