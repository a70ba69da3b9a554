/-!
# Decimal integers in texts

Operands and timestamps may arrive as texts that spell a 64-bit integer: one
optional sign followed by ASCII digits, with leading zeros allowed and nothing
else around.

Main results:

- Theorem `int64?_int64Text`: a printed 64-bit integer is read back.
-/

namespace EntityQuery.Text

/-! ## Reading -/

/-- The number spelled by a non-empty run of ASCII digits. -/
def naturalOfChars? (cs : List Char) : Option Nat :=
  if cs ≠ [] ∧ cs.all Char.isDigit = true then some (Nat.ofDigitChars 10 cs 0) else none

/-- The integer spelled by digits after at most one sign. -/
def integerOfChars? : List Char → Option Int
  | '+' :: cs => (naturalOfChars? cs).map Int.ofNat
  | '-' :: cs => (naturalOfChars? cs).map fun n => -(Int.ofNat n)
  | cs => (naturalOfChars? cs).map Int.ofNat

/-- An integer as a 64-bit integer, when it is one. -/
def int64OfInt? (n : Int) : Option Int64 :=
  if -0x8000000000000000 ≤ n ∧ n < 0x8000000000000000 then some (Int64.ofInt n) else none

/-- The 64-bit integer that a text spells. -/
def int64? (s : String) : Option Int64 :=
  (integerOfChars? s.toList).bind int64OfInt?

/-! ## Writing -/

/-- The shortest decimal text of an integer. -/
def intText (n : Int) : String :=
  match n with
  | .ofNat n => String.ofList (Nat.toDigits 10 n)
  | .negSucc n => String.ofList ('-' :: Nat.toDigits 10 (n + 1))

/-- The shortest decimal text of a 64-bit integer. -/
def int64Text (n : Int64) : String :=
  intText n.toInt

/-! ## Reading back -/

theorem naturalOfChars?_toDigits (n : Nat) : naturalOfChars? (Nat.toDigits 10 n) = some n := by
  have hall : (Nat.toDigits 10 n).all Char.isDigit = true :=
    List.all_eq_true.2 fun c hc => Nat.isDigit_of_mem_toDigits (by decide) (by decide) hc
  simp [naturalOfChars?, Nat.toDigits_ne_nil, hall, Nat.ofDigitChars_ten_toDigits]

theorem integerOfChars?_of_isDigit {c : Char} {cs : List Char} (h : c.isDigit = true) :
    integerOfChars? (c :: cs) = (naturalOfChars? (c :: cs)).map Int.ofNat := by
  have hp : c ≠ '+' := by rintro rfl; simp at h
  have hm : c ≠ '-' := by rintro rfl; simp at h
  unfold integerOfChars?
  split
  · next heq => exact absurd (List.cons.inj heq).1 hp
  · next heq => exact absurd (List.cons.inj heq).1 hm
  · rfl

/-- A printed integer is read back. -/
theorem integerOfChars?_intText (n : Int) : integerOfChars? (intText n).toList = some n := by
  match n with
  | .ofNat n =>
    cases hd : Nat.toDigits 10 n with
    | nil => exact absurd hd Nat.toDigits_ne_nil
    | cons c cs =>
      have hc : c.isDigit = true :=
        Nat.isDigit_of_mem_toDigits (b := 10) (n := n) (by decide) (by decide) (by rw [hd]; simp)
      have := naturalOfChars?_toDigits n
      rw [hd] at this
      simp [intText, hd, integerOfChars?_of_isDigit hc, this]
  | .negSucc n =>
    have := naturalOfChars?_toDigits (n + 1)
    simp [intText, integerOfChars?, this, Int.negSucc_eq]

theorem int64OfInt?_toInt (n : Int64) : int64OfInt? n.toInt = some n := by
  have h1 := n.le_toInt
  have h2 := n.toInt_lt
  rw [int64OfInt?, if_pos ⟨h1, h2⟩, Int64.ofInt_toInt]

/-- A printed 64-bit integer is read back. -/
theorem int64?_int64Text (n : Int64) : int64? (int64Text n) = some n := by
  simp [int64?, int64Text, integerOfChars?_intText, int64OfInt?_toInt]

end EntityQuery.Text
