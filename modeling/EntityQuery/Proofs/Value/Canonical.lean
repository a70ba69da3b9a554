import EntityQuery.Proofs.Binary64.Rounding
import EntityQuery.Proofs.Value.Kinds

/-!
# The order used for sorting

The order compares values of one variant, integers with floats after rounding, and all
else by the rank of the variants.  Without NaNs, comparing the other way round swaps the
answer and a null comes last.  Transitivity has one exception: two integers that round to
one number are equal to a float at that number and not to each other.

Main results:

- Definition `AtMost`: a value does not come after another.
- Definition `Blurs`: a float between two integers that it cannot tell apart.
- Theorem `AtMost.trans_iff`: the order is transitive where no float blurs.
- Theorem `canonicalCompare_eq_lt_iff`: among nulls and values of one variant the order is
  the strict one, with nulls last.
- Theorem `canonicalCompare_preorder`: the order on values without NaNs.
- Theorem `canonicalCompare_not_transitive`: integers beyond two to the 53rd that a float
  blurs.
-/

namespace EntityQuery

theorem compareText_ne_gt_iff {a b : String} : compareText a b ≠ .gt ↔ a ≤ b := by
  unfold compareText compareOfLessAndEq
  by_cases h : a = b
  · subst h
    simp
  · by_cases hlt : a < b
    · simp [hlt, Std.le_of_lt hlt]
    · have hgt : ¬ a ≤ b := fun hle => hlt (Std.lt_of_le_of_ne hle h)
      simp [h, hlt, hgt]

theorem compareBool_ne_gt_iff {a b : Bool} : compareBool a b ≠ .gt ↔ a.toNat ≤ b.toNat :=
  Nat.compare_ne_gt

namespace Value

/-- The value does not come after the other one. -/
def AtMost (a b : Value) : Prop :=
  canonicalCompare a b ≠ .gt

/-- A value is equal to itself, also where it is not compared strictly. -/
theorem canonicalCompare_self (v : Value) : canonicalCompare v v = .eq := by
  have h : canonicalCompare v v = (canonicalCompare v v).swap := canonicalCompare_swap v v
  cases hv : canonicalCompare v v with
  | eq => rfl
  | lt | gt =>
      rw [hv] at h
      cases h

/-! ## Ranks -/

/-- Values of different rank are not compared strictly. -/
theorem strictCompare?_eq_none_of_rank_ne {a b : Value} (h : a.rank ≠ b.rank) :
    a.strictCompare? b = none := by
  cases a <;> cases b <;> first | rfl | exact absurd rfl h

theorem atMost_iff_of_rank_ne {a b : Value} (h : a.rank ≠ b.rank) :
    a.AtMost b ↔ a.rank < b.rank := by
  rw [AtMost, canonicalCompare, strictCompare?_eq_none_of_rank_ne h, Option.getD_none,
    Nat.compare_ne_gt]
  omega

theorem AtMost.rank_le {a b : Value} (h : a.AtMost b) : a.rank ≤ b.rank := by
  by_cases hrank : a.rank = b.rank
  · exact Nat.le_of_eq hrank
  · exact Nat.le_of_lt ((atMost_iff_of_rank_ne hrank).1 h)

/-- Variants with a rank of their own are ordered transitively. -/
theorem AtMost.trans_of_rank {a b c : Value} (hab : a.rank = b.rank) (hbc : b.rank = c.rank)
    (hnumber : b.rank ≠ rank (int 0)) (h₁ : a.AtMost b) (h₂ : b.AtMost c) : a.AtMost c := by
  -- The ranks leave a single variant for the other two values.
  cases b with
  | bool =>
      cases a <;> cases hab
      cases c <;> cases hbc
      exact compareBool_ne_gt_iff.2
        (Nat.le_trans (compareBool_ne_gt_iff.1 h₁) (compareBool_ne_gt_iff.1 h₂))
  | text =>
      cases a <;> cases hab
      cases c <;> cases hbc
      exact compareText_ne_gt_iff.2
        (String.le_trans (compareText_ne_gt_iff.1 h₁) (compareText_ne_gt_iff.1 h₂))
  | enum | uuid =>
      cases a <;> cases hab
      cases c <;> cases hbc
      exact Nat.compare_ne_gt.2
        (Nat.le_trans (Nat.compare_ne_gt.1 h₁) (Nat.compare_ne_gt.1 h₂))
  | timestamp =>
      cases a <;> cases hab
      cases c <;> cases hbc
      exact Timestamp.compare_trans h₁ h₂
  | list | null =>
      cases a <;> cases hab
      cases c <;> cases hbc
      exact h₁
  | float | int => exact absurd rfl hnumber

/-! ## Numbers -/

/-- The value is an integer or a float that is a number. -/
inductive IsNumber : Value → Prop
  | float {x : Binary64} (h : x.isNaN = false) : IsNumber (.float x)
  | int (n : Int64) : IsNumber (.int n)

theorem IsNumber.of_rank {v : Value} (h : v.rank = rank (Value.int 0)) (hnan : v.isNaN = false) :
    v.IsNumber := by
  cases v with
  | float x => exact .float hnan
  | int n => exact .int n
  | _ => cases h

/-- The key of a float, or of the float nearest to an integer. -/
def roundedKey : Value → Int
  | float x => x.key
  | int n => (Binary64.ofInt n.toInt).key
  | _ => 0

theorem atMost_int_iff {m n : Int64} : (int m).AtMost (int n) ↔ m.toInt ≤ n.toInt :=
  Int.compare_ne_gt

/-- Next to a float, numbers are compared by the keys after rounding. -/
theorem atMost_iff_roundedKey_le {a b : Value} (ha : a.IsNumber) (hb : b.IsNumber)
    (hfloat : a.label = "float" ∨ b.label = "float") :
    a.AtMost b ↔ a.roundedKey ≤ b.roundedKey := by
  unfold AtMost canonicalCompare
  cases ha with
  | float hx =>
      cases hb with
      | float hy =>
          rw [strictCompare?, Binary64.compare?_of_not_isNaN hx hy]
          exact Int.compare_ne_gt
      | int n =>
          rw [strictCompare?, Binary64.compare?_of_not_isNaN hx (Binary64.isNaN_ofInt _)]
          exact Int.compare_ne_gt
  | int m =>
      cases hb with
      | float hy =>
          rw [strictCompare?, Binary64.compare?_of_not_isNaN (Binary64.isNaN_ofInt _) hy]
          exact Int.compare_ne_gt
      | int n => simp [label] at hfloat

/-- Rounding keeps the order of numbers. -/
theorem AtMost.roundedKey_le {a b : Value} (ha : a.IsNumber) (hb : b.IsNumber)
    (h : a.AtMost b) : a.roundedKey ≤ b.roundedKey := by
  by_cases hfloat : a.label = "float" ∨ b.label = "float"
  · exact (atMost_iff_roundedKey_le ha hb hfloat).1 h
  · cases ha with
    | float => exact absurd (.inl rfl) hfloat
    | int m =>
        cases hb with
        | float => exact absurd (.inr rfl) hfloat
        | int n => exact Binary64.key_ofInt_le_key_ofInt (atMost_int_iff.1 h)

/-! ## Transitivity -/

/-- The middle value is a float at which both integers lie after rounding, though the
first one is the larger. -/
def Blurs : Value → Value → Value → Prop
  | int m, float x, int n =>
    n.toInt < m.toInt ∧ (Binary64.ofInt m.toInt).key = x.key ∧
      (Binary64.ofInt n.toInt).key = x.key
  | _, _, _ => False

theorem Blurs.rank_eq {a b c : Value} (h : Blurs a b c) :
    a.rank = rank (int 0) ∧ b.rank = rank (int 0) ∧ c.rank = rank (int 0) := by
  unfold Blurs at h
  split at h
  · exact ⟨rfl, rfl, rfl⟩
  · exact h.elim

/-- From one integer over a float to another integer the order passes unless the float
blurs the two. -/
theorem AtMost.trans_float_iff {m n : Int64} {x : Binary64}
    (hle : (Binary64.ofInt m.toInt).key ≤ x.key) (hge : x.key ≤ (Binary64.ofInt n.toInt).key) :
    (int m).AtMost (int n) ↔ ¬ Blurs (int m) (float x) (int n) := by
  rw [atMost_int_iff, Blurs]
  constructor
  · rintro hmn ⟨hlt, -, -⟩
    omega
  · intro hblurs
    refine Int.not_lt.1 fun hlt => hblurs ⟨hlt, ?_⟩
    have hround := Binary64.key_ofInt_le_key_ofInt (Int.le_of_lt hlt)
    omega

/-- Numbers are ordered transitively unless a float blurs two integers. -/
theorem AtMost.trans_iff_of_numbers {a b c : Value} (ha : a.IsNumber) (hb : b.IsNumber)
    (hc : c.IsNumber) (h₁ : a.AtMost b) (h₂ : b.AtMost c) : a.AtMost c ↔ ¬ Blurs a b c := by
  have hle := h₁.roundedKey_le ha hb
  have hge := h₂.roundedKey_le hb hc
  -- With a float at one end the two ends are compared by their keys after rounding; between
  -- two integers the comparison is exact, and only a float in the middle has rounded them.
  cases ha with
  | float hx =>
      exact iff_of_true
        ((atMost_iff_roundedKey_le (.float hx) hc (.inl rfl)).2 (Int.le_trans hle hge)) id
  | int m =>
      cases hc with
      | float hz =>
          refine iff_of_true
            ((atMost_iff_roundedKey_le (.int m) (.float hz) (.inr rfl)).2 (Int.le_trans hle hge)) ?_
          cases hb <;> exact id
      | int n =>
          cases hb with
          | float hy => exact trans_float_iff hle hge
          | int k =>
              exact iff_of_true
                (atMost_int_iff.2 (Int.le_trans (atMost_int_iff.1 h₁) (atMost_int_iff.1 h₂))) id

/-- Without NaNs the order is transitive exactly where no float blurs two integers. -/
theorem AtMost.trans_iff {a b c : Value} (ha : a.isNaN = false) (hb : b.isNaN = false)
    (hc : c.isNaN = false) (h₁ : a.AtMost b) (h₂ : b.AtMost c) : a.AtMost c ↔ ¬ Blurs a b c := by
  by_cases hrank : a.rank = b.rank ∧ b.rank = c.rank
  · obtain ⟨hab, hbc⟩ := hrank
    by_cases hnumber : b.rank = rank (int 0)
    · exact trans_iff_of_numbers (.of_rank (hab.trans hnumber) ha) (.of_rank hnumber hb)
        (.of_rank (hbc.symm.trans hnumber) hc) h₁ h₂
    · exact iff_of_true (h₁.trans_of_rank hab hbc hnumber h₂)
        fun hblurs => hnumber hblurs.rank_eq.2.1
  · have hab := h₁.rank_le
    have hbc := h₂.rank_le
    refine iff_of_true ((atMost_iff_of_rank_ne (by omega)).2 (by omega)) fun hblurs => ?_
    obtain ⟨ha', hb', hc'⟩ := hblurs.rank_eq
    exact hrank ⟨ha'.trans hb'.symm, hb'.trans hc'.symm⟩

/-! ## Values of one variant and nulls -/

/-- One of the values is a null, or both have one variant. -/
def SameVariant (a b : Value) : Prop :=
  a ≠ null → b ≠ null → a.label = b.label

instance (v : Value) : Decidable (v = null) :=
  decidable_of_iff _ isNull_iff

instance (a b : Value) : Decidable (a.SameVariant b) :=
  inferInstanceAs (Decidable (a ≠ null → b ≠ null → a.label = b.label))

theorem SameVariant.symm {a b : Value} (h : a.SameVariant b) : b.SameVariant a :=
  fun hb ha => (h ha hb).symm

theorem rank_eq_of_label_eq {a b : Value} (h : a.label = b.label) : a.rank = b.rank := by
  cases a <;> cases b <;> first | rfl | simp [label] at h

theorem not_blurs_of_sameVariant {a b c : Value} (h : a.SameVariant b) : ¬ Blurs a b c := by
  intro hblurs
  unfold Blurs at hblurs
  split at hblurs
  · exact absurd (h nofun nofun) (by simp [label])
  · exact hblurs

/-- Values of one variant are compared strictly, with nulls last. -/
theorem canonicalCompare_eq_lt_iff {a b : Value} (h : a.SameVariant b) :
    canonicalCompare a b = .lt ↔ a ≠ null ∧ (b = null ∨ a.strictCompare? b = some .lt) := by
  by_cases ha : a = null
  · subst ha
    by_cases hb : b = null
    · subst hb
      simp [canonicalCompare_self]
    · simp [canonicalCompare_null_left hb]
  · by_cases hb : b = null
    · subst hb
      simp [canonicalCompare_swap null a, canonicalCompare_null_left ha, ha]
    · have hrank := rank_eq_of_label_eq (h ha hb)
      have hfallback : compare a.rank b.rank = .eq := Nat.compare_eq_eq.2 hrank
      rw [canonicalCompare, hfallback]
      cases a.strictCompare? b <;> simp [ha, hb]

/-! ## The order on values without NaNs -/

/-- On values without NaNs the order used for sorting is reflexive and answers the other
way round with the swapped answer, and it puts nulls last.  It is transitive with one
exception, a float that blurs two integers, and there it is not. -/
theorem canonicalCompare_preorder (a b c : Value) (ha : a.isNaN = false) (hb : b.isNaN = false)
    (hc : c.isNaN = false) :
    canonicalCompare a a = .eq ∧
      canonicalCompare b a = (canonicalCompare a b).swap ∧
      (canonicalCompare a b ≠ .gt → canonicalCompare b c ≠ .gt →
        (canonicalCompare a c ≠ .gt ↔ ¬ Blurs a b c)) ∧
      (a ≠ null → canonicalCompare null a = .gt) :=
  ⟨canonicalCompare_self a, canonicalCompare_swap a b, AtMost.trans_iff ha hb hc,
    canonicalCompare_null_left⟩

/-- Two and a half comes between two and three, and all of them before the null. -/
theorem canonicalCompare_preorder_two_three :
    canonicalCompare (int 2) (int 2) = .eq ∧
      canonicalCompare (float (Binary64.ofBits 0x4004000000000000)) (int 2) = .gt ∧
      canonicalCompare (int 2) (int 3) ≠ .gt ∧ canonicalCompare null (int 2) = .gt := by
  obtain ⟨hself, hswap, htrans, hnull⟩ :=
    canonicalCompare_preorder (int 2) (float (Binary64.ofBits 0x4004000000000000)) (int 3)
      rfl (by decide) rfl
  refine ⟨hself, hswap.trans (by decide +kernel), ?_, hnull nofun⟩
  exact (htrans (by decide +kernel) (by decide +kernel)).2 fun hblurs =>
    absurd hblurs.1 (by decide)

/-- Two to the 53rd and the integer after it round to one float, which is equal to both,
and the later integer is not at most the earlier one. -/
theorem canonicalCompare_not_transitive :
    (float (Binary64.ofInt 9007199254740992)).isNaN = false ∧
      canonicalCompare (int 9007199254740993) (float (Binary64.ofInt 9007199254740992)) ≠ .gt ∧
      canonicalCompare (float (Binary64.ofInt 9007199254740992)) (int 9007199254740992) ≠ .gt ∧
      canonicalCompare (int 9007199254740993) (int 9007199254740992) = .gt := by
  decide +kernel

end Value

end EntityQuery
