/-!
# Three-valued truth

Tests of missing values are neither true nor false.  Truth values are combined by the
rules of three-valued logic, and a set of truth values says what a predicate can still
become while some of its rows are not chosen yet.

Main results:

- Theorems `all_eq_yes_iff` and `any_eq_yes_iff`: when a group is true.
- Theorem `Outcomes.mem_combine`: a combination of sets holds the combinations of
  members.
-/

namespace EntityQuery

/-! ## Truth values -/

/-- True, false, or undecided. -/
inductive Truth where
  | yes
  | no
  | unknown
deriving DecidableEq, Repr

namespace Truth

/-- The truth value of a decided question. -/
def ofBool (b : Bool) : Truth :=
  if b then yes else no

/-- The opposite; undecided stays undecided. -/
def not : Truth → Truth
  | yes => no
  | no => yes
  | unknown => unknown

/-- False as soon as one side is false, true only if both are true. -/
def and : Truth → Truth → Truth
  | no, _ => no
  | _, no => no
  | yes, yes => yes
  | _, _ => unknown

/-- True as soon as one side is true, false only if both are false. -/
def or : Truth → Truth → Truth
  | yes, _ => yes
  | _, yes => yes
  | no, no => no
  | _, _ => unknown

/-- All of a list; an empty list is true. -/
def all (ts : List Truth) : Truth := ts.foldr and yes

/-- One of a list at least; an empty list is false. -/
def any (ts : List Truth) : Truth := ts.foldr or no

/-- A list is true as a whole when all its members are. -/
theorem all_eq_yes_iff {ts : List Truth} : all ts = yes ↔ ∀ t ∈ ts, t = yes := by
  induction ts with
  | nil => simp [all]
  | cons t ts ih =>
    have h : all (t :: ts) = t.and (all ts) := rfl
    rw [h, List.forall_mem_cons, ← ih]
    cases t <;> cases all ts <;> simp [and]

/-- One member of a list makes the list true. -/
theorem any_eq_yes_iff {ts : List Truth} : any ts = yes ↔ yes ∈ ts := by
  induction ts with
  | nil => simp [any]
  | cons t ts ih =>
    have h : any (t :: ts) = t.or (any ts) := rfl
    rw [h, List.mem_cons, ← ih]
    cases t <;> cases any ts <;> simp [or]

end Truth

/-! ## Sets of truth values -/

/-- The truth values that a predicate can still take. -/
structure Outcomes where
  canBeTrue : Bool
  canBeFalse : Bool
  canBeUnknown : Bool
deriving DecidableEq, Repr

namespace Outcomes

/-- Whether a truth value is in the set. -/
def contains (o : Outcomes) : Truth → Bool
  | .yes => o.canBeTrue
  | .no => o.canBeFalse
  | .unknown => o.canBeUnknown

instance : Membership Truth Outcomes := ⟨fun o t => o.contains t = true⟩

/-- The set of the truth values with a property. -/
def ofPred (p : Truth → Bool) : Outcomes :=
  ⟨p .yes, p .no, p .unknown⟩

/-- Nothing is decided yet. -/
def undecided : Outcomes := ⟨true, true, true⟩

/-- Only one truth value is left. -/
def exactly (t : Truth) : Outcomes := ofPred (· == t)

/-- The truth values. -/
def truths : List Truth := [.yes, .no, .unknown]

/-- The opposites of the members. -/
def not (o : Outcomes) : Outcomes :=
  ⟨o.canBeFalse, o.canBeTrue, o.canBeUnknown⟩

/-- The combinations of the members of two sets. -/
def combine (f : Truth → Truth → Truth) (o q : Outcomes) : Outcomes :=
  ofPred fun t => truths.any fun a => o.contains a && truths.any fun b => q.contains b && f a b == t

/-- The truth values that all of a list can become together. -/
def all (os : List Outcomes) : Outcomes :=
  os.foldr (combine .and) (exactly .yes)

/-- The truth values that one of a list can become. -/
def any (os : List Outcomes) : Outcomes :=
  os.foldr (combine .or) (exactly .no)

/-- Nothing but true is left. -/
def isCertain (o : Outcomes) : Bool :=
  o == exactly .yes

theorem mem_truths (t : Truth) : t ∈ truths := by
  cases t <;> decide

@[simp] theorem mem_ofPred {p : Truth → Bool} {t : Truth} : t ∈ ofPred p ↔ p t = true := by
  cases t <;> exact Iff.rfl

@[simp] theorem mem_undecided (t : Truth) : t ∈ undecided := by
  cases t <;> exact rfl

@[simp] theorem mem_exactly {t u : Truth} : t ∈ exactly u ↔ t = u := by
  simp [exactly]

@[simp] theorem mem_not {o : Outcomes} {t : Truth} : t ∈ o.not ↔ t.not ∈ o := by
  cases t <;> exact Iff.rfl

/-- A combination of sets holds exactly the combinations of their members. -/
theorem mem_combine {f : Truth → Truth → Truth} {o q : Outcomes} {t : Truth} :
    t ∈ combine f o q ↔ ∃ a ∈ o, ∃ b ∈ q, f a b = t := by
  simp only [combine, mem_ofPred, List.any_eq_true, Bool.and_eq_true, beq_iff_eq]
  constructor
  · rintro ⟨a, _, ha, b, _, hb, h⟩
    exact ⟨a, ha, b, hb, h⟩
  · rintro ⟨a, ha, b, hb, h⟩
    exact ⟨a, mem_truths a, ha, b, mem_truths b, hb, h⟩

end Outcomes

end EntityQuery
