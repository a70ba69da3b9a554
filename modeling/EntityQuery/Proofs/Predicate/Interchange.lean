import EntityQuery.Predicate.Evaluation
import EntityQuery.Proofs.Collect
import EntityQuery.Specification

/-!
# Interchangeable predicates

Two predicates are interchangeable when binding refuses both with the same fault, or makes of
them predicates that have the same truth value whatever rows are chosen.  Predicates stay
interchangeable when parts of them are replaced by interchangeable ones.

Main results:

- Definition `Agree`: results with the same fault, or with related values.
- Definition `Predicate.Interchangeable`: predicates that are bound alike.
- Theorems `Interchangeable.all`, `.any` and `.not`: parts can be replaced.
-/

namespace EntityQuery

/-! ## Results that agree -/

section Agree

variable {ε α β γ δ : Type}

/-- Both results are the same fault, or both are values, which are related. -/
inductive Agree (related : α → β → Prop) : Except ε α → Except ε β → Prop
  | error (e : ε) : Agree related (.error e) (.error e)
  | ok {a : α} {b : β} (h : related a b) : Agree related (.ok a) (.ok b)

namespace Agree

variable {related : α → β → Prop} {related' : γ → δ → Prop} {x : Except ε α} {y : Except ε β}

/-- A result agrees with itself when values are related to themselves. -/
theorem refl {related : α → α → Prop} (h : ∀ a, related a a) (x : Except ε α) :
    Agree related x x := by
  cases x with
  | error e => exact .error e
  | ok a => exact .ok (h a)

/-- Results that agree up to equality are equal. -/
theorem eq {y : Except ε α} (h : Agree Eq x y) : x = y := by
  cases h with
  | error e => rfl
  | ok h => rw [h]

/-- Where one of two results that agree is a value with a property, so is the other one. -/
theorem exists_ok_iff {holds : α → Prop} {holds' : β → Prop} (h : Agree related x y)
    (hholds : ∀ a b, related a b → (holds a ↔ holds' b)) :
    (∃ a, x = .ok a ∧ holds a) ↔ ∃ b, y = .ok b ∧ holds' b := by
  cases h with
  | error e => simp
  | ok h => simpa using hholds _ _ h

/-- Results that agree still do when their values are mapped to related ones. -/
theorem map {f : α → γ} {g : β → δ} (h : Agree related x y)
    (hmap : ∀ a b, x = .ok a → y = .ok b → related a b → related' (f a) (g b)) :
    Agree related' (x.map f) (y.map g) := by
  cases h with
  | error e => exact .error e
  | ok h => exact .ok (hmap _ _ rfl rfl h)

/-- Functions that agree on the members of two lists agree on the lists. -/
theorem collect {f : α → Except ε γ} {g : β → Except ε δ} {as : List α} {bs : List β}
    (h : List.Forall₂ (fun a b => Agree related' (f a) (g b)) as bs) :
    Agree (List.Forall₂ related') (collect f as) (collect g bs) := by
  induction h with
  | nil => exact .ok .nil
  | @cons a b as bs hfirst _ ih =>
      rw [EntityQuery.collect, EntityQuery.collect]
      generalize f a = x at hfirst ⊢
      generalize g b = y at hfirst ⊢
      cases hfirst with
      | error e => exact .error e
      | ok hfirst => exact ih.map fun _ _ _ _ hrest => .cons hfirst hrest

end Agree

end Agree

namespace Predicate

variable {p p' q q' : Predicate} {ps ps' : List Predicate}

/-! ## Truth values -/

/-- The predicates have the same truth value for every choice of rows. -/
def SameTruth (p p' : Predicate) : Prop :=
  ∀ c : Choice, p.evaluate c = p'.evaluate c

/-- The members of two lists have the same truth values. -/
theorem evaluateEach_eq (h : List.Forall₂ SameTruth ps ps') (c : Choice) :
    evaluateEach c ps = evaluateEach c ps' := by
  induction h with
  | nil => rfl
  | cons hfirst _ ih => rw [evaluateEach, evaluateEach, hfirst c, ih]

/-! ## Interchangeable predicates -/

/-- The predicates are refused with the same fault, or bound to predicates with the same truth
values. -/
def Interchangeable (p p' : Predicate) : Prop :=
  Agree SameTruth p.bind p'.bind

/-- The parts of two lists are interchangeable, one by one. -/
theorem agree_bindEach (h : List.Forall₂ Interchangeable ps ps') :
    Agree (List.Forall₂ SameTruth) (bindEach ps) (bindEach ps') := by
  rw [bindEach_eq_collect, bindEach_eq_collect]
  exact Agree.collect h

namespace Interchangeable

theorem refl (p : Predicate) : p.Interchangeable p :=
  Agree.refl (fun _ _ => rfl) _

/-- Lists of predicates are interchangeable with themselves. -/
theorem forall₂_refl (ps : List Predicate) : List.Forall₂ Interchangeable ps ps :=
  List.forall₂_same.mpr fun p _ => refl p

/-- Parts that must all hold can be replaced. -/
theorem all (h : List.Forall₂ Interchangeable ps ps') :
    (Predicate.all ps).Interchangeable (.all ps') := by
  refine (agree_bindEach h).map fun bs bs' _ _ hbound c => ?_
  rw [evaluate, evaluate, evaluateEach_eq hbound]

/-- Parts of which one must hold can be replaced. -/
theorem any (h : List.Forall₂ Interchangeable ps ps') :
    (Predicate.any ps).Interchangeable (.any ps') := by
  refine (agree_bindEach h).map fun bs bs' _ _ hbound c => ?_
  rw [evaluate, evaluate, evaluateEach_eq hbound]

/-- A part that must not hold can be replaced. -/
theorem not (h : p.Interchangeable p') : p.not.Interchangeable p'.not :=
  h.map fun b b' _ _ hbound c => by rw [evaluate, evaluate, hbound c]

/-- Both predicates under an operator can be replaced. -/
theorem combine (operator : GroupOperator) (hp : p.Interchangeable p')
    (hq : q.Interchangeable q') :
    (Predicate.combine operator p q).Interchangeable (.combine operator p' q') := by
  cases operator with
  | and => exact all (.cons hp (.cons hq .nil))
  | or => exact any (.cons hp (.cons hq .nil))

/-- Both sides of a merge can be replaced, where they are there. -/
theorem merge (operator : GroupOperator) {left left' right right' : Option Predicate}
    (hleft : Option.Rel Interchangeable left left')
    (hright : Option.Rel Interchangeable right right') :
    Option.Rel Interchangeable (Predicate.merge operator left right)
      (Predicate.merge operator left' right') := by
  rcases hleft with hleft | _
  · rcases hright with hright | _
    · exact .some (hleft.combine operator hright)
    · exact .some hleft
  · exact hright

end Interchangeable

end Predicate

end EntityQuery
