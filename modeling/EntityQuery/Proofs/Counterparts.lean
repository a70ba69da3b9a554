/-!
# Lists with counterparts

Two lists are matched when every member of either one has a related member in the other.
How often and in which order members stand does not count, so matched lists agree on
what holds of all members and on what holds of some.

Main results:

- Theorems `Matched.forall_iff` and `Matched.exists_iff`: what matched lists agree on.
- Theorem `Matched.trans`: counterparts of counterparts are counterparts.
-/

namespace EntityQuery

variable {α β γ : Type}

/-- Every member of either list has a counterpart in the other one. -/
structure Matched (related : α → β → Prop) (as : List α) (bs : List β) : Prop where
  forth : ∀ a ∈ as, ∃ b ∈ bs, related a b
  back : ∀ b ∈ bs, ∃ a ∈ as, related a b

namespace Matched

variable {related : α → β → Prop} {as : List α} {bs : List β} {holds : α → Prop}
  {holds' : β → Prop}

theorem nil : Matched related [] [] :=
  ⟨fun _ h => (List.not_mem_nil h).elim, fun _ h => (List.not_mem_nil h).elim⟩

theorem cons {a : α} {b : β} (hab : related a b) (h : Matched related as bs) :
    Matched related (a :: as) (b :: bs) := by
  constructor
  · intro a' ha'
    rcases List.mem_cons.mp ha' with rfl | ha'
    · exact ⟨b, List.mem_cons_self, hab⟩
    · obtain ⟨b', hb', hrel⟩ := h.forth a' ha'
      exact ⟨b', List.mem_cons_of_mem b hb', hrel⟩
  · intro b' hb'
    rcases List.mem_cons.mp hb' with rfl | hb'
    · exact ⟨a, List.mem_cons_self, hab⟩
    · obtain ⟨a', ha', hrel⟩ := h.back b' hb'
      exact ⟨a', List.mem_cons_of_mem a ha', hrel⟩

/-- Lists with the same members are matched. -/
theorem of_mem_iff {as bs : List α} (h : ∀ a, a ∈ as ↔ a ∈ bs) : Matched Eq as bs :=
  ⟨fun a ha => ⟨a, (h a).mp ha, rfl⟩, fun b hb => ⟨b, (h b).mpr hb, rfl⟩⟩

theorem mono {related' : α → β → Prop} (h : Matched related as bs)
    (himp : ∀ a b, related a b → related' a b) : Matched related' as bs := by
  constructor
  · intro a ha
    obtain ⟨b, hb, hab⟩ := h.forth a ha
    exact ⟨b, hb, himp a b hab⟩
  · intro b hb
    obtain ⟨a, ha, hab⟩ := h.back b hb
    exact ⟨a, ha, himp a b hab⟩

/-- Counterparts of counterparts are counterparts. -/
theorem trans {related' : β → γ → Prop} {cs : List γ} (h : Matched related as bs)
    (h' : Matched related' bs cs) :
    Matched (fun a c => ∃ b, related a b ∧ related' b c) as cs := by
  constructor
  · intro a ha
    obtain ⟨b, hb, hab⟩ := h.forth a ha
    obtain ⟨c, hc, hbc⟩ := h'.forth b hb
    exact ⟨c, hc, b, hab, hbc⟩
  · intro c hc
    obtain ⟨b, hb, hbc⟩ := h'.back c hc
    obtain ⟨a, ha, hab⟩ := h.back b hb
    exact ⟨a, ha, b, hab, hbc⟩

theorem nil_iff (h : Matched related as bs) : as = [] ↔ bs = [] := by
  constructor
  · rintro rfl
    apply List.eq_nil_iff_forall_not_mem.mpr
    intro b hb
    obtain ⟨a, ha, -⟩ := h.back b hb
    cases ha
  · rintro rfl
    apply List.eq_nil_iff_forall_not_mem.mpr
    intro a ha
    obtain ⟨b, hb, -⟩ := h.forth a ha
    cases hb

/-- Matched lists agree on what holds of all members. -/
theorem forall_iff (h : Matched related as bs)
    (hholds : ∀ a b, related a b → (holds a ↔ holds' b)) :
    (∀ a ∈ as, holds a) ↔ ∀ b ∈ bs, holds' b := by
  constructor
  · intro hall b hb
    obtain ⟨a, ha, hab⟩ := h.back b hb
    exact (hholds a b hab).mp (hall a ha)
  · intro hall a ha
    obtain ⟨b, hb, hab⟩ := h.forth a ha
    exact (hholds a b hab).mpr (hall b hb)

/-- Matched lists agree on what holds of some member. -/
theorem exists_iff (h : Matched related as bs)
    (hholds : ∀ a b, related a b → (holds a ↔ holds' b)) :
    (∃ a ∈ as, holds a) ↔ ∃ b ∈ bs, holds' b := by
  constructor
  · rintro ⟨a, ha, hyes⟩
    obtain ⟨b, hb, hab⟩ := h.forth a ha
    exact ⟨b, hb, (hholds a b hab).mp hyes⟩
  · rintro ⟨b, hb, hyes⟩
    obtain ⟨a, ha, hab⟩ := h.back b hb
    exact ⟨a, ha, (hholds a b hab).mpr hyes⟩

end Matched

end EntityQuery
