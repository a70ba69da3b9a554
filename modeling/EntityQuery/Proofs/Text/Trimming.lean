import EntityQuery.Text.Blank
import EntityQuery.Text.Separated
import Mathlib.Data.List.Forall2
import Mathlib.Data.List.TakeWhile

/-!
# What trimming leaves

Trimming a text leaves the one part of it that has no blank at either end and nothing but
blanks around it.  Blanks around a text come to stand around its first and its last piece
when the text is cut at a separator, so they make no difference once the pieces are trimmed.

Main results:

- Definition `Padded`: a text with blanks around another one.
- Theorem `trimChars_eq_iff`: what trimming leaves.
- Theorem `map_trimChars_splitChars`: blanks around a text do not change its trimmed pieces.
-/

namespace EntityQuery.Text

/-! ## Blanks around a text -/

/-- Nothing but blanks. -/
def AllBlank (cs : List Char) : Prop :=
  ∀ c ∈ cs, isBlank c = true

/-- A text with no blank at either end. -/
structure IsTrimmed (cs : List Char) : Prop where
  head : ∀ c, cs.head? = some c → isBlank c = false
  last : ∀ c, cs.getLast? = some c → isBlank c = false

/-- A text that is another one with blanks around it, possibly none. -/
def Padded (text core : List Char) : Prop :=
  ∃ before after, AllBlank before ∧ AllBlank after ∧ text = before ++ core ++ after

variable {cs text core before after : List Char} {sep : Char}

theorem allBlank_nil : AllBlank [] :=
  fun _ hc => (List.not_mem_nil hc).elim

theorem AllBlank.append (h : AllBlank before) (h' : AllBlank after) :
    AllBlank (before ++ after) := by
  intro c hc
  rcases List.mem_append.mp hc with hc | hc
  · exact h c hc
  · exact h' c hc

theorem AllBlank.reverse (h : AllBlank cs) : AllBlank cs.reverse :=
  fun c hc => h c (List.mem_reverse.mp hc)

/-- A character that is not blank does not stand among blanks. -/
theorem AllBlank.not_mem (h : AllBlank cs) (hsep : isBlank sep = false) : sep ∉ cs := by
  intro hmem
  rw [h sep hmem] at hsep
  cases hsep

theorem IsTrimmed.reverse (h : IsTrimmed cs) : IsTrimmed cs.reverse where
  head := by
    rw [List.head?_reverse]
    exact h.last
  last := by
    rw [List.getLast?_reverse]
    exact h.head

namespace Padded

theorem refl (cs : List Char) : Padded cs cs :=
  ⟨[], [], allBlank_nil, allBlank_nil, (List.append_nil cs).symm⟩

theorem trans {inner : List Char} (h : Padded text core) (h' : Padded core inner) :
    Padded text inner := by
  obtain ⟨before, after, hbefore, hafter, rfl⟩ := h
  obtain ⟨before', after', hbefore', hafter', rfl⟩ := h'
  refine ⟨before ++ before', after' ++ after, hbefore.append hbefore', hafter'.append hafter, ?_⟩
  simp only [List.append_assoc]

/-- A character that is not blank stands in a padded text where it does in the other one. -/
theorem mem_iff (h : Padded text core) (hsep : isBlank sep = false) : sep ∈ text ↔ sep ∈ core := by
  obtain ⟨before, after, hbefore, hafter, rfl⟩ := h
  simp [hbefore.not_mem hsep, hafter.not_mem hsep]

end Padded

/-! ## Trimming -/

/-- Dropping leading blanks stops at a text without any. -/
theorem dropWhile_isBlank_append (hbefore : AllBlank before)
    (hhead : ∀ c, cs.head? = some c → isBlank c = false) :
    (before ++ cs).dropWhile isBlank = cs := by
  rw [List.dropWhile_append_of_pos hbefore]
  cases cs with
  | nil => rfl
  | cons c cs => rw [List.dropWhile_cons_of_neg (Bool.eq_false_iff.mp (hhead c rfl))]

/-- A text begins with the leading blanks that are dropped. -/
theorem exists_append_dropWhile (cs : List Char) :
    ∃ before, AllBlank before ∧ cs = before ++ cs.dropWhile isBlank :=
  ⟨cs.takeWhile isBlank, fun _ hc => List.mem_takeWhile_imp hc,
    List.takeWhile_append_dropWhile.symm⟩

theorem head?_dropWhile_isBlank (cs : List Char) :
    ∀ c, (cs.dropWhile isBlank).head? = some c → isBlank c = false := by
  intro c hc
  have hnot := List.head?_dropWhile_not isBlank cs
  rw [hc] at hnot
  exact hnot

/-- Around what trimming leaves there are only blanks. -/
theorem padded_trimChars (cs : List Char) : Padded cs (trimChars cs) := by
  obtain ⟨before, hbefore, heq⟩ := exists_append_dropWhile cs
  obtain ⟨after, hafter, heq'⟩ := exists_append_dropWhile (cs.dropWhile isBlank).reverse
  refine ⟨before, after.reverse, hbefore, hafter.reverse, ?_⟩
  rw [trimChars, List.append_assoc, ← List.reverse_append, ← heq', List.reverse_reverse]
  exact heq

/-- Trimming a padded text leaves the text inside, if that one is trimmed. -/
theorem trimChars_of_padded (h : Padded cs core) (hcore : IsTrimmed core) :
    trimChars cs = core := by
  obtain ⟨before, after, hbefore, hafter, rfl⟩ := h
  cases core with
  | nil =>
      apply trimChars_eq_nil_iff.mpr
      rw [List.append_nil]
      exact hbefore.append hafter
  | cons c core =>
      have hfront : (before ++ (c :: core) ++ after).dropWhile isBlank = c :: core ++ after := by
        rw [List.append_assoc]
        exact dropWhile_isBlank_append hbefore hcore.head
      rw [trimChars, hfront, List.reverse_append,
        dropWhile_isBlank_append hafter.reverse hcore.reverse.head, List.reverse_reverse]

/-- What trimming leaves is trimmed. -/
theorem isTrimmed_trimChars (cs : List Char) : IsTrimmed (trimChars cs) where
  head := by
    intro c hc
    -- The blanks behind are dropped from a text that begins with no blank.
    obtain ⟨after, -, heq⟩ := exists_append_dropWhile (cs.dropWhile isBlank).reverse
    have hfront : cs.dropWhile isBlank = trimChars cs ++ after.reverse := by
      rw [trimChars, ← List.reverse_append, ← heq, List.reverse_reverse]
    apply head?_dropWhile_isBlank cs c
    rw [hfront, List.head?_append, hc, Option.some_or]
  last := by
    rw [trimChars, List.getLast?_reverse]
    exact head?_dropWhile_isBlank _

/-- Trimming leaves the trimmed text that stands between blanks. -/
theorem trimChars_eq_iff : trimChars cs = core ↔ IsTrimmed core ∧ Padded cs core := by
  constructor
  · rintro rfl
    exact ⟨isTrimmed_trimChars cs, padded_trimChars cs⟩
  · rintro ⟨hcore, hpadded⟩
    exact trimChars_of_padded hpadded hcore

/-- Blanks around a text are trimmed with those of the text. -/
theorem Padded.trimChars_eq (h : Padded text core) : trimChars text = trimChars core :=
  trimChars_of_padded (h.trans (padded_trimChars core)) (isTrimmed_trimChars core)

/-! ## Pieces -/

/-- A beginning without separators belongs to the first piece. -/
theorem splitChars_append_left (h : sep ∉ before) (cs : List Char) :
    splitChars sep (before ++ cs) = (splitChars sep cs).modifyHead (before ++ ·) := by
  induction before with
  | nil =>
      simp only [List.nil_append]
      exact (congrFun List.modifyHead_id _).symm
  | cons c before ih =>
      have hc : c ≠ sep := fun heq => h (by rw [heq]; exact List.mem_cons_self)
      rw [List.cons_append, splitChars_cons_of_ne hc,
        ih fun hmem => h (List.mem_cons_of_mem c hmem), List.modifyHead_modifyHead]
      rfl

/-- Related lists stay related when their first members are changed to related ones. -/
theorem forall₂_modifyHead {related : List Char → List Char → Prop}
    {texts cores : List (List Char)} {f g : List Char → List Char}
    (h : List.Forall₂ related texts cores)
    (hfirst : ∀ text core, related text core → related (f text) (g core)) :
    List.Forall₂ related (texts.modifyHead f) (cores.modifyHead g) := by
  cases h with
  | nil => exact .nil
  | cons hhead hrest => exact .cons (hfirst _ _ hhead) hrest

/-- Blanks in front of a text stand in front of its first piece. -/
theorem forall₂_append_left (hbefore : AllBlank before) (hsep : isBlank sep = false)
    (cs : List Char) :
    List.Forall₂ Padded (splitChars sep (before ++ cs)) (splitChars sep cs) := by
  have hpad := forall₂_modifyHead (f := (before ++ ·)) (g := id)
    (List.forall₂_same.mpr fun piece (_ : piece ∈ splitChars sep cs) => Padded.refl piece)
    fun text core hpadded =>
      Padded.trans ⟨before, [], hbefore, allBlank_nil, (List.append_nil _).symm⟩ hpadded
  rw [splitChars_append_left (hbefore.not_mem hsep)]
  rw [congrFun List.modifyHead_id] at hpad
  exact hpad

/-- A text without separators behind another one belongs to its last piece. -/
theorem forall₂_append_right (h : sep ∉ after) (cs : List Char) :
    List.Forall₂ (fun text core => text = core ∨ text = core ++ after)
      (splitChars sep (cs ++ after)) (splitChars sep cs) := by
  induction cs with
  | nil =>
      rw [List.nil_append, splitChars_of_not_mem h, splitChars_nil]
      exact .cons (.inr rfl) .nil
  | cons c cs ih =>
      rw [List.cons_append]
      by_cases hc : c = sep
      · subst hc
        rw [splitChars_sep, splitChars_sep]
        exact .cons (.inl rfl) ih
      · rw [splitChars_cons_of_ne hc, splitChars_cons_of_ne hc]
        apply forall₂_modifyHead ih
        rintro text core (rfl | rfl)
        · exact .inl rfl
        · exact .inr rfl

/-- Related texts that are trimmed alike have the same trimmed lists. -/
theorem map_trimChars_eq {related : List Char → List Char → Prop} {texts cores : List (List Char)}
    (h : List.Forall₂ related texts cores)
    (halike : ∀ text core, related text core → trimChars text = trimChars core) :
    texts.map trimChars = cores.map trimChars := by
  rw [← List.forall₂_eq_eq_eq, List.forall₂_map_left_iff, List.forall₂_map_right_iff]
  exact h.imp halike

/-- The trimmed pieces of a text are those of the text with blanks around it. -/
theorem map_trimChars_splitChars (hsep : isBlank sep = false) (h : Padded text core) :
    (splitChars sep text).map trimChars = (splitChars sep core).map trimChars := by
  obtain ⟨before, after, hbefore, hafter, rfl⟩ := h
  calc
    (splitChars sep (before ++ core ++ after)).map trimChars =
        (splitChars sep (core ++ after)).map trimChars := by
      rw [List.append_assoc]
      exact map_trimChars_eq (forall₂_append_left hbefore hsep _) fun _ _ h => h.trimChars_eq
    _ = (splitChars sep core).map trimChars := by
      apply map_trimChars_eq (forall₂_append_right (hafter.not_mem hsep) core)
      rintro text piece (rfl | rfl)
      · rfl
      · exact Padded.trimChars_eq ⟨[], after, allBlank_nil, hafter, rfl⟩

end EntityQuery.Text
