/-!
# Pages

A page holds some of the selected items and knows how many there are in all.

Main results:

- Definitions `Page.totalPages`, `Page.hasNext`: where a page stands among the pages.
- Theorem `hasNext_iff`: there is a next page exactly when items lie behind this one.
-/

namespace EntityQuery

/-- Items of one page, the count of all items, and the place and size of the page. -/
structure Page (α : Type) where
  items : List α
  total : Nat
  page : UInt32
  size : UInt32

namespace Page

variable {α β : Type}

/-- How many pages all items take; there is none of size zero. -/
def totalPages (p : Page α) : Nat :=
  if p.size = 0 then 0 else (p.total + p.size.toNat - 1) / p.size.toNat

/-- How many items the page holds. -/
def elements (p : Page α) : Nat := p.items.length

/-- Whether the page holds no items. -/
def isEmpty (p : Page α) : Bool := p.items.isEmpty

/-- Whether the page is the first. -/
def isFirst (p : Page α) : Bool := p.page == 0

/-- Whether there is a page behind this one. -/
def hasNext (p : Page α) : Bool := p.page.toNat + 1 < p.totalPages

/-- Whether there is no page behind this one. -/
def isLast (p : Page α) : Bool := !p.hasNext

/-- Whether there is a page before this one. -/
def hasPrevious (p : Page α) : Bool := 0 < p.page.toNat

/-- The page of the items' images. -/
def map (f : α → β) (p : Page α) : Page β :=
  { p with items := p.items.map f }

/-- There is a next page exactly when an item lies behind this page. -/
theorem hasNext_iff {p : Page α} (h : p.size ≠ 0) :
    p.hasNext = true ↔ (p.page.toNat + 1) * p.size.toNat < p.total := by
  have hs : 0 < p.size.toNat := by
    rcases Nat.eq_zero_or_pos p.size.toNat with h0 | h0
    · exact absurd (UInt32.toNat_inj.1 (by simpa using h0)) h
    · exact h0
  simp only [hasNext, totalPages, h, if_false, decide_eq_true_eq]
  rw [Nat.lt_div_iff_mul_lt hs]
  constructor <;> intro hlt <;> omega

end Page

end EntityQuery
