import EntityQuery.Config.Basic
import EntityQuery.Path

/-!
# Page requests

What part of the selected rows is wanted: a page, its size, and the order of the rows.
A sort directive may name several columns; they become sort columns one after another,
and blank ones are dropped.

Main results:

- Definition `PageRequest.ofRequest`: the page that a request asks for.
- Theorem `toNat_offset`: the offset of a page never overflows.
-/

namespace EntityQuery

/-- A page of ordered rows. -/
structure PageRequest where
  page : UInt32
  size : UInt32
  order : List (String × Direction) := []
deriving DecidableEq

namespace PageRequest

/-- The sort columns of a directive. -/
def columnsOf (s : SortDirective) : List (String × Direction) :=
  ((Path.pieces fieldSeparator s.column).filter (!·.isEmpty)).map fun column =>
    (column, s.direction)

/-- The page that a request asks for. -/
def ofRequest (r : Request) (config : Config) : PageRequest :=
  { page := r.page
    size := r.normalizedSize config.maxPageSize
    order := r.sort.flatMap columnsOf }

/-- An unordered page; no page is empty by its size. -/
def unordered (page size : UInt32) : PageRequest :=
  { page, size := if size = 0 then 1 else size }

/-- Whether no order is wanted. -/
def isUnsorted (p : PageRequest) : Bool := p.order.isEmpty

/-- The product of two numbers, or the largest number if the product is too large. -/
def saturatingMul (a b : UInt64) : UInt64 :=
  UInt64.ofNat (min (a.toNat * b.toNat) 0xFFFFFFFFFFFFFFFF)

/-- How many rows come before the page. -/
def offset (p : PageRequest) : UInt64 :=
  saturatingMul p.page.toUInt64 p.size.toUInt64

/-- A product that is not too large is the product. -/
theorem toNat_saturatingMul {a b : UInt64} (h : a.toNat * b.toNat < 0x10000000000000000) :
    (saturatingMul a b).toNat = a.toNat * b.toNat := by
  rw [saturatingMul, Nat.min_eq_left (by omega), UInt64.toNat_ofNat']
  exact Nat.mod_eq_of_lt h

/-- The offset never overflows, since a product of 32-bit numbers fits in 64 bits. -/
theorem toNat_offset (p : PageRequest) : p.offset.toNat = p.page.toNat * p.size.toNat := by
  have h1 := p.page.toNat_lt
  have h2 := p.size.toNat_lt
  have h : p.page.toNat * p.size.toNat < 0x10000000000000000 :=
    Nat.lt_of_le_of_lt (Nat.mul_le_mul (Nat.le_of_lt h1) (Nat.le_sub_one_of_lt h2)) (by decide)
  have hsmall : p.page.toUInt64.toNat * p.size.toUInt64.toNat < 0x10000000000000000 := by
    rw [UInt32.toNat_toUInt64, UInt32.toNat_toUInt64]
    exact h
  rw [offset, toNat_saturatingMul hsmall, UInt32.toNat_toUInt64, UInt32.toNat_toUInt64]

end PageRequest

end EntityQuery
