import EntityQuery.Proofs.Table.Selection

/-!
# Reading page after page

The pages of a size cut the sorted selected rows into slices.  Whoever starts with the
first page and goes on while there is a next one reads every row once, in order.

Main results:

- Definition `Reads`: what is read from a page on.
- Theorem `reads_drop`: from a page on, the rows behind the pages before it are read.
- Theorem `Table.pages_cover`: every page is a slice, and together they are all rows.
-/

namespace EntityQuery

/-! ## Slices -/

section Slices

variable {α : Type}

/-- A page with the items of a slice: it starts behind the pages before it, and knows
how many items there are in all. -/
structure Page.IsSlice (page : Page α) (all : List α) (number size : UInt32) : Prop where
  items_eq : page.items = (all.drop (number.toNat * size.toNat)).take size.toNat
  total_eq : page.total = all.length
  page_eq : page.page = number
  size_eq : page.size = size

/-- There is a page behind a slice exactly when there is an item behind it. -/
theorem Page.IsSlice.hasNext_iff {page : Page α} {all : List α} {number size : UInt32}
    (h : page.IsSlice all number size) (hsize : size ≠ 0) :
    page.hasNext = true ↔ (number.toNat + 1) * size.toNat < all.length := by
  have hpage : page.size ≠ 0 := by
    rw [h.size_eq]
    exact hsize
  rw [Page.hasNext_iff hpage, h.page_eq, h.size_eq, h.total_eq]

/-! ## Reading -/

/-- What is read from a page on: its items, and what is read from the next page on as
long as there is one. -/
inductive Reads {ε : Type} (find : UInt32 → Except ε (Page α)) : UInt32 → List α → Prop
  | last {number : UInt32} {page : Page α} (h : find number = .ok page)
      (hlast : page.hasNext = false) : Reads find number page.items
  | next {number : UInt32} {page : Page α} {rest : List α} (h : find number = .ok page)
      (hnext : page.hasNext = true) (hrest : Reads find (number + 1) rest) :
      Reads find number (page.items ++ rest)

variable {ε : Type} {find : UInt32 → Except ε (Page α)} {all : List α} {size : UInt32}

/-- At most one thing is read from a page on. -/
theorem Reads.unique {number : UInt32} {items items' : List α} (h : Reads find number items)
    (h' : Reads find number items') : items = items' := by
  induction h generalizing items' with
  | last hfind hlast =>
      cases h' with
      | last hfind' _ =>
          rw [hfind, Except.ok.injEq] at hfind'
          rw [hfind']
      | next hfind' hnext _ =>
          rw [hfind, Except.ok.injEq] at hfind'
          rw [← hfind', hlast] at hnext
          cases hnext
  | next hfind hnext _ ih =>
      cases h' with
      | last hfind' hlast =>
          rw [hfind, Except.ok.injEq] at hfind'
          rw [← hfind', hnext] at hlast
          cases hlast
      | next hfind' _ hrest' =>
          rw [hfind, Except.ok.injEq] at hfind'
          rw [hfind', ih hrest']

/-- From a page on, the items behind the pages before it are read, as long as all pages
can be numbered. -/
theorem reads_drop (hsize : size ≠ 0)
    (hfind : ∀ number, ∃ page, find number = .ok page ∧ page.IsSlice all number size)
    (hpages : all.length ≤ UInt32.size * size.toNat) (number : UInt32) :
    Reads find number (all.drop (number.toNat * size.toNat)) := by
  -- The induction is on how many items lie behind the page.
  induction hbehind : all.length - (number.toNat + 1) * size.toNat using Nat.strongRecOn
    generalizing number with
  | ind behind ih =>
      obtain ⟨page, hpage, hslice⟩ := hfind number
      have hpos : 0 < size.toNat := by
        rcases Nat.eq_zero_or_pos size.toNat with hzero | hpos
        · exact absurd (UInt32.toNat_inj.mp hzero) hsize
        · exact hpos
      by_cases hnext : page.hasNext = true
      · have hlt := (hslice.hasNext_iff hsize).mp hnext
        have hnumber : number.toNat + 1 < UInt32.size :=
          Nat.lt_of_mul_lt_mul_right (Nat.lt_of_lt_of_le hlt hpages)
        have hsucc : (number + 1).toNat = number.toNat + 1 := by
          rw [UInt32.toNat_add]
          exact Nat.mod_eq_of_lt hnumber
        have hsplit : (number.toNat + 1) * size.toNat = number.toNat * size.toNat + size.toNat :=
          Nat.succ_mul _ _
        have hrest := ih (all.length - (number.toNat + 2) * size.toNat)
          (by rw [← hbehind, Nat.succ_mul (number.toNat + 1)]; omega) (number + 1)
          (by rw [hsucc])
        have hitems : page.items ++ all.drop ((number + 1).toNat * size.toNat) =
            all.drop (number.toNat * size.toNat) := by
          rw [hslice.items_eq, hsucc, hsplit, ← List.drop_drop, List.take_append_drop]
        rw [← hitems]
        exact .next hpage hnext hrest
      · have hge : all.length ≤ (number.toNat + 1) * size.toNat :=
          Nat.le_of_not_lt fun hlt => hnext ((hslice.hasNext_iff hsize).mpr hlt)
        have hitems : page.items = all.drop (number.toNat * size.toNat) := by
          rw [hslice.items_eq]
          apply List.take_of_length_le
          rw [List.length_drop]
          rw [Nat.succ_mul] at hge
          omega
        rw [← hitems]
        exact .last hpage (Bool.eq_false_iff.mpr hnext)

/-- Reading from the first page on yields all items and nothing else. -/
theorem reads_zero_iff (hsize : size ≠ 0)
    (hfind : ∀ number, ∃ page, find number = .ok page ∧ page.IsSlice all number size)
    (hpages : all.length ≤ UInt32.size * size.toNat) {items : List α} :
    Reads find 0 items ↔ items = all := by
  have hall := reads_drop hsize hfind hpages 0
  have hzero : (0 : UInt32).toNat * size.toNat = 0 := Nat.zero_mul _
  rw [hzero, List.drop_zero] at hall
  constructor
  · exact fun h => h.unique hall
  · rintro rfl
    exact hall

end Slices

/-! ## Pages of a table -/

namespace PageRequest

/-- Under an accepted configuration every request gets a page with room for a row, and
never a larger one than the configuration allows. -/
theorem size_ofRequest (r : Request) {config : Config} (h : config.validate = .ok ()) :
    1 ≤ (ofRequest r config).size.toNat ∧
      (ofRequest r config).size.toNat ≤ config.maxPageSize.toNat := by
  have hmax : 0 < config.maxPageSize.toNat := by
    rcases Nat.eq_zero_or_pos config.maxPageSize.toNat with hzero | hpos
    · exact absurd (UInt32.toNat_inj.mp hzero) (Config.validate_eq_ok_iff.mp h).1
    · exact hpos
  exact ⟨r.normalizedSize_pos hmax, r.normalizedSize_le _⟩

end PageRequest

namespace Table

variable {E K : Type} {t : Table K} {schema : Schema E} {entity : E} {spec : Specification E}
  {test : Row → Bool} {order : List (String × Direction)} {keys : List SortKey}

/-- A page is a slice of the sorted selected rows. -/
theorem exists_page_isSlice (hspec : spec.rowTest = .ok test)
    (horder : SortKey.resolveEach schema entity order = .ok keys) (number size : UInt32) :
    ∃ page, t.page schema entity spec ⟨number, size, order⟩ = .ok page ∧
      page.IsSlice (sortRows keys (t.rows.filter test)) number size := by
  refine ⟨_, page_of_rowTest hspec horder, ?_, ?_, rfl, rfl⟩
  · dsimp only
    rw [PageRequest.toNat_offset]
  · exact (perm_sortRows keys (t.rows.filter test)).length_eq.symm

/-- The pages of a specification that binds, in an order that resolves, are the slices
of the sorted selected rows; reading on while there is a next page yields all of these
rows; and the size that a request gets is one that such pages can have. -/
theorem pages_cover (t : Table K) (schema : Schema E) (entity : E) {spec : Specification E}
    {test : Row → Bool} (hspec : spec.rowTest = .ok test)
    {order : List (String × Direction)} {keys : List SortKey}
    (horder : SortKey.resolveEach schema entity order = .ok keys)
    {size : UInt32} (hsize : size ≠ 0) :
    (∀ number : UInt32, ∃ page,
      t.page schema entity spec ⟨number, size, order⟩ = .ok page ∧
      page.items = ((sortRows keys (t.rows.filter test)).drop (number.toNat * size.toNat)).take
        size.toNat ∧
      page.total = (sortRows keys (t.rows.filter test)).length ∧
      t.count spec = .ok page.total ∧
      (PageRequest.mk number size order).offset.toNat = number.toNat * size.toNat ∧
      (page.hasNext = true ↔
        (number.toNat + 1) * size.toNat < (sortRows keys (t.rows.filter test)).length)) ∧
    ((sortRows keys (t.rows.filter test)).length ≤ UInt32.size * size.toNat → ∀ items,
      Reads (fun number => t.page schema entity spec ⟨number, size, order⟩) 0 items ↔
        items = sortRows keys (t.rows.filter test)) ∧
    ∀ (r : Request) (config : Config), config.validate = .ok () →
      1 ≤ (PageRequest.ofRequest r config).size.toNat ∧
        (PageRequest.ofRequest r config).size.toNat ≤ config.maxPageSize.toNat := by
  have hslices := fun number => exists_page_isSlice (t := t) hspec horder number size
  refine ⟨?_, ?_, ?_⟩
  · intro number
    obtain ⟨page, hpage, hslice⟩ := hslices number
    refine ⟨page, hpage, hslice.items_eq, hslice.total_eq, ?_, PageRequest.toNat_offset _,
      hslice.hasNext_iff hsize⟩
    rw [count_of_rowTest hspec, hslice.total_eq, (perm_sortRows keys _).length_eq]
  · intro hpages items
    exact reads_zero_iff hsize hslices hpages
  · intro r config hconfig
    exact PageRequest.size_ofRequest r hconfig

/-- Three of four books are read on two pages, the youngest first. -/
theorem pages_cover_books :
    let book : Entity Unit := ⟨"book", "Book", "id", [⟨"year", .int⟩], []⟩
    let schema : Schema Unit := ⟨fun _ => book⟩
    let row (id year : Int64) : Row := .mk [("id", .int id), ("year", .int year)] []
    let t : Table Int64 := ⟨(·.key "id"), [row 1 1811, row 2 1813, row 3 1815, row 4 1818]⟩
    let spec : Specification Unit :=
      ⟨some (.test ⟨.root, "year", .int⟩ (.compare .gt (.text "1811"))), []⟩
    ∃ test, spec.rowTest = .ok test ∧
      SortKey.resolveEach schema () [("year", .descending)] =
        .ok [⟨[], "year", .descending⟩] ∧
      Reads (fun number => t.page schema () spec ⟨number, 2, [("year", .descending)]⟩) 0
        [row 4 1818, row 3 1815, row 2 1813] := by
  intro book schema row t spec
  let test : Row → Bool := selects ([] : List (Join Unit))
    (.test ⟨.root, "year", .int⟩ (.compare .gt (.int 1811)))
  have hspec : spec.rowTest = .ok test := by
    rfl
  have horder : SortKey.resolveEach schema () [("year", .descending)] =
      .ok [⟨[], "year", .descending⟩] := by
    rfl
  have hrows : sortRows [⟨[], "year", .descending⟩] (t.rows.filter test) =
      [row 4 1818, row 3 1815, row 2 1813] := by
    rfl
  have hreads :=
    (pages_cover t schema () hspec horder (show (2 : UInt32) ≠ 0 by decide)).2.1
  rw [hrows] at hreads
  exact ⟨test, hspec, horder, (hreads (by decide) _).mpr rfl⟩

end Table

end EntityQuery
