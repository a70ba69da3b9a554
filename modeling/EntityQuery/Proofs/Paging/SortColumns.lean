import EntityQuery.Criteria.Validation
import EntityQuery.Paging.PageRequest
import EntityQuery.Proofs.Path.Spelling

/-!
# Sort columns of directives

Commas cut the column of a sort directive into pieces.  A piece with a character that is not
blank names a sort column, its text without the blanks around it; a blank piece names none.
The rows of a page are ordered by the sort columns of all directives, one directive after
another.

A valid request has no blank columns, but the pieces of a column can all be blank when the
column itself is not.  Such a directive is lost.

Main results:

- Definition `SortDirective.Expands`: the sort columns that a directive names.
- Definition `SortDirective.IsLost`: the directives of commas and blanks.
- Theorem `expands_iff_columnsOf_eq`: what a directive names is what it is expanded to.
- Theorem `columnsOf_eq_nil_iff`: when a directive names nothing.
- Theorem `order_of_valid`: the sort columns of a valid request.
-/

namespace EntityQuery

/-! ## Pieces -/

/-- What pieces of a column name: a blank piece nothing, any other one its text without the
blanks around it. -/
inductive NamesColumns (direction : Direction) : List String → List (String × Direction) → Prop
  | nil : NamesColumns direction [] []
  | blank {piece : String} {pieces : List String} {columns : List (String × Direction)}
      (hblank : Text.AllBlank piece.toList) (hrest : NamesColumns direction pieces columns) :
      NamesColumns direction (piece :: pieces) columns
  | named {piece name : String} {pieces : List String} {columns : List (String × Direction)}
      (hname : name ≠ "") (htrimmed : Text.IsTrimmed name.toList)
      (hpadded : Text.Padded piece.toList name.toList)
      (hrest : NamesColumns direction pieces columns) :
      NamesColumns direction (piece :: pieces) ((name, direction) :: columns)

/-- A text trims to nothing exactly when it is blank. -/
theorem Text.trim_eq_empty_iff {s : String} : Text.trim s = "" ↔ Text.AllBlank s.toList := by
  rw [← String.toList_inj, Text.toList_trim]
  exact Text.trimChars_eq_nil_iff

/-- Pieces name the texts that are left when they are trimmed, empty ones aside. -/
theorem namesColumns_iff {direction : Direction} {pieces : List String}
    {columns : List (String × Direction)} :
    NamesColumns direction pieces columns ↔
      ((pieces.map Text.trim).filter (!·.isEmpty)).map (·, direction) = columns := by
  constructor
  · intro h
    induction h with
    | nil => rfl
    | blank hblank _ ih => simp [Text.trim_eq_empty_iff.mpr hblank, ih]
    | named hname htrimmed hpadded _ ih =>
        simp [Text.trim_eq_iff.mpr ⟨htrimmed, hpadded⟩, hname, ih]
  · rintro rfl
    induction pieces with
    | nil => exact .nil
    | cons piece pieces ih =>
        by_cases hblank : Text.trim piece = ""
        · simpa [hblank] using NamesColumns.blank (Text.trim_eq_empty_iff.mp hblank) ih
        · obtain ⟨htrimmed, hpadded⟩ := Text.trim_eq_iff.mp (rfl : Text.trim piece = _)
          simpa [hblank] using NamesColumns.named hblank htrimmed hpadded ih

namespace SortDirective

/-! ## Directives -/

/-- The directive names these sort columns: its column is made of pieces with commas between
them, and the pieces name the sort columns in the direction of the directive. -/
def Expands (d : SortDirective) (columns : List (String × Direction)) : Prop :=
  ∃ pieces, pieces ≠ [] ∧ (∀ piece ∈ pieces, fieldSeparator ∉ piece.toList) ∧
    d.column = Text.join fieldSeparator pieces ∧ NamesColumns d.direction pieces columns

/-- The column of the directive has a comma, and beside commas only blanks. -/
def IsLost (d : SortDirective) : Prop :=
  fieldSeparator ∈ d.column.toList ∧
    ∀ c ∈ d.column.toList, c ≠ fieldSeparator → Text.isBlank c = true

variable {d : SortDirective} {columns : List (String × Direction)}

/-- What a directive names is what it is expanded to. -/
theorem expands_iff_columnsOf_eq : d.Expands columns ↔ PageRequest.columnsOf d = columns := by
  constructor
  · rintro ⟨pieces, hne, hfree, hcolumn, hnames⟩
    rw [PageRequest.columnsOf, Path.pieces, hcolumn, Text.split_join hne hfree]
    exact namesColumns_iff.mp hnames
  · intro h
    refine ⟨Text.split fieldSeparator d.column, Text.split_ne_nil _ _,
      fun piece hpiece => Text.not_mem_of_mem_split hpiece, (Text.join_split _ _).symm, ?_⟩
    exact namesColumns_iff.mpr h

/-- A directive names nothing when all characters of its column other than commas are
blank. -/
theorem columnsOf_eq_nil_iff : PageRequest.columnsOf d = [] ↔
    ∀ c ∈ d.column.toList, c ≠ fieldSeparator → Text.isBlank c = true := by
  have hpieces : PageRequest.columnsOf d = [] ↔
      ∀ piece ∈ Text.split fieldSeparator d.column, Text.AllBlank piece.toList := by
    simp [PageRequest.columnsOf, Path.pieces, Text.trim_eq_empty_iff]
  rw [hpieces]
  constructor
  · intro h c hc hne
    rw [← Text.join_split fieldSeparator d.column, Text.mem_join_iff hne] at hc
    obtain ⟨piece, hpiece, hmem⟩ := hc
    exact h piece hpiece c hmem
  · intro h piece hpiece c hc
    have hne : c ≠ fieldSeparator := by
      rintro rfl
      exact Text.not_mem_of_mem_split hpiece hc
    apply h c _ hne
    rw [← Text.join_split fieldSeparator d.column, Text.mem_join_iff hne]
    exact ⟨piece, hpiece, hc⟩

/-- A directive with a column that is not blank names nothing exactly when it is lost. -/
theorem columnsOf_eq_nil_iff_isLost (h : Text.isBlankText d.column = false) :
    PageRequest.columnsOf d = [] ↔ d.IsLost := by
  rw [columnsOf_eq_nil_iff, IsLost, iff_and_self]
  intro hblanks
  -- Without commas every character of the column would be blank.
  by_contra hcomma
  have hnil : Text.trimChars d.column.toList = [] := by
    rw [Text.trimChars_eq_nil_iff]
    intro c hc
    apply hblanks c hc
    rintro rfl
    exact hcomma hc
  simp [Text.isBlankText, hnil] at h

end SortDirective

/-! ## Requests -/

namespace PageRequest

/-- The rows of a valid request are ordered by the sort columns of its directives, one directive
after another, and a directive adds no sort column exactly when it is lost. -/
theorem order_of_valid {r : Request} (config : Config) (hvalid : r.validate = .ok ()) :
    ∃ parts : List (List (String × Direction)),
      (ofRequest r config).order = parts.flatten ∧
      List.Forall₂ (fun d part => d.Expands part ∧ (part = [] ↔ d.IsLost)) r.sort parts := by
  refine ⟨r.sort.map columnsOf, rfl, ?_⟩
  rw [List.forall₂_map_right_iff, List.forall₂_same]
  intro d hd
  obtain ⟨-, -, hsort⟩ := Request.validate_eq_ok_iff.mp hvalid
  exact ⟨SortDirective.expands_iff_columnsOf_eq.mpr rfl,
    SortDirective.columnsOf_eq_nil_iff_isLost (hsort d hd)⟩

/-- Between two directives that name sort columns, one of them with blank pieces, stands a
directive that is lost. -/
theorem order_of_valid_books :
    let titles : SortDirective := ⟨" title , ,\u3000author.name,", .descending⟩
    let commas : SortDirective := ⟨", ,", .ascending⟩
    let years : SortDirective := ⟨"year", .ascending⟩
    let r : Request := { page := 0, sort := [titles, commas, years] }
    r.validate = .ok () ∧
      (ofRequest r {}).order =
        [("title", .descending), ("author.name", .descending), ("year", .ascending)] ∧
      ∃ first third, (ofRequest r {}).order = first ++ third ∧
        titles.Expands first ∧ commas.Expands [] ∧ years.Expands third ∧ commas.IsLost := by
  intro titles commas years r
  have hvalid : r.validate = .ok () := by decide +kernel
  obtain ⟨parts, horder, hparts⟩ := order_of_valid {} hvalid
  rcases hparts with _ | ⟨hfirst, _ | ⟨hsecond, _ | ⟨hthird, _ | _⟩⟩⟩
  next first second third =>
    have hlost : commas.IsLost := by
      have hcolumn : commas.column.toList = [',', ' ', ','] := by decide +kernel
      rw [SortDirective.IsLost, hcolumn]
      simp [fieldSeparator, Text.isBlank]
    have hnone : second = [] := hsecond.2.mpr hlost
    subst hnone
    exact ⟨hvalid, by decide +kernel, first, third, by simpa using horder, hfirst.1, hsecond.1,
      hthird.1, hlost⟩

/-- A valid request whose only directive names nothing is not ordered at all. -/
theorem order_of_lone_comma :
    let r : Request := { page := 0, size := 10, sort := [⟨",", .ascending⟩] }
    r.validate = .ok () ∧ (ofRequest r {}).order = [] ∧
      ¬ ∃ parts : List (List (String × Direction)),
        (ofRequest r {}).order = parts.flatten ∧
        List.Forall₂ (fun d part => d.Expands part ∧ part ≠ []) r.sort parts := by
  intro r
  have hnone : (ofRequest r {}).order = [] := by decide +kernel
  refine ⟨by decide +kernel, hnone, ?_⟩
  rintro ⟨parts, horder, hparts⟩
  rcases hparts with _ | ⟨⟨-, hne⟩, _⟩
  rw [hnone, List.flatten_cons, eq_comm, List.append_eq_nil_iff] at horder
  exact hne horder.1

end PageRequest

end EntityQuery
