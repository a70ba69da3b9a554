import EntityQuery.Path
import EntityQuery.Proofs.Text.Trimming

/-!
# How paths are spelled

A column spells a path when it is written as the hops and the fields of the path with their
separators between them, and with any blanks around each of them.  Reading a column yields the
path that it spells, and a column is read unless one of its pieces is blank.

Main results:

- Definition `Path.Cut`: the pieces of a column between its separators.
- Definition `Path.Spells`: the columns that spell a path.
- Theorem `Path.Cut.ofColumn?_eq_some_iff`: a column is read piece by piece.
- Theorem `Path.ofColumn?_eq_some_iff`: a column is read as the path that it spells.
- Theorem `Path.reading_inverts_spelling`: when a column is read, and what rendering gives back.
-/

namespace EntityQuery

/-! ## Texts with separators -/

namespace Text

variable {sep c : Char} {pieces : List String} {s : String}

/-- A character of joined pieces is the separator or stands in a piece. -/
theorem mem_intercalate_iff {pieces : List (List Char)} (hc : c ≠ sep) :
    c ∈ [sep].intercalate pieces ↔ ∃ piece ∈ pieces, c ∈ piece := by
  match pieces with
  | [] => simp
  | [piece] => simp
  | piece :: next :: pieces =>
      have hrest : c ∈ [sep].intercalate (next :: pieces) ↔
          ∃ piece ∈ next :: pieces, c ∈ piece := mem_intercalate_iff hc
      rw [List.intercalate_cons_cons, List.mem_append, List.mem_append, hrest]
      simp [hc]

/-- A character other than the separator stands in joined pieces where it does in a piece. -/
theorem mem_join_iff (hc : c ≠ sep) :
    c ∈ (join sep pieces).toList ↔ ∃ piece ∈ pieces, c ∈ piece.toList := by
  rw [join, String.toList_ofList, mem_intercalate_iff hc]
  simp

/-- Joining the pieces of a text gives the text back. -/
theorem join_split (sep : Char) (s : String) : join sep (split sep s) = s := by
  have htexts : (split sep s).map String.toList = splitChars sep s.toList := by
    simp [split, Function.comp_def]
  rw [join, htexts, intercalate_splitChars, String.ofList_toList]

/-- Cutting joined pieces gives the pieces back. -/
theorem split_join (hne : pieces ≠ []) (h : ∀ piece ∈ pieces, sep ∉ piece.toList) :
    split sep (join sep pieces) = pieces := by
  have hcut : splitChars sep ([sep].intercalate (pieces.map String.toList)) =
      pieces.map String.toList := by
    apply splitChars_intercalate (mt List.map_eq_nil_iff.mp hne)
    intro text htext
    obtain ⟨piece, hpiece, rfl⟩ := List.mem_map.mp htext
    exact h piece hpiece
  rw [split, join, String.toList_ofList, hcut]
  simp [Function.comp_def]

theorem split_ne_nil (sep : Char) (s : String) : split sep s ≠ [] :=
  mt List.map_eq_nil_iff.mp (splitChars_ne_nil sep s.toList)

/-- No piece holds the separator. -/
theorem not_mem_of_mem_split {piece : String} (h : piece ∈ split sep s) : sep ∉ piece.toList := by
  obtain ⟨text, htext, rfl⟩ := List.mem_map.mp h
  rw [String.toList_ofList]
  exact not_mem_of_mem_splitChars htext

/-- The trimmed pieces of a trimmed text are those of the text. -/
theorem map_trim_split_trim (hsep : isBlank sep = false) (s : String) :
    (split sep (trim s)).map trim = (split sep s).map trim := by
  have htrim : ∀ cs : List Char, trim (String.ofList cs) = String.ofList (trimChars cs) := by
    intro cs
    rw [trim, String.toList_ofList]
  have hpieces : ∀ s : String, (split sep s).map trim =
      ((splitChars sep s.toList).map trimChars).map String.ofList := by
    intro s
    simp [split, Function.comp_def, htrim]
  rw [hpieces, hpieces, toList_trim, map_trimChars_splitChars hsep (padded_trimChars s.toList)]

/-- Trimming leaves the trimmed text that stands between blanks. -/
theorem trim_eq_iff {core : String} :
    trim s = core ↔ IsTrimmed core.toList ∧ Padded s.toList core.toList := by
  rw [← trimChars_eq_iff, ← toList_trim, String.toList_inj]

/-- Trimming a text takes no other characters than blanks from it. -/
theorem mem_trim_iff (hc : isBlank c = false) : c ∈ (trim s).toList ↔ c ∈ s.toList := by
  rw [toList_trim]
  exact ((padded_trimChars s.toList).mem_iff hc).symm

end Text

namespace Path

variable {column : String} {hops fields : List String} {p : Path}

/-! ## Pieces of a column -/

/-- The texts between the separators of a column: points cut it into hops and a last text,
which commas cut into fields. -/
structure Cut (column : String) (hops fields : List String) : Prop where
  column_eq : column = Text.join pathSeparator (hops ++ [Text.join fieldSeparator fields])
  fields_ne_nil : fields ≠ []
  hop_free : ∀ hop ∈ hops, pathSeparator ∉ hop.toList
  field_free : ∀ field ∈ fields, pathSeparator ∉ field.toList ∧ fieldSeparator ∉ field.toList

/-- Points cut a column into its hops and the text of its fields. -/
theorem Cut.split_eq (h : Cut column hops fields) :
    Text.split pathSeparator column = hops ++ [Text.join fieldSeparator fields] := by
  rw [h.column_eq]
  apply Text.split_join (List.append_ne_nil_of_right_ne_nil _ (List.cons_ne_nil _ _))
  intro text htext
  rcases List.mem_append.mp htext with hhop | hlast
  · exact h.hop_free text hhop
  · rw [List.mem_singleton.mp hlast, Text.mem_join_iff (by decide)]
    rintro ⟨field, hfield, hmem⟩
    exact (h.field_free field hfield).1 hmem

/-- Every column is cut into pieces. -/
theorem exists_cut (column : String) :
    ∃ hops last, Text.split pathSeparator column = hops ++ [last] ∧
      Cut column hops (Text.split fieldSeparator last) := by
  have hne := Text.split_ne_nil pathSeparator column
  obtain ⟨hops, last, hsplit⟩ : ∃ hops last, Text.split pathSeparator column = hops ++ [last] :=
    ⟨_, _, (List.dropLast_append_getLast hne).symm⟩
  have hfree : ∀ text ∈ hops ++ [last], pathSeparator ∉ text.toList := by
    intro text htext
    rw [← hsplit] at htext
    exact Text.not_mem_of_mem_split htext
  refine ⟨hops, last, hsplit, ?_, Text.split_ne_nil fieldSeparator last,
    fun hop hhop => hfree hop (List.mem_append_left _ hhop), ?_⟩
  · rw [Text.join_split, ← hsplit, Text.join_split]
  · intro field hfield
    refine ⟨?_, Text.not_mem_of_mem_split hfield⟩
    intro hmem
    apply hfree last (List.mem_append_right _ (List.mem_singleton_self last))
    rw [← Text.join_split fieldSeparator last, Text.mem_join_iff (by decide)]
    exact ⟨field, hfield, hmem⟩

/-- A column is read as its trimmed pieces, unless one of them is blank. -/
theorem Cut.ofColumn?_eq_some_iff (h : Cut column hops fields) :
    ofColumn? column = some p ↔
      (∀ piece ∈ hops ++ fields, Text.trim piece ≠ "") ∧
        p = ⟨hops.map Text.trim, fields.map Text.trim⟩ := by
  have hfields : pieces fieldSeparator (Text.trim (Text.join fieldSeparator fields)) =
      fields.map Text.trim := by
    rw [pieces, Text.map_trim_split_trim (by decide),
      Text.split_join h.fields_ne_nil fun field hfield => (h.field_free field hfield).2]
  have hread : ofColumn? column =
      if ((hops ++ fields).map Text.trim).any (·.isEmpty) then none
      else some ⟨hops.map Text.trim, fields.map Text.trim⟩ := by
    rw [ofColumn?, pieces, h.split_eq]
    simp [ofPieces?, hfields]
  have hblank : ((hops ++ fields).map Text.trim).any (·.isEmpty) = true ↔
      ∃ piece ∈ hops ++ fields, Text.trim piece = "" := by
    simp only [List.any_map, List.any_eq_true, Function.comp_apply, String.isEmpty_iff]
  rw [hread]
  split
  · next hany =>
      obtain ⟨piece, hpiece, htrim⟩ := hblank.mp hany
      exact iff_of_false (fun h => nomatch h) fun h => h.1 piece hpiece htrim
  · next hnone =>
      have hpieces : ∀ piece ∈ hops ++ fields, Text.trim piece ≠ "" :=
        fun piece hpiece htrim => hnone (hblank.mpr ⟨piece, hpiece, htrim⟩)
      rw [Option.some.injEq, and_iff_right hpieces]
      exact eq_comm

/-! ## Spelling -/

/-- A path with hops and fields that can be told apart in a column: they are not empty, have no
blanks at their ends and no separators inside. -/
structure Proper (p : Path) : Prop where
  fields_ne_nil : p.fields ≠ []
  hop : ∀ hop ∈ p.hops, hop ≠ "" ∧ Text.IsTrimmed hop.toList ∧ pathSeparator ∉ hop.toList
  field : ∀ field ∈ p.fields, field ≠ "" ∧ Text.IsTrimmed field.toList ∧
    pathSeparator ∉ field.toList ∧ fieldSeparator ∉ field.toList

/-- The column is the path with blanks around its hops and fields. -/
def Spells (p : Path) (column : String) : Prop :=
  ∃ hops fields : List String,
    List.Forall₂ (fun text hop => Text.Padded text.toList hop.toList) hops p.hops ∧
    List.Forall₂ (fun text field => Text.Padded text.toList field.toList) fields p.fields ∧
    column = Text.join pathSeparator (hops ++ [Text.join fieldSeparator fields])

/-- Rendering a path spells it without blanks. -/
theorem spells_text (p : Path) : p.Spells p.text :=
  ⟨p.hops, p.fields, List.forall₂_same.mpr fun _ _ => .refl _,
    List.forall₂_same.mpr fun _ _ => .refl _, rfl⟩

/-- Padded texts that are trimmed inside are trimmed to what is inside. -/
theorem map_trim_eq {texts cores : List String}
    (h : List.Forall₂ (fun text core => Text.Padded text.toList core.toList) texts cores)
    (hcores : ∀ core ∈ cores, Text.IsTrimmed core.toList) : texts.map Text.trim = cores := by
  induction h with
  | nil => rfl
  | cons hfirst hrest ih =>
      rw [List.map_cons, ih fun core hcore => hcores core (List.mem_cons_of_mem _ hcore),
        Text.trim_eq_iff.mpr ⟨hcores _ List.mem_cons_self, hfirst⟩]

/-- A column that spells a proper path is cut into the padded hops and fields. -/
theorem Spells.exists_cut (h : p.Spells column) (hp : p.Proper) :
    ∃ hops fields, Cut column hops fields ∧ hops.map Text.trim = p.hops ∧
      fields.map Text.trim = p.fields := by
  obtain ⟨hops, fields, hhops, hfields, rfl⟩ := h
  have htrimmed := map_trim_eq hhops fun hop hhop => (hp.hop hop hhop).2.1
  have htrimmed' := map_trim_eq hfields fun field hfield => (hp.field field hfield).2.1
  refine ⟨hops, fields, ⟨rfl, ?_, ?_, ?_⟩, htrimmed, htrimmed'⟩
  · rintro rfl
    exact hp.fields_ne_nil htrimmed'.symm
  · intro text htext
    have hmem : Text.trim text ∈ p.hops := htrimmed ▸ List.mem_map_of_mem htext
    exact mt (Text.mem_trim_iff (by decide)).mpr (hp.hop _ hmem).2.2
  · intro text htext
    have hmem : Text.trim text ∈ p.fields := htrimmed' ▸ List.mem_map_of_mem htext
    obtain ⟨-, -, hpoint, hcomma⟩ := hp.field _ hmem
    exact ⟨mt (Text.mem_trim_iff (by decide)).mpr hpoint,
      mt (Text.mem_trim_iff (by decide)).mpr hcomma⟩

/-- A text is its trimmed core with blanks around it. -/
theorem forall₂_padded_map_trim (texts : List String) :
    List.Forall₂ (fun text core => Text.Padded text.toList core.toList) texts
      (texts.map Text.trim) := by
  rw [List.forall₂_map_right_iff, List.forall₂_same]
  exact fun text _ => (Text.trim_eq_iff.mp rfl).2

/-- The trimmed pieces of a column form a proper path, unless one of them is blank. -/
theorem Cut.proper (h : Cut column hops fields)
    (hpieces : ∀ piece ∈ hops ++ fields, Text.trim piece ≠ "") :
    Proper ⟨hops.map Text.trim, fields.map Text.trim⟩ where
  fields_ne_nil := mt List.map_eq_nil_iff.mp h.fields_ne_nil
  hop := by
    intro hop hhop
    obtain ⟨text, htext, rfl⟩ := List.mem_map.mp hhop
    exact ⟨hpieces text (List.mem_append_left _ htext), (Text.trim_eq_iff.mp rfl).1,
      mt (Text.mem_trim_iff (by decide)).mp (h.hop_free text htext)⟩
  field := by
    intro field hfield
    obtain ⟨text, htext, rfl⟩ := List.mem_map.mp hfield
    obtain ⟨hpoint, hcomma⟩ := h.field_free text htext
    exact ⟨hpieces text (List.mem_append_right _ htext), (Text.trim_eq_iff.mp rfl).1,
      mt (Text.mem_trim_iff (by decide)).mp hpoint, mt (Text.mem_trim_iff (by decide)).mp hcomma⟩

/-- A column is read as the proper path that it spells. -/
theorem ofColumn?_eq_some_iff : ofColumn? column = some p ↔ p.Proper ∧ p.Spells column := by
  constructor
  · intro hread
    obtain ⟨hops, last, -, hcut⟩ := exists_cut column
    obtain ⟨hpieces, rfl⟩ := hcut.ofColumn?_eq_some_iff.mp hread
    exact ⟨hcut.proper hpieces, hops, _, forall₂_padded_map_trim hops,
      forall₂_padded_map_trim _, hcut.column_eq⟩
  · rintro ⟨hp, hspells⟩
    obtain ⟨hops, fields, hcut, hhops, hfields⟩ := hspells.exists_cut hp
    rw [hcut.ofColumn?_eq_some_iff, hhops, hfields]
    refine ⟨?_, rfl⟩
    intro piece hpiece
    rcases List.mem_append.mp hpiece with hpiece | hpiece
    · have hmem : Text.trim piece ∈ p.hops := hhops ▸ List.mem_map_of_mem hpiece
      exact (hp.hop _ hmem).1
    · have hmem : Text.trim piece ∈ p.fields := hfields ▸ List.mem_map_of_mem hpiece
      exact (hp.field _ hmem).1

/-- A text with a piece that is not blank is not blank. -/
theorem trim_ne_empty {last : String}
    (h : ∀ piece ∈ Text.split fieldSeparator last, Text.trim piece ≠ "") :
    Text.trim last ≠ "" := by
  intro hblank
  have hpieces : (Text.split fieldSeparator last).map Text.trim = [""] := by
    rw [← Text.map_trim_split_trim (by decide), hblank]
    rfl
  obtain ⟨piece, hpiece, htrim⟩ : ∃ piece ∈ Text.split fieldSeparator last,
      Text.trim piece = "" := by
    rw [← List.mem_map, hpieces]
    exact List.mem_singleton_self ""
  exact h piece hpiece htrim

/-- A column is read unless a text between points, or a piece of the last of them between
commas, is blank. -/
theorem exists_ofColumn?_iff (column : String) :
    (∃ p, ofColumn? column = some p) ↔
      (∀ segment ∈ Text.split pathSeparator column, Text.trim segment ≠ "") ∧
      ∀ last, (Text.split pathSeparator column).getLast? = some last →
        ∀ piece ∈ Text.split fieldSeparator last, Text.trim piece ≠ "" := by
  obtain ⟨hops, last, hsplit, hcut⟩ := exists_cut column
  simp only [hcut.ofColumn?_eq_some_iff, exists_and_left, exists_eq, and_true, hsplit,
    List.getLast?_concat, Option.some.injEq, forall_eq']
  constructor
  · intro hpieces
    have hfields := fun piece hpiece => hpieces piece (List.mem_append_right hops hpiece)
    refine ⟨?_, hfields⟩
    intro segment hsegment
    rcases List.mem_append.mp hsegment with hhop | hlast
    · exact hpieces segment (List.mem_append_left _ hhop)
    · rw [List.mem_singleton.mp hlast]
      exact trim_ne_empty hfields
  · rintro ⟨hsegments, hfields⟩ piece hpiece
    rcases List.mem_append.mp hpiece with hhop | hfield
    · exact hsegments piece (List.mem_append_left _ hhop)
    · exact hfields piece hfield

/-- A column is read exactly when no text between points and no piece of the last one between
commas is blank; reading undoes spelling, whatever blanks stand around the pieces; and what has
been read is read again after it has been rendered. -/
theorem reading_inverts_spelling :
    (∀ column : String, (∃ p, ofColumn? column = some p) ↔
      (∀ segment ∈ Text.split pathSeparator column, Text.trim segment ≠ "") ∧
      ∀ last, (Text.split pathSeparator column).getLast? = some last →
        ∀ piece ∈ Text.split fieldSeparator last, Text.trim piece ≠ "") ∧
    (∀ (p : Path) (column : String), p.Proper → p.Spells column → ofColumn? column = some p) ∧
    ∀ (column : String) (p : Path), ofColumn? column = some p →
      p.Proper ∧ p.Spells column ∧ ofColumn? p.text = some p := by
  refine ⟨exists_ofColumn?_iff, fun p column hp hspells => ofColumn?_eq_some_iff.mpr ⟨hp, hspells⟩,
    ?_⟩
  intro column p hread
  obtain ⟨hp, hspells⟩ := ofColumn?_eq_some_iff.mp hread
  exact ⟨hp, hspells, ofColumn?_eq_some_iff.mpr ⟨hp, p.spells_text⟩⟩

/-- A comma belongs to a hop and separates the fields, and a blank of any kind stands around
them. -/
theorem reading_inverts_spelling_address :
    let p : Path := ⟨["books", "a,b"], ["city", "main street"]⟩
    let column : String := " books .\ta,b\u3000.city\n, main street"
    p.Proper ∧ p.Spells column ∧ ofColumn? column = some p ∧
      p.text = "books.a,b.city,main street" ∧ ofColumn? p.text = some p := by
  intro p column
  have hread : ofColumn? column = some p := by decide +kernel
  obtain ⟨hp, hspells, htext⟩ := reading_inverts_spelling.2.2 column p hread
  exact ⟨hp, hspells, reading_inverts_spelling.2.1 p column hp hspells, by decide +kernel, htext⟩

end Path

end EntityQuery
