import EntityQuery.Proofs.Criteria.Meaning
import EntityQuery.Proofs.Criteria.Requests
import EntityQuery.Proofs.Text.Casing

/-!
# Looking for a part of a text

A criterion that looks for a part of a stored text, spelled as it is stored, selects the
row, whatever wildcards and escape characters the part contains.  Part and text are
lower-cased apart, so this fails for a part with a capital sigma that ends a word in one
of the two and not in the other.

Main results:

- Definition `HoldsText`: a row holds a text in a column.
- Theorem `Request.selects_of_contained`: a row is selected by a part of its text.
- Theorem `Request.not_selects_word_final`: a part that ends in a capital sigma may miss
  the text.
-/

namespace EntityQuery

variable {E : Type}

/-- A row holds a text in a column: the column names declared fields at the end of
relations, and the relations reach a row with the text in one of the fields. -/
def HoldsText (schema : Schema E) (root : E) (column : String) (row : Row) (s : String) : Prop :=
  ∃ path rs, Path.ofColumn? column = some path ∧ schema.follow root path.hops = .ok rs ∧
    (∀ name ∈ path.fields, ∃ f, (schema.entity (lastEntity root rs)).field? name = some f) ∧
    ∃ last, Reaches (some row) path.hops last ∧ ∃ name ∈ path.fields, valueAt last name = .text s

/-! ## Compiling -/

section Contain

variable {schema : Schema E} {root : E} (escape : Char) {column : String} {raws : List RawValue}

/-- A criterion for parts of texts has predicates on declared fields, which are bound as
they are. -/
theorem Scope.exists_branches_contain (raws : List RawValue) (s : Scope E) {names : List String}
    (h : ∀ name ∈ names, ∃ f, (schema.entity s.root).field? name = some f) :
    ∃ parts, s.branches schema escape ⟨column, .contain, raws⟩ .root names = .ok parts ∧
      ∀ p ∈ parts, p.bind = .ok p := by
  induction names with
  | nil => exact ⟨[], rfl, fun p hp => nomatch hp⟩
  | cons name names ih =>
      obtain ⟨f, hf⟩ := h name List.mem_cons_self
      obtain ⟨rest, hrest, hbind⟩ := ih fun n hn => h n (List.mem_cons_of_mem name hn)
      have hroot : s.entityAt .root = s.root := rfl
      refine ⟨(raws.map fun raw => .test ⟨.root, f.name, f.kind⟩
        (Criterion.containsTest escape raw)) ++ rest, ?_, ?_⟩
      · rw [branches, field, hroot]
        simp only [hf, hrest, Criterion.predicatesFor]
        rfl
      · intro p hp
        rcases List.mem_append.mp hp with hp | hp
        · obtain ⟨raw, -, rfl⟩ := List.mem_map.mp hp
          rfl
        · exact hbind p hp

/-- A criterion for a part of a text compiles and binds on a column of declared fields. -/
theorem Criterion.exists_seeks_contain (hraws : raws ≠ []) {path : Path}
    {rs : List (Relation E)} (hpath : Path.ofColumn? column = some path)
    (hfollow : schema.follow root path.hops = .ok rs)
    (hfields : ∀ name ∈ path.fields, ∃ f,
      (schema.entity (lastEntity root rs)).field? name = some f) :
    ∃ raw q, probe schema escape root ⟨column, .contain, raws⟩ = .ok raw ∧ raw.bind = .ok q := by
  obtain ⟨parts, hparts, hbind⟩ : ∃ parts, (Scope.new (lastEntity root rs)).branches schema escape
      ⟨column, .contain, raws⟩ .root path.fields = .ok parts ∧ ∀ p ∈ parts, p.bind = .ok p :=
    Scope.exists_branches_contain escape raws _ hfields
  have hvalues : ¬ (Operator.contain.requiresValues && raws.isEmpty) = true := by
    simpa [Operator.requiresValues] using hraws
  refine ⟨⟨rs, .any parts⟩, ⟨rs, .any parts⟩, ?_, ?_⟩
  · simp only [probe, if_neg hvalues, hpath, hfollow, hparts]
    rfl
  · rw [Probe.bind, Predicate.bind, Predicate.bindEach_eq_collect, collect_eq_self hbind]
    rfl

end Contain

/-! ## Selecting -/

namespace Request

/-- Under an accepted configuration, a request for a part of a text selects the rows that
hold the text in its column, if no capital sigma of the part ends a word in one of them
and not in the other. -/
theorem selects_of_contained {schema : Schema E} {config : Config} {root : E}
    (hconfig : config.validate = .ok ()) {r : Request} {column : String} {raw : RawValue}
    (hcriteria : r.criteria = [⟨column, .contain, [raw]⟩]) (halternatives : r.orCriteria = [])
    {row : Row} {s : String} (hrow : HoldsText schema root column row s)
    {before after : List Char} (hs : s.toList = before ++ raw.display.toList ++ after)
    (hsigmas : Text.SigmasAgree before raw.display.toList after) :
    r.Selects schema config root row := by
  have hescape : config.escape ≠ '%' := (Config.validate_eq_ok_iff.mp hconfig).2.1
  obtain ⟨path, rs, hpath, hfollow, hfields, last, hlast, name, hname, hvalue⟩ := hrow
  obtain ⟨probe, q, hprobe, hbind⟩ := Criterion.exists_seeks_contain config.escape
    (List.cons_ne_nil raw []) hpath hfollow hfields
  rw [selects_iff_of_single hcriteria halternatives]
  refine ⟨q, ⟨probe, hprobe, hbind⟩, ?_⟩
  rw [Criterion.finds_iff_holds hescape hprobe hbind]
  obtain ⟨f, hf⟩ := hfields name hname
  refine ⟨path, rs, hpath, hfollow, last, hlast, name, hname, f, hf, ?_⟩
  rw [hvalue]
  refine ⟨s, rfl, raw, List.mem_singleton_self raw, ?_⟩
  rw [hs]
  exact hsigmas.infix_lowerChars

/-- A wildcard and the escape character are found as stored, and so is a sigma that the
escape character follows: it ends a word in the part as well as in the text. -/
theorem selects_of_contained_title :
    let book : Entity Unit := ⟨"book", "Book", "id", [⟨"title", .text⟩], []⟩
    let schema : Schema Unit := ⟨fun _ => book⟩
    let config : Config := { escape := '!' }
    let r : Request := { page := 0, criteria := [⟨"title", .contain, [.text "_ΟΣ!Α"]⟩] }
    let row : Row := .mk [("title", .text "100%_ΟΣ!ΑΣ")] []
    r.Selects schema config () row := by
  intro book schema config r row
  have hrow : HoldsText schema () "title" row "100%_ΟΣ!ΑΣ" := by
    refine ⟨⟨[], ["title"]⟩, [], by decide, rfl, ?_, some row, .here _, "title", ?_, rfl⟩
    · intro name hname
      rw [List.mem_singleton.mp hname]
      exact ⟨_, rfl⟩
    · exact List.mem_singleton_self _
  have hs : "100%_ΟΣ!ΑΣ".toList =
      "100%".toList ++ (RawValue.text "_ΟΣ!Α").display.toList ++ ['Σ'] := by decide
  exact selects_of_contained rfl rfl rfl hrow hs (by decide +kernel)

/-- A part that ends in a capital sigma is not found in a text that goes on there: alone
it ends in a final sigma, and the text has none. -/
theorem not_selects_word_final :
    let book : Entity Unit := ⟨"book", "Book", "id", [⟨"title", .text⟩], []⟩
    let schema : Schema Unit := ⟨fun _ => book⟩
    let config : Config := {}
    let r : Request := { page := 0, criteria := [⟨"title", .contain, [.text "ΑΣ"]⟩] }
    let row : Row := .mk [("title", .text "ΑΣΑ")] []
    config.validate = .ok () ∧ HoldsText schema () "title" row "ΑΣΑ" ∧
      "ΑΣ".toList <:+: "ΑΣΑ".toList ∧ ¬ r.Selects schema config () row := by
  intro book schema config r row
  have hrow : HoldsText schema () "title" row "ΑΣΑ" := by
    refine ⟨⟨[], ["title"]⟩, [], by decide, rfl, ?_, some row, .here _, "title", ?_, rfl⟩
    · intro name hname
      rw [List.mem_singleton.mp hname]
      exact ⟨_, rfl⟩
    · exact List.mem_singleton_self _
  exact ⟨rfl, hrow, by decide, by decide +kernel⟩

end Request

end EntityQuery
