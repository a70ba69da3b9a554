import EntityQuery.Proofs.Criteria.Opposites
import EntityQuery.Proofs.Join.History
import EntityQuery.Proofs.Path.Spelling

/-!
# Sort columns and criteria

A sort column is resolved without joins and read by following the first related row at
every hop.  A criterion cuts the same text into a path, opens joins for the hops and reads
what an assignment of them brings in.  For texts without commas both accept the same
columns, as long as the relations lead to one row each, and on rows where they do so in
fact both read the same value.

Main results:

- Definition `Schema.Named`: the schemas in which fields and relations have names.
- Definition `SortKey.Opens`: what a criterion makes of the column of a key.
- Theorem `SortKey.resolveFrom_eq_ok_iff`: a sort path is resolved along its relations.
- Theorem `Assignment.value_of_compile`: what criteria read along single rows.
- Theorem `SortKey.reads_as_criteria`: sorting and criteria agree on columns.
-/

namespace EntityQuery

/-! ## Columns without commas -/

namespace Text

/-- A text without the separator is its only piece. -/
theorem split_of_not_mem {sep : Char} {s : String} (h : sep ∉ s.toList) : split sep s = [s] := by
  rw [split, splitChars_of_not_mem h, List.map_singleton, String.ofList_toList]

end Text

namespace Path

variable {column : String}

/-- A column without commas is cut into hops and one name, and read as the path of them
unless one is empty. -/
theorem exists_pieces_of_not_mem (hcomma : fieldSeparator ∉ column.toList) :
    ∃ hops name, pieces pathSeparator column = hops ++ [name] ∧ ∀ p, ofColumn? column = some p ↔
      (∀ piece ∈ hops ++ [name], piece ≠ "") ∧ p = ⟨hops, [name]⟩ := by
  obtain ⟨hops, last, hsplit, hcut⟩ := exists_cut column
  have hlast : fieldSeparator ∉ last.toList := by
    intro hmem
    apply hcomma
    rw [← Text.join_split pathSeparator column, hsplit, Text.mem_join_iff (by decide)]
    exact ⟨last, List.mem_append_right _ (List.mem_singleton_self last), hmem⟩
  rw [Text.split_of_not_mem hlast] at hcut
  refine ⟨hops.map Text.trim, Text.trim last, by simp [pieces, hsplit], fun p => ?_⟩
  rw [hcut.ofColumn?_eq_some_iff]
  simp [or_imp, forall_and]

end Path

variable {E : Type} {schema : Schema E} {root e : E} {hops : List String}
  {rs : List (Relation E)}

/-! ## Named schemas -/

/-- The fields and the relations of a schema have names. -/
structure Schema.Named (schema : Schema E) : Prop where
  field : ∀ e, ∀ f ∈ (schema.entity e).fields, f.name ≠ ""
  relation : ∀ e, ∀ r ∈ (schema.entity e).relations, r.name ≠ ""

/-- Hops that can be followed in a named schema are not empty. -/
theorem Schema.Named.ne_empty_of_follow (h : schema.Named)
    (hfollow : schema.follow e hops = .ok rs) : ∀ hop ∈ hops, hop ≠ "" := by
  induction hops generalizing e rs with
  | nil => exact fun hop hhop => nomatch hhop
  | cons hop hops ih =>
      obtain ⟨r, rest, hr, hrest, rfl⟩ := exists_of_follow_cons hfollow
      rw [List.forall_mem_cons]
      refine ⟨?_, ih hrest⟩
      rw [← Entity.name_of_relation? hr]
      exact h.relation e r (Entity.mem_of_relation? hr)

/-! ## Resolution -/

namespace SortKey

/-- Following hops along relations to one row each leads to an entity with the field. -/
def Resolves (schema : Schema E) (field : String) (e : E) (hops : List String) : Prop :=
  ∃ rs, schema.follow e hops = .ok rs ∧ (∀ r ∈ rs, r.cardinality = .one) ∧
    ∃ f, (schema.entity (lastEntity e rs)).field? field = some f

theorem resolves_nil_iff {field : String} :
    Resolves schema field e [] ↔ ∃ f, (schema.entity e).field? field = some f := by
  constructor
  · rintro ⟨rs, hrs, -, hfield⟩
    cases hrs
    exact hfield
  · exact fun hfield => ⟨[], rfl, List.forall_mem_nil _, hfield⟩

theorem resolves_cons_iff {field hop : String} :
    Resolves schema field e (hop :: hops) ↔ ∃ r, (schema.entity e).relation? hop = some r ∧
      r.cardinality = .one ∧ Resolves schema field r.target hops := by
  constructor
  · rintro ⟨rs, hrs, hone, hfield⟩
    obtain ⟨r, rest, hr, hrest, rfl⟩ := Schema.exists_of_follow_cons hrs
    rw [List.forall_mem_cons] at hone
    exact ⟨r, hr, hone.1, rest, hrest, hone.2, hfield⟩
  · rintro ⟨r, hr, hone, rest, hrest, hones, hfield⟩
    refine ⟨r :: rest, ?_, List.forall_mem_cons.mpr ⟨hone, hones⟩, hfield⟩
    simp only [Schema.follow, hr, hrest]
    rfl

/-- A sort path is resolved along its relations, and the names found are those sought. -/
theorem resolveFrom_eq_ok_iff {column field name : String} {names : List String} :
    resolveFrom schema column field e hops = .ok (names, name) ↔
      names = hops ∧ name = field ∧ Resolves schema field e hops := by
  -- The induction is on the hops, and every hop moves on to the target of its relation.
  induction hops generalizing e names with
  | nil =>
      rw [resolveFrom, resolves_nil_iff]
      cases hfield : (schema.entity e).field? field with
      | none => simp
      | some f => simp [Entity.name_of_field? hfield, eq_comm]
  | cons hop hops ih =>
      rw [resolveFrom, resolves_cons_iff]
      cases hr : (schema.entity e).relation? hop with
      | none => simp
      | some r =>
          have hname := Entity.name_of_relation? hr
          cases hone : r.cardinality with
          | many => simp [hone]
          | one =>
              simp only [Option.some.injEq, exists_eq_left', hone, true_and]
              constructor
              · intro h
                obtain ⟨⟨names', name'⟩, hrest, heq⟩ := exists_of_map_eq_ok h
                cases heq
                obtain ⟨rfl, rfl, hresolves⟩ := ih.mp hrest
                exact ⟨by rw [hname], rfl, hresolves⟩
              · rintro ⟨rfl, rfl, hresolves⟩
                rw [ih.mpr ⟨rfl, rfl, hresolves⟩, ← hname]
                rfl

/-- In a named schema neither the hops nor the field of a path are empty. -/
theorem Resolves.ne_empty {field : String} (h : Resolves schema field e hops)
    (hnamed : schema.Named) : ∀ piece ∈ hops ++ [field], piece ≠ "" := by
  obtain ⟨rs, hfollow, -, f, hfield⟩ := h
  have hname : field ≠ "" := by
    rw [← Entity.name_of_field? hfield]
    exact hnamed.field _ f (Entity.mem_of_field? hfield)
  rw [List.forall_mem_append, List.forall_mem_singleton]
  exact ⟨hnamed.ne_empty_of_follow hfollow, hname⟩

/-- A column without commas is accepted for sorting when it is read as a path of one field
that can be followed to it along relations to one row each. -/
theorem resolve_eq_ok_iff {column : String} {direction : Direction} {k : SortKey}
    (hnamed : schema.Named) (hcomma : fieldSeparator ∉ column.toList) :
    resolve schema root (column, direction) = .ok k ↔ k.direction = direction ∧
      Path.ofColumn? column = some ⟨k.hops, [k.field]⟩ ∧ Resolves schema k.field root k.hops := by
  obtain ⟨hops, name, hpieces, hread⟩ := Path.exists_pieces_of_not_mem hcomma
  have hresolve : resolve schema root (column, direction) =
      (resolveFrom schema column name root hops).map fun found =>
        ⟨found.1, found.2, direction⟩ := by
    simp [resolve, hpieces]
  rw [hresolve]
  constructor
  · intro h
    obtain ⟨⟨hops', name'⟩, hfrom, rfl⟩ := exists_of_map_eq_ok h
    obtain ⟨rfl, rfl, hresolves⟩ := resolveFrom_eq_ok_iff.mp hfrom
    exact ⟨rfl, (hread _).mpr ⟨hresolves.ne_empty hnamed, rfl⟩, hresolves⟩
  · obtain ⟨hops', name', direction'⟩ := k
    rintro ⟨rfl, hcolumn, hresolves⟩
    obtain ⟨-, hpath⟩ := (hread _).mp hcolumn
    cases hpath
    rw [resolveFrom_eq_ok_iff.mpr ⟨rfl, rfl, hresolves⟩]
    rfl

/-! ## What a criterion makes of a column -/

/-- A criterion reads the column of a key along the key.  The column is the path of the
hops and the field of the key, the hops open joins to one row each, and the source at the
end of them has the field. -/
structure Opens (k : SortKey) (schema : Schema E) (root : E) (column : String) (s : Scope E)
    (f : FieldRef) : Prop where
  ofColumn?_eq : Path.ofColumn? column = some ⟨k.hops, [k.field]⟩
  exists_source : ∃ source, (Scope.new root).openPath schema .root k.hops = (.ok source, s) ∧
    s.field schema source k.field = .ok f
  toOne : ∀ join ∈ s.joins, join.relation.cardinality = .one
  names_eq : s.joins.map (·.relation.name) = k.hops
  name_eq : f.name = k.field

end SortKey

/-- The relations of a chain of joins. -/
theorem map_relation_chain (id : Nat) (source : Source) (rs : List (Relation E)) :
    (chain id source rs).map (·.relation) = rs := by
  induction rs generalizing id source with
  | nil => rfl
  | cons r rs ih => rw [chain, List.map_cons, ih]

namespace SortKey

/-- A criterion reads a column along a key when the key resolves. -/
theorem exists_opens_iff {column : String} {k : SortKey} :
    (∃ s f, k.Opens schema root column s f) ↔
      Path.ofColumn? column = some ⟨k.hops, [k.field]⟩ ∧ Resolves schema k.field root k.hops := by
  constructor
  · rintro ⟨s, f, h⟩
    obtain ⟨source, hopen, hfound⟩ := h.exists_source
    obtain ⟨rs, hfollow, rfl, rfl⟩ := Scope.exists_of_openPath hopen
    obtain ⟨field, hfield, -⟩ := Scope.field_eq_ok_iff.mp hfound
    rw [Scope.entityAt_chainEnd] at hfield
    refine ⟨h.ofColumn?_eq, rs, hfollow, ?_, field, hfield⟩
    intro r hr
    rw [← map_relation_chain 0 .root rs] at hr
    obtain ⟨join, hjoin, rfl⟩ := List.mem_map.mp hr
    exact h.toOne join hjoin
  · rintro ⟨hcolumn, rs, hfollow, hone, field, hfield⟩
    refine ⟨_, ⟨chainEnd 0 .root rs, k.field, field.kind⟩, hcolumn,
      ⟨_, Scope.openPath_of_follow _ .root hfollow, ?_⟩, ?_, ?_, rfl⟩
    · rw [Scope.field_eq_ok_iff, Scope.entityAt_chainEnd]
      exact ⟨field, hfield, rfl⟩
    · intro join hjoin
      apply hone
      rw [← map_relation_chain 0 .root rs]
      exact List.mem_map_of_mem hjoin
    · calc
        (chain 0 .root rs).map (·.relation.name)
          = ((chain 0 .root rs).map (·.relation)).map (·.name) := by rw [List.map_map]; rfl
        _ = k.hops := by rw [map_relation_chain, Schema.names_of_follow hfollow]

end SortKey

/-! ## Values -/

/-- Along single rows, a criterion reads its fields from the row that following the hops
of its path leads to, in a scope with joins, too. -/
theorem Assignment.value_of_compile {s s' : Scope E} {escape : Char} {c : Criterion}
    {p : Predicate} {path : Path} {row : Row} {choice : Choice} (hs : WellFormedJoins s.joins)
    (hcompile : s.compile schema escape c = (.ok p, s')) (hchoice : Assignment s'.joins row choice)
    (hpath : Path.ofColumn? c.column = some path) (hsingle : row.SingleAlong path.hops) :
    ∀ f ∈ p.fields, f.name ∈ path.fields ∧
      choice.value f = valueAt (row.follow? path.hops) f.name := by
  obtain ⟨path', rs, hpath', hfollow, rfl, hfields⟩ := Scope.exists_of_compile hcompile
  rw [hpath, Option.some.injEq] at hpath'
  subst hpath'
  have hend : choice.row? (chainEnd s.joins.length .root rs) = row.follow? path.hops := by
    have hj := hs.append_chain .root trivial rs
    have hreaches := hchoice.reaches_chain s.joins.length .root fun join hjoin =>
      hj.getElem?_id (List.mem_append_right _ hjoin)
    rw [Schema.names_of_follow hfollow, Choice.row?, hchoice.root_eq] at hreaches
    exact (reaches_iff_of_singleAlong hsingle).mp hreaches
  intro f hf
  obtain ⟨name, hname, hfound⟩ := hfields f hf
  obtain ⟨field, -, rfl⟩ := Scope.field_eq_ok_iff.mp hfound
  exact ⟨hname, by rw [Choice.value, hend]; rfl⟩

namespace SortKey

/-- Where it resolves, a key is null exactly for the rows that a request for nulls in its
column selects. -/
theorem exists_runs_isNull {config : Config} {column : String} {k : SortKey} {r : Request}
    {values : List RawValue} (hcolumn : Path.ofColumn? column = some ⟨k.hops, [k.field]⟩)
    (hresolves : Resolves schema k.field root k.hops) (hasks : r.Asks ⟨column, .isNull, values⟩) :
    ∃ test, r.Runs schema config root test ∧ ∀ row, row.SingleAlong k.hops →
      (test row = true ↔ k.value row = .null) := by
  obtain ⟨rs, hfollow, -, f, hfield⟩ := hresolves
  have hname := Entity.name_of_field? hfield
  have hnames : schema.NamesField root column k.hops f :=
    ⟨by rw [hname]; exact hcolumn, rs, hfollow, by rw [hname]; exact hfield⟩
  obtain ⟨test, hruns, htest⟩ := hasks.exists_runs hnames Bool.false_ne_true rfl rfl
  refine ⟨test, hruns, fun row hsingle => ?_⟩
  rw [htest row hsingle, Predicate.evaluateAt_test, Test.evaluate_isNull_eq_yes_iff, hname]
  rfl

/-- In a named schema, a column without commas is accepted for sorting when criteria read
it as a path along relations to one row each and to one field.  The key has the hops and
the field of that path.  Wherever no relation on the path holds a second row, criteria on
the column read the value of the key, and the key is null for the rows that a request for
nulls in the column selects. -/
theorem reads_as_criteria (schema : Schema E) (config : Config) (root : E) {column : String}
    (hnamed : schema.Named) (hcomma : fieldSeparator ∉ column.toList) (direction : Direction)
    (k : SortKey) :
    (resolve schema root (column, direction) = .ok k ↔
      k.direction = direction ∧ ∃ s f, k.Opens schema root column s f) ∧
    (resolve schema root (column, direction) = .ok k →
      (∀ (s s' : Scope E) (escape : Char) (c : Criterion) (p : Predicate) (row : Row)
        (choice : Choice), WellFormedJoins s.joins → c.column = column →
        s.compile schema escape c = (.ok p, s') → Assignment s'.joins row choice →
        row.SingleAlong k.hops → ∀ f ∈ p.fields, f.name = k.field ∧ choice.value f = k.value row) ∧
      ∀ (r : Request) (values : List RawValue), r.Asks ⟨column, .isNull, values⟩ →
        ∃ test, r.Runs schema config root test ∧ ∀ row, row.SingleAlong k.hops →
          (test row = true ↔ k.value row = .null)) := by
  constructor
  · rw [resolve_eq_ok_iff hnamed hcomma, exists_opens_iff]
  · intro hresolve
    obtain ⟨-, hcolumn, hresolves⟩ := (resolve_eq_ok_iff hnamed hcomma).mp hresolve
    constructor
    · rintro s s' escape c p row choice hs rfl hcompile hchoice hsingle f hf
      obtain ⟨hname, hvalue⟩ := hchoice.value_of_compile hs hcompile hcolumn hsingle f hf
      rw [List.mem_singleton] at hname
      exact ⟨hname, by rw [hvalue, hname]; rfl⟩
    · intro r values hasks
      exact exists_runs_isNull hcolumn hresolves hasks

/-- Books sorted by the names of their authors, one of them without an author. -/
theorem reads_as_criteria_books :
    let author : Entity Bool := ⟨"author", "Author", "id", [⟨"name", .text⟩], []⟩
    let book : Entity Bool := ⟨"book", "Book", "id", [], [⟨"author", true, .one⟩]⟩
    let schema : Schema Bool := ⟨fun isAuthor => if isAuthor then author else book⟩
    let k : SortKey := ⟨["author"], "name", .descending⟩
    let emma : Row := .mk [] [("author", [.mk [("name", .text "Austen")] []])]
    let beowulf : Row := .mk [] []
    resolve schema false (" author . name ", .descending) = .ok k ∧
      (∃ s f, k.Opens schema false " author . name " s f) ∧
      ∃ test, (Request.only ⟨" author . name ", .isNull, []⟩).Runs schema {} false test ∧
        test emma = false ∧ test beowulf = true := by
  intro author book schema k emma beowulf
  have hresolve : resolve schema false (" author . name ", .descending) = .ok k := by
    decide +kernel
  obtain ⟨hopens, hreads⟩ := @reads_as_criteria Bool schema {} false
    " author . name " ⟨by decide, by decide⟩ (by decide) .descending k
  obtain ⟨test, hruns, htest⟩ := (hreads hresolve).2 (.only ⟨" author . name ", .isNull, []⟩) [] rfl
  refine ⟨hresolve, (hopens.mp hresolve).2, test, hruns, ?_, ?_⟩
  · rw [← Bool.not_eq_true, htest emma (by decide)]
    exact fun hnull => nomatch hnull
  · exact (htest beowulf (by decide)).mpr rfl

end SortKey

end EntityQuery
