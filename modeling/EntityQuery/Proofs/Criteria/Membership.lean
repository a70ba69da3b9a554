import EntityQuery.Proofs.Criteria.Refusal
import EntityQuery.Proofs.Criteria.Requests

/-!
# Membership and equality

A membership test coerces all values before it drops duplicates and binds the list; an
equality test takes one value through the same stages alone.  Both routes refuse the same
values and accept the same ones, so asking for membership in a list is asking for each of
its values.

Main results:

- Definition `Criterion.Fits`: the kinds whose fields can be asked a criterion.
- Theorem `Criterion.exists_seeks_iff`: a criterion compiles and binds exactly when its
  path can be followed and all sibling fields can be asked.
- Theorem `Criterion.exists_seeks_isIn_iff`: membership can be asked exactly when every
  equality can.
- Theorem `Criterion.finds_isIn_iff`: membership finds what some equality finds.
-/

namespace EntityQuery

variable {E : Type} {schema : Schema E} {root : E}

/-! ## Columns whose fields have a property -/

/-- The hops of a column can be followed, and the entity at their end has all sibling
fields of the column, of kinds with a property. -/
def Schema.AllSiblings (schema : Schema E) (root : E) (column : String)
    (property : FieldKind → Prop) : Prop :=
  ∃ path rs, Path.ofColumn? column = some path ∧ schema.follow root path.hops = .ok rs ∧
    ∀ name ∈ path.fields, ∃ f,
      (schema.entity (lastEntity root rs)).field? name = some f ∧ property f.kind

/-- The sibling fields are those at the end of the path that is followed. -/
theorem Schema.AllSiblings.exists_field {column : String} {property : FieldKind → Prop}
    (h : schema.AllSiblings root column property) {path : Path} {rs : List (Relation E)}
    (hpath : Path.ofColumn? column = some path) (hfollow : schema.follow root path.hops = .ok rs)
    {name : String} (hname : name ∈ path.fields) :
    ∃ f, (schema.entity (lastEntity root rs)).field? name = some f ∧ property f.kind := by
  obtain ⟨path', rs', hpath', hfollow', hfields⟩ := h
  rw [hpath, Option.some.injEq] at hpath'
  subst hpath'
  rw [hfollow, Except.ok.injEq] at hfollow'
  subst hfollow'
  exact hfields name hname

theorem Schema.AllSiblings.mono {column : String} {property property' : FieldKind → Prop}
    (h : schema.AllSiblings root column property)
    (himp : ∀ kind, property kind → property' kind) :
    schema.AllSiblings root column property' := by
  obtain ⟨path, rs, hpath, hfollow, hfields⟩ := h
  refine ⟨path, rs, hpath, hfollow, fun name hname => ?_⟩
  obtain ⟨f, hf, hproperty⟩ := hfields name hname
  exact ⟨f, hf, himp f.kind hproperty⟩

/-- A property for each value of a list is one for all of them. -/
theorem Schema.allSiblings_forall_iff {α : Type} {column : String} {values : List α}
    (hvalues : values ≠ []) {property : α → FieldKind → Prop} :
    schema.AllSiblings root column (fun kind => ∀ a ∈ values, property a kind) ↔
      ∀ a ∈ values, schema.AllSiblings root column (property a) := by
  constructor
  · exact fun h a ha => h.mono fun kind hall => hall a ha
  · intro h
    obtain ⟨a, ha⟩ := List.exists_mem_of_ne_nil values hvalues
    obtain ⟨path, rs, hpath, hfollow, hfields⟩ := h a ha
    refine ⟨path, rs, hpath, hfollow, fun name hname => ?_⟩
    obtain ⟨f, hf, -⟩ := hfields name hname
    refine ⟨f, hf, fun b hb => ?_⟩
    obtain ⟨g, hg, hproperty⟩ := (h b hb).exists_field hpath hfollow hname
    rw [hf, Option.some.injEq] at hg
    rw [hg]
    exact hproperty

/-- Whether the operator looks for its values as they are, with the characters escaped that
patterns read otherwise. -/
def Operator.escapesValues : Operator → Bool
  | contain | notContain => true
  | _ => false

/-! ## Criteria that compile and bind -/

/-- A sibling field with predicates is one that the entity has. -/
theorem Scope.exists_field_of_branch {escape : Char} {c : Criterion} {name : String}
    {ps : List Predicate} (h : (Scope.new root).branch schema escape c .root name = .ok ps) :
    ∃ f, (schema.entity root).field? name = some f ∧
      c.predicatesFor escape ⟨.root, f.name, f.kind⟩ = .ok ps := by
  cases hf : (schema.entity root).field? name with
  | none =>
      have hroot : (Scope.new root).entityAt .root = root := rfl
      simp [branch, field, hroot, hf] at h
  | some f =>
      rw [branch_of_field? hf] at h
      exact ⟨f, rfl, h⟩

namespace Criterion

variable {c : Criterion} {escape : Char} {kind : FieldKind}

/-- Fields of the kind can be asked the criterion: coercion lets through the values that it
uses, and binding does not refuse it. -/
def Fits (c : Criterion) (kind : FieldKind) : Prop :=
  (∀ raw ∈ c.used, ∃ v, coerce kind raw = .ok v) ∧ ¬ c.RefusedBy kind

/-- A field with predicates coerces the values that the criterion uses. -/
theorem exists_coerced_of_predicatesFor {f : FieldRef} {ps : List Predicate}
    (hvalues : ¬ (c.operator.requiresValues && c.values.isEmpty) = true)
    (h : c.predicatesFor escape f = .ok ps) : ∀ raw ∈ c.used, ∃ v, coerce f.kind raw = .ok v := by
  intro raw hraw
  cases hoperands : operands f c.used with
  | error fault =>
      have hfault : c.predicatesFor escape f = .error fault :=
        (predicatesFor_eq_error_iff hvalues).mpr hoperands
      rw [h] at hfault
      cases hfault
  | ok vs =>
      rw [operands_eq_collect] at hoperands
      obtain ⟨v, -, hv⟩ := (matched_collect hoperands).forth raw hraw
      exact ⟨v, operand_eq_ok_iff.mp hv⟩

/-- A criterion with its values compiles when its path can be followed to an entity with
all sibling fields, and those coerce the values that it uses. -/
theorem exists_probe_iff (hvalues : ¬ (c.operator.requiresValues && c.values.isEmpty) = true) :
    (∃ q, c.probe schema escape root = .ok q) ↔ schema.AllSiblings root c.column
      fun kind => ∀ raw ∈ c.used, ∃ v, coerce kind raw = .ok v := by
  constructor
  · rintro ⟨q, hq⟩
    obtain ⟨path, rs, parts, hpath, hfollow, hparts, -⟩ := exists_of_probe hq
    refine ⟨path, rs, hpath, hfollow, fun name hname => ?_⟩
    rw [Scope.branches_eq_collect] at hparts
    obtain ⟨pss, hpss, -⟩ := exists_of_map_eq_ok hparts
    obtain ⟨ps, -, hbranch⟩ := (matched_collect hpss).forth name hname
    obtain ⟨f, hf, hps⟩ := Scope.exists_field_of_branch hbranch
    exact ⟨f, hf, exists_coerced_of_predicatesFor hvalues hps⟩
  · rintro ⟨path, rs, hpath, hfollow, hfields⟩
    obtain ⟨pss, hpss⟩ : ∃ pss, collect
        ((Scope.new (lastEntity root rs)).branch schema escape c .root) path.fields = .ok pss := by
      apply exists_collect
      intro name hname
      obtain ⟨f, hf, hcoerced⟩ := hfields name hname
      rw [Scope.branch_of_field? hf]
      exact exists_predicatesFor hvalues hcoerced
    rw [probe, if_neg hvalues, hpath]
    simp only [hfollow, Scope.branches_eq_collect, hpss]
    exact ⟨_, rfl⟩

/-- A criterion with its values compiles and binds exactly when its path can be followed to
an entity with all sibling fields, and those can be asked the criterion. -/
theorem exists_seeks_iff (hvalues : ¬ (c.operator.requiresValues && c.values.isEmpty) = true) :
    (∃ q, c.Seeks schema escape root q) ↔ schema.AllSiblings root c.column c.Fits := by
  constructor
  · rintro ⟨q, raw, hprobe, hbind⟩
    obtain ⟨path, rs, hpath, hfollow, hfields⟩ := (exists_probe_iff hvalues).mp ⟨raw, hprobe⟩
    refine ⟨path, rs, hpath, hfollow, fun name hname => ?_⟩
    obtain ⟨f, hf, hcoerced⟩ := hfields name hname
    refine ⟨f, hf, hcoerced, fun hrefused => ?_⟩
    obtain rfl := Entity.name_of_field? hf
    obtain ⟨m, hm⟩ := (exists_bind_error_iff_of_probe hprobe).mpr
      ⟨f, ⟨path, rs, hpath, hfollow, hname, hf⟩, hrefused⟩
    rw [hbind] at hm
    cases hm
  · intro h
    have hcoerced := h.mono fun kind (hfits : c.Fits kind) => hfits.1
    obtain ⟨raw, hprobe⟩ : ∃ raw, c.probe schema escape root = .ok raw :=
      (exists_probe_iff hvalues).mpr hcoerced
    cases hbind : raw.bind with
    | ok q => exact ⟨q, raw, hprobe, hbind⟩
    | error m =>
        obtain ⟨f, ⟨path, rs, hpath, hfollow, hname, hf⟩, hrefused⟩ :=
          (exists_bind_error_iff_of_probe hprobe).mp ⟨m, hbind⟩
        obtain ⟨g, hg, -, hnot⟩ := h.exists_field hpath hfollow hname
        rw [hf, Option.some.injEq] at hg
        rw [hg] at hrefused
        exact absurd hrefused hnot

/-! ## Criteria without escaped values -/

theorem predicatesFor_escape (h : c.operator.escapesValues = false) (escape escape' : Char)
    (f : FieldRef) : c.predicatesFor escape f = c.predicatesFor escape' f := by
  unfold predicatesFor
  cases hoperator : c.operator with
  | contain | notContain => simp [hoperator, Operator.escapesValues] at h
  | _ => rfl

/-- Where no value is escaped, the escape character makes no difference. -/
theorem probe_escape (h : c.operator.escapesValues = false) (escape escape' : Char) :
    c.probe schema escape root = c.probe schema escape' root := by
  have hbranch : ∀ (s : Scope E) source,
      s.branch schema escape c source = s.branch schema escape' c source := by
    intro s source
    funext name
    unfold Scope.branch
    cases s.field schema source name with
    | error e => rfl
    | ok f => exact predicatesFor_escape h escape escape' f
  unfold probe
  simp only [Scope.branches_eq_collect, hbranch]

/-- A criterion without escaped values that compiles and binds finds something where it
holds. -/
theorem Seeks.finds_iff_holds {q : Probe E} (hq : c.Seeks schema escape root q)
    (h : c.operator.escapesValues = false) {row : Row} :
    c.Finds schema escape root row ↔ c.Holds schema root row := by
  obtain ⟨raw, hprobe, hbind⟩ := id hq
  rw [hq.finds_iff]
  rw [probe_escape h escape '!'] at hprobe
  exact Criterion.finds_iff_holds (by decide) hprobe hbind row

/-! ## Membership criteria -/

variable {column : String} {values : List RawValue}

/-- A kind can be asked for membership when it can be asked for every equality. -/
theorem fits_isIn_iff : Fits ⟨column, .isIn, values⟩ kind ↔
    ∀ raw ∈ values, Fits ⟨column, .equals, [raw]⟩ kind := by
  have hequals : ∀ raw, Fits ⟨column, .equals, [raw]⟩ kind ↔ (∃ v, coerce kind raw = .ok v) ∧
      ¬ (kind.coercion = .passthrough ∧ ¬ kind.Takes raw) := by
    intro raw
    simp [Fits, RefusedBy, used, Operator.testsTruth, Operator.isOrdering]
  simp only [hequals]
  simp only [Fits, RefusedBy, used, Operator.testsTruth, Operator.isOrdering]
  constructor
  · rintro ⟨hcoerced, hrefused⟩ raw hraw
    refine ⟨hcoerced raw hraw, ?_⟩
    rintro ⟨hkind, htakes⟩
    exact hrefused (.inr (.inr ⟨hkind, raw, hraw, htakes⟩))
  · intro h
    refine ⟨fun raw hraw => (h raw hraw).1, ?_⟩
    rintro (⟨hfalse, -⟩ | ⟨hfalse, -⟩ | ⟨hkind, raw, hraw, htakes⟩)
    · cases hfalse
    · cases hfalse
    · exact (h raw hraw).2 ⟨hkind, htakes⟩

/-- A value is accepted as a member when it is accepted as an equal of one of the values. -/
theorem accepts_isIn_iff {v : Value} : Accepts ⟨column, .isIn, values⟩ kind v ↔
    ∃ raw ∈ values, Accepts ⟨column, .equals, [raw]⟩ kind v := by
  simp only [Accepts, Compares, List.head?_cons, Option.some.injEq, exists_eq_left',
    List.mem_singleton, exists_eq_left]
  constructor
  · rintro ⟨hv, raw, hraw, hequal⟩
    exact ⟨raw, hraw, hv, hequal⟩
  · rintro ⟨raw, hraw, hv, hequal⟩
    exact ⟨hv, raw, hraw, hequal⟩

/-- Membership holds of the rows of which one of the equalities holds. -/
theorem holds_isIn_iff {row : Row} : Holds schema root ⟨column, .isIn, values⟩ row ↔
    ∃ raw ∈ values, Holds schema root ⟨column, .equals, [raw]⟩ row := by
  constructor
  · rintro ⟨path, rs, hpath, hfollow, last, hlast, name, hname, f, hf, haccepts⟩
    obtain ⟨raw, hraw, hequal⟩ := accepts_isIn_iff.mp haccepts
    exact ⟨raw, hraw, path, rs, hpath, hfollow, last, hlast, name, hname, f, hf, hequal⟩
  · rintro ⟨raw, hraw, path, rs, hpath, hfollow, last, hlast, name, hname, f, hf, hequal⟩
    exact ⟨path, rs, hpath, hfollow, last, hlast, name, hname, f, hf,
      accepts_isIn_iff.mpr ⟨raw, hraw, hequal⟩⟩

/-- Membership in values can be asked exactly when equality with each of them can. -/
theorem exists_seeks_isIn_iff (hvalues : values ≠ []) :
    (∃ q, Seeks schema escape root ⟨column, .isIn, values⟩ q) ↔
      ∀ raw ∈ values, ∃ q, Seeks schema escape root ⟨column, .equals, [raw]⟩ q := by
  have hmember : ¬ (Operator.isIn.requiresValues && values.isEmpty) = true := by
    simp [hvalues]
  have hequal : ∀ raw : RawValue, ¬ (Operator.equals.requiresValues && [raw].isEmpty) = true := by
    simp
  have hfits : Fits ⟨column, .isIn, values⟩ = fun kind =>
      ∀ raw ∈ values, Fits ⟨column, .equals, [raw]⟩ kind :=
    funext fun kind => propext fits_isIn_iff
  rw [exists_seeks_iff hmember, hfits, Schema.allSiblings_forall_iff hvalues]
  constructor
  · exact fun h raw hraw => (exists_seeks_iff (hequal raw)).mpr (h raw hraw)
  · exact fun h raw hraw => (exists_seeks_iff (hequal raw)).mp (h raw hraw)

/-- Membership finds something for the rows for which one of the equalities does. -/
theorem finds_isIn_iff {q : Probe E} (h : Seeks schema escape root ⟨column, .isIn, values⟩ q)
    (hvalues : values ≠ []) {row : Row} :
    Finds schema escape root ⟨column, .isIn, values⟩ row ↔
      ∃ raw ∈ values, Finds schema escape root ⟨column, .equals, [raw]⟩ row := by
  have heach := (exists_seeks_isIn_iff hvalues).mp ⟨q, h⟩
  rw [h.finds_iff_holds rfl, holds_isIn_iff]
  constructor
  · rintro ⟨raw, hraw, hholds⟩
    obtain ⟨q', hq'⟩ := heach raw hraw
    exact ⟨raw, hraw, (hq'.finds_iff_holds rfl).mpr hholds⟩
  · rintro ⟨raw, hraw, hfinds⟩
    obtain ⟨q', hq'⟩ := heach raw hraw
    exact ⟨raw, hraw, (hq'.finds_iff_holds rfl).mp hfinds⟩

end Criterion

end EntityQuery
