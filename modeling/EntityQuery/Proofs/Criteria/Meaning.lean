import EntityQuery.Proofs.Criteria.Placement
import EntityQuery.Proofs.Like.Language
import EntityQuery.Proofs.Predicate.Tests

/-!
# The meaning of a criterion

A criterion selects the root rows from which its path reaches a row where its operator
accepts the value of one of the sibling fields.  What an operator accepts is said once
for a value, without predicates, joins or truth values.

Main results:

- Definition `Criterion.Accepts`: the values that a criterion accepts in a field.
- Theorem `predicatesFor_accepts`: the bound predicates of a field say the same.
- Theorem `selects_compile_iff`: the rows that a compiled criterion selects.
-/

namespace EntityQuery

/-! ## Values that are accepted -/

namespace Criterion

/-- The value compares with the first operand in one of the given ways. -/
def Compares (c : Criterion) (kind : FieldKind) (v : Value) (orders : List Ordering) : Prop :=
  v ≠ .null ∧ ∃ raw, c.values.head? = some raw ∧ ∃ b, boundValue? kind raw = some b ∧
    ∃ o ∈ orders, v.strictCompare? b = some o

/-- The values that a criterion accepts in a field of a kind. -/
def Accepts (c : Criterion) (kind : FieldKind) (v : Value) : Prop :=
  match c.operator with
  | .isNull => v = .null
  | .notNull => v ≠ .null
  | .isTrue => v = .bool true
  | .isFalse => v ≠ .null ∧ v ≠ .bool true
  | .equals => c.Compares kind v [.eq]
  | .notEqual => c.Compares kind v [.lt, .gt]
  | .lesserThan => c.Compares kind v [.lt]
  | .lesserEquals => c.Compares kind v [.lt, .eq]
  | .greaterThan => c.Compares kind v [.gt]
  | .greaterEquals => c.Compares kind v [.eq, .gt]
  | .isIn => v ≠ .null ∧ ∃ raw ∈ c.values, ∃ b, boundValue? kind raw = some b ∧
      v.strictCompare? b = some .eq
  | .notIn => v ≠ .null ∧ ∀ raw ∈ c.values, ∃ b, boundValue? kind raw = some b ∧
      v.strictCompare? b ≠ some .eq
  | .contain => ∃ text, v.renderText? = some text ∧ ∃ raw ∈ c.values,
      Text.lowerChars raw.display.toList <:+: Text.lowerChars text.toList
  | .notContain => ∃ text, v.renderText? = some text ∧ ∃ raw ∈ c.values,
      ¬ Text.lowerChars raw.display.toList <:+: Text.lowerChars text.toList
  | .containWithWildcard => ∃ text, v.renderText? = some text ∧ ∃ raw ∈ c.values,
      Like.Likes none (Text.lowerChars raw.display.toList) (Text.lowerChars text.toList)
  | .notContainWithWildcard => ∃ text, v.renderText? = some text ∧ ∃ raw ∈ c.values,
      ¬ Like.Likes none (Text.lowerChars raw.display.toList) (Text.lowerChars text.toList)

end Criterion

/-! ## Predicates of a field -/

section Field

variable {c : Criterion} {f : FieldRef} {escape : Char} {last : Option Row}
  {ps bs : List Predicate}

theorem Predicate.bindEach_singleton {p : Predicate} (h : Predicate.bindEach [p] = .ok bs) :
    ∃ b, p.bind = .ok b ∧ bs = [b] := by
  rw [bindEach_eq_collect] at h
  obtain ⟨b, rest, hb, hrest, rfl⟩ := exists_of_collect_cons h
  cases hrest
  exact ⟨b, hb, rfl⟩

/-- A bound comparison with the first value of a criterion accepts the values that
compare with its operand in one of the ways the comparison asks for. -/
theorem Criterion.compareFirst_accepts {comparison : Comparison} {p b : Predicate}
    (hcomparison : comparison ≠ .isIn) (h : c.compareFirst f comparison = .ok p)
    (hb : p.bind = .ok b) {orders : List Ordering}
    (horders : ∀ o, comparison.accepts o = true ↔ o ∈ orders) :
    b.evaluateAt last = .yes ↔ c.Compares f.kind (valueAt last f.name) orders := by
  obtain ⟨raw, raws, v, hvalues, hv, rfl⟩ := exists_of_compareFirst h
  rw [Predicate.bind] at hb
  obtain ⟨t, ht, rfl⟩ := exists_of_map_eq_ok hb
  obtain ⟨-, b, hbound, rfl⟩ := (Test.bind_compare_eq_ok_iff hcomparison).mp ht
  rw [Predicate.evaluateAt_test, Test.evaluate_compare_eq_yes_iff hcomparison, Compares]
  simp [hvalues, boundValue?_of_coerce (operand_eq_ok_iff.mp hv), hbound, horders, and_comm]

/-- A bound membership test has the operands of the values of its criterion. -/
theorem Criterion.exists_of_membership {p b : Predicate} (h : c.membership f = .ok p)
    (hb : p.bind = .ok b) :
    ∃ bs, b = .test f (.compare .isIn (.list bs)) ∧
      Matched (fun raw b => ∃ b', boundValue? f.kind raw = some b' ∧ b.Alike b') c.values bs := by
  obtain ⟨vs, hoperands, rfl⟩ := exists_of_map_eq_ok h
  rw [Value.uniqueList, Predicate.bind] at hb
  obtain ⟨t, ht, rfl⟩ := exists_of_map_eq_ok hb
  obtain ⟨items, bs, hlist, hitems, rfl⟩ := Test.bind_isIn_eq_ok_iff.mp ht
  cases hlist
  exact ⟨bs, rfl, matched_boundValues hoperands hitems⟩

/-- A single bound predicate is true exactly of what the single predicate accepts. -/
theorem Predicate.exists_mem_of_bindEach_singleton {p : Predicate}
    (h : Predicate.bindEach [p] = .ok bs) {property : Prop}
    (hp : ∀ b, p.bind = .ok b → (b.evaluateAt last = .yes ↔ property)) :
    (∃ b ∈ bs, b.evaluateAt last = .yes) ↔ property := by
  obtain ⟨b, hb, rfl⟩ := bindEach_singleton h
  simpa using hp b hb

/-- A bound negation is the negation of a bound predicate. -/
theorem Predicate.exists_of_bind_not {p b : Predicate} (h : (Predicate.not p).bind = .ok b) :
    ∃ inner, p.bind = .ok inner ∧ b = .not inner := by
  rw [Predicate.bind] at h
  obtain ⟨inner, hinner, rfl⟩ := exists_of_map_eq_ok h
  exact ⟨inner, hinner, rfl⟩

/-- A bound test for true is the test itself. -/
theorem Predicate.bind_isTrue {b : Predicate} (h : (Predicate.test f .isTrue).bind = .ok b) :
    b = .test f .isTrue := by
  rw [Predicate.bind, Test.bind] at h
  cases hkind : f.kind <;> simp_all [Except.map]

/-- A single comparison accepts the values that compare in one of the ways it asks for. -/
theorem Criterion.exists_comparison_iff {comparison : Comparison} {orders : List Ordering}
    (hcomparison : comparison ≠ .isIn) (horders : ∀ o, comparison.accepts o = true ↔ o ∈ orders)
    (h : (c.compareFirst f comparison).map ([·]) = .ok ps)
    (hb : Predicate.bindEach ps = .ok bs) :
    (∃ b ∈ bs, b.evaluateAt last = .yes) ↔ c.Compares f.kind (valueAt last f.name) orders := by
  obtain ⟨p, hp, rfl⟩ := exists_of_map_eq_ok h
  exact Predicate.exists_mem_of_bindEach_singleton hb
    fun b hpb => compareFirst_accepts hcomparison hp hpb horders

/-! ### Membership -/

section Operands

variable {raws : List RawValue} {items : List Value} {v : Value}

/-- A value equals an operand of a membership test when it equals what one of the
criterion's values is bound to. -/
theorem Criterion.exists_equal_operand_iff
    (h : Matched (fun raw b => ∃ b', boundValue? f.kind raw = some b' ∧ b.Alike b') raws items) :
    (∃ raw ∈ raws, ∃ b, boundValue? f.kind raw = some b ∧ v.strictCompare? b = some .eq) ↔
      ∃ item ∈ items, v.strictCompare? item = some .eq := by
  apply h.exists_iff
  rintro raw item ⟨b, hb, halike⟩
  simp [hb, halike v]

/-- A value equals no operand of a membership test when it equals nothing that the
criterion's values are bound to. -/
theorem Criterion.forall_unequal_operand_iff
    (h : Matched (fun raw b => ∃ b', boundValue? f.kind raw = some b' ∧ b.Alike b') raws items) :
    (∀ raw ∈ raws, ∃ b, boundValue? f.kind raw = some b ∧ v.strictCompare? b ≠ some .eq) ↔
      ∀ item ∈ items, v.strictCompare? item ≠ some .eq := by
  apply h.forall_iff
  rintro raw item ⟨b, hb, halike⟩
  simp [hb, halike v]

end Operands

/-- A bound membership test accepts the values that equal a bound value. -/
theorem Criterion.membership_accepts {p b : Predicate} (h : c.membership f = .ok p)
    (hb : p.bind = .ok b) :
    b.evaluateAt last = .yes ↔ valueAt last f.name ≠ .null ∧ ∃ raw ∈ c.values,
      ∃ b, boundValue? f.kind raw = some b ∧
        (valueAt last f.name).strictCompare? b = some .eq := by
  obtain ⟨items, rfl, hmatched⟩ := exists_of_membership h hb
  rw [Predicate.evaluateAt_test, Test.evaluate_isIn_eq_yes_iff]
  exact and_congr_right fun _ => (exists_equal_operand_iff hmatched).symm

/-- A negated membership test accepts the values that equal no bound value. -/
theorem Criterion.not_membership_accepts {p b : Predicate} (h : c.membership f = .ok p)
    (hb : (Predicate.not p).bind = .ok b) :
    b.evaluateAt last = .yes ↔ valueAt last f.name ≠ .null ∧ ∀ raw ∈ c.values,
      ∃ b, boundValue? f.kind raw = some b ∧
        (valueAt last f.name).strictCompare? b ≠ some .eq := by
  obtain ⟨inner, hinner, rfl⟩ := Predicate.exists_of_bind_not hb
  obtain ⟨items, rfl, hmatched⟩ := exists_of_membership h hinner
  rw [Predicate.evaluateAt_not, Truth.not_eq_yes_iff, Predicate.evaluateAt_test,
    Test.evaluate_isIn_eq_no_iff]
  exact and_congr_right fun _ => (forall_unequal_operand_iff hmatched).symm

/-! ### Texts -/

/-- The texts that match the pattern of a contained value. -/
theorem Criterion.matchesPattern_contains_iff (hescape : escape ≠ '%') {raw : RawValue}
    {text : String} :
    Like.matchesPattern (Text.lower text) (Like.containing escape raw.display) (some escape) =
      true ↔ Text.lowerChars raw.display.toList <:+: Text.lowerChars text.toList := by
  rw [Like.matchesPattern_containing_iff hescape, Text.toList_lower]

/-- The texts that match the pattern of the client. -/
theorem Criterion.matchesPattern_wildcard_iff {raw : RawValue} {text : String} :
    Like.matchesPattern (Text.lower text) (Like.wildcard raw.display) none = true ↔
      Like.Likes none (Text.lowerChars raw.display.toList) (Text.lowerChars text.toList) := by
  rw [Like.matchesPattern_iff_likes, Like.wildcard, Text.toList_lower, Text.toList_lower]

/-- Text tests are bound to themselves, and one of them is true of a value with a text. -/
theorem Criterion.exists_text_iff {raws : List RawValue} {test : RawValue → Predicate}
    {v : Value} {property : RawValue → String → Prop}
    (htest : ∀ raw, (test raw).bind = .ok (test raw))
    (hyes : ∀ raw, (test raw).evaluateAt last = .yes ↔
      ∃ text, v.renderText? = some text ∧ property raw text)
    (hb : Predicate.bindEach (raws.map test) = .ok bs) :
    (∃ b ∈ bs, b.evaluateAt last = .yes) ↔
      ∃ text, v.renderText? = some text ∧ ∃ raw ∈ raws, property raw text := by
  have hself : ∀ p ∈ raws.map test, p.bind = .ok p := by
    intro p hp
    obtain ⟨raw, -, rfl⟩ := List.mem_map.mp hp
    exact htest raw
  rw [Predicate.bindEach_eq_collect, collect_eq_self hself, Except.ok.injEq] at hb
  rw [← hb]
  constructor
  · rintro ⟨b, hmem, hb⟩
    obtain ⟨raw, hraw, rfl⟩ := List.mem_map.mp hmem
    obtain ⟨text, htext, hprop⟩ := (hyes raw).mp hb
    exact ⟨text, htext, raw, hraw, hprop⟩
  · rintro ⟨text, htext, raw, hraw, hprop⟩
    exact ⟨_, List.mem_map_of_mem hraw, (hyes raw).mpr ⟨text, htext, hprop⟩⟩

/-- One of some patterns matches the text of a value. -/
theorem Criterion.exists_like_iff {raws : List RawValue} {pattern : RawValue → String}
    {escape : Option Char} {property : RawValue → String → Prop}
    (hpattern : ∀ raw text, Like.matchesPattern (Text.lower text) (pattern raw) escape = true ↔
      property raw text)
    (hb : Predicate.bindEach (raws.map fun raw => .test f (.like (pattern raw) escape)) =
      .ok bs) :
    (∃ b ∈ bs, b.evaluateAt last = .yes) ↔ ∃ text,
      (valueAt last f.name).renderText? = some text ∧ ∃ raw ∈ raws, property raw text := by
  refine exists_text_iff (fun _ => rfl) (fun raw => ?_) hb
  rw [Predicate.evaluateAt_test, Test.evaluate_like_eq_yes_iff]
  simp only [hpattern]

/-- One of some patterns does not match the text of a value. -/
theorem Criterion.exists_not_like_iff {raws : List RawValue} {pattern : RawValue → String}
    {escape : Option Char} {property : RawValue → String → Prop}
    (hpattern : ∀ raw text, Like.matchesPattern (Text.lower text) (pattern raw) escape = true ↔
      property raw text)
    (hb : Predicate.bindEach (raws.map fun raw =>
      .not (.test f (.like (pattern raw) escape))) = .ok bs) :
    (∃ b ∈ bs, b.evaluateAt last = .yes) ↔ ∃ text,
      (valueAt last f.name).renderText? = some text ∧ ∃ raw ∈ raws, ¬ property raw text := by
  refine exists_text_iff (fun _ => rfl) (fun raw => ?_) hb
  rw [Predicate.evaluateAt_not, Truth.not_eq_yes_iff, Predicate.evaluateAt_test,
    Test.evaluate_like_eq_no_iff]
  simp only [hpattern]

/-! ### Operators -/

/-- One of the bound predicates of a criterion on a field is true of a row exactly when
the criterion accepts the value that the field has there. -/
theorem Criterion.predicatesFor_accepts (last : Option Row) (hescape : escape ≠ '%')
    (h : c.predicatesFor escape f = .ok ps) (hb : Predicate.bindEach ps = .ok bs) :
    (∃ b ∈ bs, b.evaluateAt last = .yes) ↔ c.Accepts f.kind (valueAt last f.name) := by
  obtain ⟨column, operator, values⟩ := c
  cases operator with
  | contain =>
      cases h
      exact exists_like_iff (fun raw text => matchesPattern_contains_iff hescape) hb
  | notContain =>
      cases h
      exact exists_not_like_iff (fun raw text => matchesPattern_contains_iff hescape) hb
  | containWithWildcard =>
      cases h
      exact exists_like_iff (fun raw text => matchesPattern_wildcard_iff) hb
  | notContainWithWildcard =>
      cases h
      exact exists_not_like_iff (fun raw text => matchesPattern_wildcard_iff) hb
  | equals => exact exists_comparison_iff (by decide) (fun o => by cases o <;> decide) h hb
  | notEqual => exact exists_comparison_iff (by decide) (fun o => by cases o <;> decide) h hb
  | greaterThan => exact exists_comparison_iff (by decide) (fun o => by cases o <;> decide) h hb
  | lesserThan => exact exists_comparison_iff (by decide) (fun o => by cases o <;> decide) h hb
  | greaterEquals => exact exists_comparison_iff (by decide) (fun o => by cases o <;> decide) h hb
  | lesserEquals => exact exists_comparison_iff (by decide) (fun o => by cases o <;> decide) h hb
  | isIn =>
      obtain ⟨p, hp, rfl⟩ := exists_of_map_eq_ok h
      exact Predicate.exists_mem_of_bindEach_singleton hb fun b hpb => membership_accepts hp hpb
  | notIn =>
      obtain ⟨p, hp, rfl⟩ := exists_of_map_eq_ok h
      exact Predicate.exists_mem_of_bindEach_singleton hb
        fun b hpb => not_membership_accepts hp hpb
  | isTrue =>
      cases h
      apply Predicate.exists_mem_of_bindEach_singleton hb
      intro b hpb
      rw [Predicate.bind_isTrue hpb, Predicate.evaluateAt_test]
      exact Test.evaluate_isTrue_eq_yes_iff
  | isFalse =>
      cases h
      apply Predicate.exists_mem_of_bindEach_singleton hb
      intro b hpb
      obtain ⟨inner, hinner, rfl⟩ := Predicate.exists_of_bind_not hpb
      rw [Predicate.bind_isTrue hinner, Predicate.evaluateAt_not, Truth.not_eq_yes_iff,
        Predicate.evaluateAt_test]
      exact Test.evaluate_isTrue_eq_no_iff
  | isNull =>
      cases h
      apply Predicate.exists_mem_of_bindEach_singleton hb
      intro b hpb
      cases hpb
      rw [Predicate.evaluateAt_test]
      exact Test.evaluate_isNull_eq_yes_iff
  | notNull =>
      cases h
      apply Predicate.exists_mem_of_bindEach_singleton hb
      intro b hpb
      cases hpb
      rw [Predicate.evaluateAt_test]
      exact Test.evaluate_isNotNull_eq_yes_iff

end Field

/-! ## Criteria -/

section Criteria

variable {E : Type} {schema : Schema E} {escape : Char} {c : Criterion}

/-- One of the bound predicates of a criterion on sibling fields is true of a row exactly
when the criterion accepts the value of one of the fields there. -/
theorem Scope.branches_accepts (last : Option Row) (hescape : escape ≠ '%') {s : Scope E}
    {names : List String} {parts bs : List Predicate}
    (h : s.branches schema escape c .root names = .ok parts)
    (hb : Predicate.bindEach parts = .ok bs) :
    (∃ b ∈ bs, b.evaluateAt last = .yes) ↔ ∃ name ∈ names, ∃ f,
      (schema.entity s.root).field? name = some f ∧ c.Accepts f.kind (valueAt last name) := by
  induction names generalizing parts bs with
  | nil =>
      cases h
      cases hb
      simp
  | cons name names ih =>
      have hroot : s.entityAt .root = s.root := rfl
      rw [branches, field, hroot] at h
      cases hf : (schema.entity s.root).field? name with
      | none => simp [hf] at h
      | some f =>
          cases hps : c.predicatesFor escape ⟨.root, f.name, f.kind⟩ with
          | error e => simp [hf, hps] at h
          | ok ps =>
              simp only [hf, hps] at h
              obtain ⟨rest, hrest, rfl⟩ := exists_of_map_eq_ok h
              rw [Predicate.bindEach_eq_collect] at hb
              obtain ⟨bs₁, bs₂, hbs₁, hbs₂, rfl⟩ := exists_of_collect_append hb
              rw [← Predicate.bindEach_eq_collect] at hbs₁ hbs₂
              have hhead := Criterion.predicatesFor_accepts last hescape hps hbs₁
              have htail := ih hrest hbs₂
              rw [Entity.name_of_field? hf] at hhead
              simp only [List.mem_append, or_and_right, exists_or, hhead, htail, List.mem_cons,
                exists_eq_left, hf, Option.some.injEq, exists_eq_left']

/-- The path of a criterion reaches a row from the root row where the criterion accepts
the value of one of the sibling fields. -/
def Criterion.Holds (schema : Schema E) (root : E) (c : Criterion) (row : Row) : Prop :=
  ∃ path rs, Path.ofColumn? c.column = some path ∧ schema.follow root path.hops = .ok rs ∧
    ∃ last, Reaches (some row) path.hops last ∧ ∃ name ∈ path.fields, ∃ f,
      (schema.entity (lastEntity root rs)).field? name = some f ∧
        c.Accepts f.kind (valueAt last name)

/-- What a criterion looks for is found where the criterion holds. -/
theorem Criterion.finds_iff_holds (hescape : escape ≠ '%') {root : E} {raw q : Probe E}
    (hprobe : c.probe schema escape root = .ok raw) (hbind : raw.bind = .ok q) (row : Row) :
    q.Finds row ↔ c.Holds schema root row := by
  obtain ⟨path, rs, parts, hpath, hfollow, hparts, rfl⟩ := exists_of_probe hprobe
  obtain ⟨test, htest, rfl⟩ := exists_of_map_eq_ok hbind
  rw [Predicate.bind] at htest
  obtain ⟨bs, hbs, rfl⟩ := exists_of_map_eq_ok htest
  have haccepts := fun last => Scope.branches_accepts last hescape hparts hbs
  simp only [Probe.Finds, Schema.names_of_follow hfollow, Predicate.evaluateAt_any_eq_yes_iff,
    haccepts]
  constructor
  · rintro ⟨last, hlast, hfield⟩
    exact ⟨path, rs, hpath, hfollow, last, hlast, hfield⟩
  · rintro ⟨path', rs', hpath', hfollow', last, hlast, hfield⟩
    rw [hpath, Option.some.injEq] at hpath'
    subst hpath'
    rw [hfollow, Except.ok.injEq] at hfollow'
    subst hfollow'
    exact ⟨last, hlast, hfield⟩

/-- A criterion that compiles in a scope, a new one or one with joins already, and whose
predicate binds, selects the root rows where it holds. -/
theorem Scope.selects_compile_iff (schema : Schema E) {escape : Char} (hescape : escape ≠ '%')
    {s s' : Scope E} (hs : WellFormedJoins s.joins) {c : Criterion} {p bound : Predicate}
    (hcompile : s.compile schema escape c = (.ok p, s')) (hbind : p.bind = .ok bound)
    (row : Row) : selects s'.joins bound row = true ↔ c.Holds schema s.root row := by
  obtain ⟨q, hq, rfl, rfl⟩ := exists_probe_of_compile hcompile
  rw [Probe.bind_predicate] at hbind
  obtain ⟨b, hb, rfl⟩ := exists_of_map_eq_ok hbind
  have hjoins : q.joins s.joins.length = b.joins s.joins.length := by
    rw [Probe.joins, Probe.joins, Probe.relations_of_bind hb]
  rw [hjoins, selects_predicate_iff hs]
  exact Criterion.finds_iff_holds hescape hq hb row

/-- A book of an author has a title or a series without one of two words. -/
theorem Scope.selects_compile_iff_books :
    let book : Entity Bool := ⟨"book", "Book", "id", [⟨"title", .text⟩, ⟨"series", .text⟩], []⟩
    let author : Entity Bool := ⟨"author", "Author", "id", [], [⟨"books", true, .many⟩]⟩
    let schema : Schema Bool := ⟨fun isBook => if isBook then book else author⟩
    let c : Criterion := ⟨"books.title, series", .notContain, [.text "EM", .text "x"]⟩
    let row : Row := .mk [] [("books", [.mk [("title", .text "Emma")] [], .mk [] []])]
    ∃ p s' bound, (Scope.new false).compile schema '!' c = (.ok p, s') ∧ p.bind = .ok bound ∧
      selects s'.joins bound row = true ∧ c.Holds schema false row := by
  intro book author schema c row
  have h : (match (Scope.new false).compile schema '!' c with
      | (.ok p, s') => p.bind.map fun bound => selects s'.joins bound row
      | (.error _, _) => .ok false).toOption = some true := by
    decide +kernel
  cases hcompile : (Scope.new false).compile schema '!' c with
  | mk result s' =>
      cases result with
      | error e =>
          rw [hcompile] at h
          cases h
      | ok p =>
          rw [hcompile] at h
          cases hbind : p.bind with
          | error e => simp [hbind, Except.map, Except.toOption] at h
          | ok bound =>
              simp only [hbind, Except.map, Except.toOption, Option.some.injEq] at h
              exact ⟨p, s', bound, rfl, hbind, h, (selects_compile_iff schema (by decide)
                (wellFormed_new false) hcompile hbind row).mp h⟩

end Criteria

end EntityQuery
