import EntityQuery.Proofs.Criteria.Meaning
import EntityQuery.Proofs.Criteria.Requests
import EntityQuery.Proofs.Join.ToOne

/-!
# Operators and their opposites

On a column with one value for every row, an operator, its opposite and the test for a
missing value part the rows: each row is selected by exactly one of the three.  The
opposite of a predicate is the negation of its truth value, so what is left to show for
every operator is that only a missing value leaves its predicate undecided.

Main results:

- Definition `Operator.opposite?`: the operators with an opposite.
- Theorem `Criterion.exists_opposed`: the bound predicates of opposites are opposed.
- Definition `Schema.NamesField`: the columns of a single field.
- Theorem `Request.opposites_part_rows`: every row is selected by exactly one request.
-/

namespace EntityQuery

/-! ## Opposites -/

/-- The operator that asks for the opposite. -/
def Operator.opposite? : Operator → Option Operator
  | .contain => some .notContain
  | .containWithWildcard => some .notContainWithWildcard
  | .equals => some .notEqual
  | .isIn => some .notIn
  | .lesserThan => some .greaterEquals
  | .greaterThan => some .lesserEquals
  | .isTrue => some .isFalse
  | _ => none

/-- What the values of a criterion must be for its operator to have an opposite: a test
of texts tries one value, and nothing is compared with a NaN. -/
def Operator.Admits (operator : Operator) (kind : FieldKind) (values : List RawValue) : Prop :=
  match operator with
  | .contain | .containWithWildcard => values.length = 1
  | .equals | .lesserThan | .greaterThan =>
    ∀ raw, values.head? = some raw → ∀ b, boundValue? kind raw = some b → b.isNaN = false
  | _ => True

/-- The values of a column that an operator decides about, besides the missing ones:
texts are tested of all values but lists, and numbers of the column's kind are compared. -/
def Operator.Decides (operator : Operator) (kind : FieldKind) (v : Value) : Prop :=
  match operator with
  | .contain | .containWithWildcard => ∀ items, v ≠ .list items
  | .equals | .lesserThan | .greaterThan => v ≠ .null → v.IsOf kind ∧ v.isNaN = false
  | _ => True

/-- An operator and its opposite both need values, or both need none. -/
theorem Operator.requiresValues_of_opposite? {operator opposite : Operator}
    (h : operator.opposite? = some opposite) :
    opposite.requiresValues = operator.requiresValues := by
  cases operator <;> cases h <;> rfl

/-! ## Opposed predicates -/

/-- Two predicates of a field with opposite truth values; only a missing value leaves
them undecided, among the values with a property. -/
structure Predicate.Opposed (f : FieldRef) (decides : Value → Prop) (b b' : Predicate) : Prop where
  evaluateAt_eq : ∀ last, b'.evaluateAt last = (b.evaluateAt last).not
  undecided_iff : ∀ last, decides (valueAt last f.name) →
    (b.evaluateAt last = .unknown ↔ valueAt last f.name = .null)

namespace Predicate.Opposed

variable {f : FieldRef} {decides : Value → Prop} {b b' : Predicate}

/-- The negation of a test is opposed to the test. -/
theorem of_not {t : Test}
    (h : ∀ v, decides v → (t.evaluate v = .unknown ↔ v = .null)) :
    Opposed f decides (.test f t) (.not (.test f t)) where
  evaluateAt_eq _ := evaluateAt_not
  undecided_iff := by
    intro last hdecides
    rw [evaluateAt_test]
    exact h _ hdecides

/-- Comparisons that accept opposite orders are opposed to each other. -/
theorem of_compare {comparison opposite : Comparison} {operand : Value}
    (hcomparison : comparison ≠ .isIn) (hopposite : opposite ≠ .isIn)
    (haccepts : ∀ o, opposite.accepts o = !comparison.accepts o)
    (h : ∀ v, decides v → (v.strictCompare? operand = none ↔ v = .null)) :
    Opposed f decides (.test f (.compare comparison operand))
      (.test f (.compare opposite operand)) where
  evaluateAt_eq last := by
    rw [evaluateAt_test, evaluateAt_test]
    exact Test.evaluate_compare_opposite hcomparison hopposite haccepts
  undecided_iff := by
    intro last hdecides
    rw [evaluateAt_test, Test.evaluate_compare_eq_unknown_iff hcomparison]
    exact h _ hdecides

end Predicate.Opposed

/-- A truth value is true, false or undecided. -/
theorem Truth.count_eq_one (t : Truth) {yes no unknown : Bool} (hyes : yes = true ↔ t = .yes)
    (hno : no = true ↔ t.not = .yes) (hunknown : unknown = true ↔ t = .unknown) :
    [yes, no, unknown].count true = 1 := by
  cases t <;> cases yes <;> cases no <;> cases unknown <;> simp_all [Truth.not]

/-! ## Opposite criteria -/

/-- The negation of a predicate is bound with the predicate. -/
theorem Predicate.bindEach_not {p b : Predicate} (h : p.bind = .ok b) :
    bindEach [.not p] = .ok [.not b] := by
  rw [bindEach, bind, h]
  rfl

namespace Criterion

variable {c : Criterion} {f : FieldRef} {escape : Char} {ps bs : List Predicate}

/-- Tests of the text of a value by one pattern are opposed to their negations. -/
theorem exists_opposed_text {raws : List RawValue} {pattern : RawValue → String}
    {wildcard : Option Char} (hraws : raws.length = 1)
    (hb : Predicate.bindEach (raws.map fun raw => .test f (.like (pattern raw) wildcard)) =
      .ok bs) :
    ∃ b b', bs = [b] ∧
      Predicate.bindEach (raws.map fun raw =>
        .not (.test f (.like (pattern raw) wildcard))) = .ok [b'] ∧
      Predicate.Opposed f (fun v => ∀ items, v ≠ .list items) b b' := by
  obtain ⟨raw, rfl⟩ := List.length_eq_one_iff.mp hraws
  cases hb
  refine ⟨_, _, rfl, Predicate.bindEach_not rfl, .of_not fun v hv => ?_⟩
  rw [Test.evaluate_like_eq_unknown_iff]
  exact or_iff_left fun ⟨items, hitems⟩ => hv items hitems

/-- The operand of the first value is what a comparison compares with. -/
theorem compareFirst_of_operand {comparison : Comparison} {raw : RawValue} {raws : List RawValue}
    {v : Value} (hvalues : c.values = raw :: raws) (hv : operand f raw = .ok v) :
    c.compareFirst f comparison = .ok (.test f (.compare comparison v)) := by
  rw [compareFirst, hvalues]
  simp only [hv]
  rfl

/-- Comparisons with the first value that accept opposite orders are opposed. -/
theorem exists_opposed_comparison (c c' : Criterion) (hvalues : c'.values = c.values)
    (comparison opposite : Comparison) (hcomparison : comparison ≠ .isIn)
    (hopposite : opposite ≠ .isIn) (hsort : opposite.isOrdering = comparison.isOrdering)
    (haccepts : ∀ o, opposite.accepts o = !comparison.accepts o)
    (hadmits : ∀ raw, c.values.head? = some raw → ∀ b, boundValue? f.kind raw = some b →
      b.isNaN = false)
    (h : (c.compareFirst f comparison).map ([·]) = .ok ps)
    (hb : Predicate.bindEach ps = .ok bs) :
    ∃ b ps' b', bs = [b] ∧ (c'.compareFirst f opposite).map ([·]) = .ok ps' ∧
      Predicate.bindEach ps' = .ok [b'] ∧
      Predicate.Opposed f (fun v => v ≠ .null → v.IsOf f.kind ∧ v.isNaN = false) b b' := by
  obtain ⟨p, hp, rfl⟩ := exists_of_map_eq_ok h
  obtain ⟨b, hpb, rfl⟩ := Predicate.bindEach_singleton hb
  obtain ⟨raw, raws, v, hcons, hv, rfl⟩ := exists_of_compareFirst hp
  rw [Predicate.bind] at hpb
  obtain ⟨t, ht, rfl⟩ := exists_of_map_eq_ok hpb
  obtain ⟨hordering, operand, hoperand, rfl⟩ :=
    (Test.bind_compare_eq_ok_iff hcomparison).mp ht
  have hbound : boundValue? f.kind raw = some operand := by
    rw [boundValue?_of_coerce (operand_eq_ok_iff.mp hv), hoperand]
  have hnan : operand.isNaN = false := hadmits raw (by rw [hcons]; rfl) operand hbound
  refine ⟨_, [.test f (.compare opposite v)], .test f (.compare opposite operand), rfl, ?_, ?_, ?_⟩
  · rw [compareFirst_of_operand (hvalues.trans hcons) hv]
    rfl
  · have hopposed : (Test.compare opposite v).bind f = .ok (.compare opposite operand) :=
      (Test.bind_compare_eq_ok_iff hopposite).mpr ⟨hsort ▸ hordering, operand, hoperand, rfl⟩
    simp [Predicate.bindEach, Predicate.bind, hopposed, Except.map]
  · apply Predicate.Opposed.of_compare hcomparison hopposite haccepts
    intro v hdecides
    exact Value.strictCompare?_eq_none_iff (Value.isOf_of_bindOperand? hoperand) hnan hdecides

/-- The bound predicates of an operator and of its opposite are opposed to each other. -/
theorem exists_opposed {column : String} {operator opposite : Operator} {values : List RawValue}
    (hopposite : operator.opposite? = some opposite) (hadmits : operator.Admits f.kind values)
    (h : predicatesFor escape ⟨column, operator, values⟩ f = .ok ps)
    (hb : Predicate.bindEach ps = .ok bs) :
    ∃ b ps' b', bs = [b] ∧ predicatesFor escape ⟨column, opposite, values⟩ f = .ok ps' ∧
      Predicate.bindEach ps' = .ok [b'] ∧
      Predicate.Opposed f (operator.Decides f.kind) b b' := by
  cases operator with
  | contain =>
      cases hopposite
      cases h
      obtain ⟨b, b', hbs, hbs', hopposed⟩ := exists_opposed_text hadmits hb
      exact ⟨b, _, b', hbs, rfl, hbs', hopposed⟩
  | containWithWildcard =>
      cases hopposite
      cases h
      obtain ⟨b, b', hbs, hbs', hopposed⟩ := exists_opposed_text hadmits hb
      exact ⟨b, _, b', hbs, rfl, hbs', hopposed⟩
  | equals =>
      cases hopposite
      exact exists_opposed_comparison ⟨column, .equals, values⟩
        ⟨column, .notEqual, values⟩ rfl .eq .ne (by decide) (by decide) rfl
        (fun o => by cases o <;> rfl) hadmits h hb
  | lesserThan =>
      cases hopposite
      exact exists_opposed_comparison ⟨column, .lesserThan, values⟩
        ⟨column, .greaterEquals, values⟩ rfl .lt .gte (by decide) (by decide) rfl
        (fun o => by cases o <;> rfl) hadmits h hb
  | greaterThan =>
      cases hopposite
      exact exists_opposed_comparison ⟨column, .greaterThan, values⟩
        ⟨column, .lesserEquals, values⟩ rfl .gt .lte (by decide) (by decide) rfl
        (fun o => by cases o <;> rfl) hadmits h hb
  | isIn =>
      cases hopposite
      obtain ⟨p, hp, rfl⟩ := exists_of_map_eq_ok h
      obtain ⟨b, hpb, rfl⟩ := Predicate.bindEach_singleton hb
      obtain ⟨items, rfl, -⟩ := exists_of_membership hp hpb
      have hmembership : membership ⟨column, .notIn, values⟩ f = .ok p := hp
      refine ⟨_, [.not p], _, rfl, ?_, Predicate.bindEach_not hpb,
        .of_not fun v _ => Test.evaluate_isIn_eq_unknown_iff⟩
      simp only [predicatesFor, hmembership]
      rfl
  | isTrue =>
      cases hopposite
      cases h
      obtain ⟨b, hpb, rfl⟩ := Predicate.bindEach_singleton hb
      have hself := Predicate.bind_isTrue hpb
      subst hself
      exact ⟨_, _, _, rfl, rfl, Predicate.bindEach_not hpb,
        .of_not fun v _ => Test.evaluate_isTrue_eq_unknown_iff⟩
  | _ => cases hopposite

end Criterion

/-! ## Columns of a single field -/

section Columns

variable {E K : Type} {schema : Schema E} {config : Config} {root : E} {escape : Char}
  {column : String} {hops : List String} {f : Field}

/-- A column names a single field, which the entity at the end of its hops has. -/
structure Schema.NamesField (schema : Schema E) (root : E) (column : String)
    (hops : List String) (f : Field) : Prop where
  ofColumn?_eq : Path.ofColumn? column = some ⟨hops, [f.name]⟩
  exists_field : ∃ rs, schema.follow root hops = .ok rs ∧
    (schema.entity (lastEntity root rs)).field? f.name = some f

/-- A criterion on a column of a single field looks for what its operator asks of that
field. -/
theorem Criterion.seeks_iff_of_namesField (h : schema.NamesField root column hops f)
    {operator : Operator} {values : List RawValue} {q : Probe E} :
    Seeks schema escape root ⟨column, operator, values⟩ q ↔
      ¬ (operator.requiresValues && values.isEmpty) = true ∧ ∃ rs ps bs,
        schema.follow root hops = .ok rs ∧
        predicatesFor escape ⟨column, operator, values⟩ ⟨.root, f.name, f.kind⟩ = .ok ps ∧
        Predicate.bindEach ps = .ok bs ∧ q = ⟨rs, .any bs⟩ := by
  obtain ⟨hcolumn, rs, hfollow, hfield⟩ := h
  unfold Seeks probe
  by_cases hmissing : (operator.requiresValues && values.isEmpty) = true
  · simp [hmissing]
  · have hroot : (Scope.new (lastEntity root rs)).entityAt .root = lastEntity root rs := rfl
    simp only [hmissing, hcolumn, hfollow, Scope.branches, Scope.field, hroot, hfield]
    cases predicatesFor escape ⟨column, operator, values⟩ ⟨.root, f.name, f.kind⟩ with
    | error e => simp [Except.map]
    | ok ps =>
        cases hbs : Predicate.bindEach ps <;>
          simp [Except.map, Probe.bind, Predicate.bind, hbs, eq_comm]

namespace Request

variable {r : Request} {c : Criterion}

/-- The request has a single criterion, in one of its groups. -/
def Asks (r : Request) (c : Criterion) : Prop :=
  r.criteria ++ r.orCriteria = [c]

/-- A request of a single criterion runs when the criterion compiles and binds. -/
theorem Asks.exists_runs_iff (h : r.Asks c) :
    (∃ test, r.Runs schema config root test) ↔ ∃ q, c.Seeks schema config.escape root q := by
  rw [Request.exists_runs_iff, h]
  simp

/-- A request of a single criterion selects what the criterion finds. -/
theorem Asks.test_iff (h : r.Asks c) {test : Row → Bool} (htest : r.Runs schema config root test)
    (row : Row) : test row = true ↔ c.Finds schema config.escape root row := by
  rw [htest.test_iff row]
  rcases List.append_eq_singleton_iff.mp h with ⟨hcriteria, halternatives⟩ |
    ⟨hcriteria, halternatives⟩ <;>
    rw [hcriteria, halternatives] <;>
    cases r.criteriaOperator.getD config.defaultOperator <;>
    simp [Combines]

/-- A request about a single field of the one row that a path reaches asks for the truth
of a bound predicate there. -/
theorem Asks.exists_runs {operator : Operator} {values : List RawValue} {ps : List Predicate}
    {b : Predicate} (h : r.Asks ⟨column, operator, values⟩)
    (hfield : schema.NamesField root column hops f)
    (hvalues : ¬ (operator.requiresValues && values.isEmpty) = true)
    (hps : Criterion.predicatesFor config.escape ⟨column, operator, values⟩
      ⟨.root, f.name, f.kind⟩ = .ok ps) (hb : Predicate.bindEach ps = .ok [b]) :
    ∃ test, r.Runs schema config root test ∧ ∀ row, row.SingleAlong hops →
      (test row = true ↔ b.evaluateAt (row.follow? hops) = .yes) := by
  obtain ⟨rs, hfollow, -⟩ := hfield.exists_field
  have hseeks := (Criterion.seeks_iff_of_namesField hfield).mpr
    ⟨hvalues, rs, ps, [b], hfollow, hps, hb, rfl⟩
  obtain ⟨test, htest⟩ := h.exists_runs_iff.mpr ⟨_, hseeks⟩
  refine ⟨test, htest, fun row hsingle => ?_⟩
  rw [h.test_iff htest, hseeks.finds_iff]
  simp [Probe.Finds, Schema.names_of_follow hfollow, reaches_iff_of_singleAlong hsingle,
    Predicate.evaluateAt_any_eq_yes_iff]

/-- Where the path of a column meets no second row, each row of a table is selected by
exactly one of three requests: for an operator, for its opposite and for a missing
value.  The last two run if the first one does. -/
theorem opposites_part_rows (schema : Schema E) (config : Config) (root : E) (t : Table K)
    {column : String} {hops : List String} {f : Field} {operator opposite : Operator}
    {values ignored : List RawValue} {yes no missing : Request}
    (hyes : yes.Asks ⟨column, operator, values⟩) (hno : no.Asks ⟨column, opposite, values⟩)
    (hmissing : missing.Asks ⟨column, .isNull, ignored⟩)
    (hfield : schema.NamesField root column hops f)
    (hopposite : operator.opposite? = some opposite) (hadmits : operator.Admits f.kind values)
    (hsingle : ∀ row ∈ t.rows, row.SingleAlong hops)
    (hdecides : ∀ row ∈ t.rows, operator.Decides f.kind (valueAt (row.follow? hops) f.name))
    (hruns : ∃ test, yes.Runs schema config root test) :
    ∃ isYes isNo isMissing, yes.Runs schema config root isYes ∧
      no.Runs schema config root isNo ∧ missing.Runs schema config root isMissing ∧
      ∀ row ∈ t.rows, [isYes row, isNo row, isMissing row].count true = 1 := by
  obtain ⟨q, hseeks⟩ := hyes.exists_runs_iff.mp hruns
  obtain ⟨hvalues, rs, ps, bs, -, hps, hbs, -⟩ :=
    (Criterion.seeks_iff_of_namesField hfield).mp hseeks
  obtain ⟨b, ps', b', rfl, hps', hbs', hopposed⟩ :=
    Criterion.exists_opposed hopposite hadmits hps hbs
  have hvalues' : ¬ (opposite.requiresValues && values.isEmpty) = true := by
    rw [Operator.requiresValues_of_opposite? hopposite]
    exact hvalues
  obtain ⟨isYes, hrunsYes, hisYes⟩ := hyes.exists_runs hfield hvalues hps hbs
  obtain ⟨isNo, hrunsNo, hisNo⟩ := hno.exists_runs hfield hvalues' hps' hbs'
  obtain ⟨isMissing, hrunsMissing, hisMissing⟩ :=
    hmissing.exists_runs hfield Bool.false_ne_true rfl rfl
  refine ⟨isYes, isNo, isMissing, hrunsYes, hrunsNo, hrunsMissing, fun row hrow => ?_⟩
  have hrowSingle := hsingle row hrow
  apply Truth.count_eq_one (b.evaluateAt (row.follow? hops))
  · exact hisYes row hrowSingle
  · rw [hisNo row hrowSingle, hopposed.evaluateAt_eq]
  · rw [hisMissing row hrowSingle, Predicate.evaluateAt_test, Test.evaluate_isNull_eq_yes_iff,
      hopposed.undecided_iff _ (hdecides row hrow)]

/-- Books by when their publishers were founded: before a year, later, at an unknown time,
and books without a publisher. -/
theorem opposites_part_rows_books :
    let publisher : Entity Bool := ⟨"publisher", "Publisher", "id", [⟨"founded", .float⟩], []⟩
    let book : Entity Bool := ⟨"book", "Book", "id", [], [⟨"publisher", true, .one⟩]⟩
    let schema : Schema Bool := ⟨fun isPublisher => if isPublisher then publisher else book⟩
    let founded : Option Binary64 → Row := fun year? =>
      .mk [] [("publisher", [.mk [("founded", year?.elim .null .float)] []])]
    let t : Table Int64 := ⟨(·.key "id"),
      [founded (some (.ofInt 1768)), founded (some (.ofInt 1935)), founded none, .mk [] []]⟩
    let ask : Operator → Request := fun operator =>
      .only ⟨"publisher.founded", operator, [.text " 1900 "]⟩
    ∃ isYes isNo isMissing, (ask .lesserThan).Runs schema {} false isYes ∧
      (ask .greaterEquals).Runs schema {} false isNo ∧
      (ask .isNull).Runs schema {} false isMissing ∧
      ∀ row ∈ t.rows, [isYes row, isNo row, isMissing row].count true = 1 := by
  intro publisher book schema founded t ask
  have hfield : schema.NamesField false "publisher.founded" ["publisher"] ⟨"founded", .float⟩ :=
    ⟨by decide +kernel, [⟨"publisher", true, .one⟩], rfl, rfl⟩
  have hruns : ∃ test, (ask .lesserThan).Runs schema {} false test := by
    obtain ⟨test, htest, -⟩ : (ask .lesserThan).Selects schema {} false
        (founded (some (.ofInt 1768))) := by
      decide +kernel
    exact ⟨test, htest⟩
  refine opposites_part_rows schema {} false t rfl rfl rfl hfield rfl ?_ ?_ ?_ hruns
  · intro raw hraw b hb
    cases hraw
    have hall : (boundValue? .float (.text " 1900 ")).all (fun b => !b.isNaN) = true := by
      decide +kernel
    rw [hb] at hall
    simpa using hall
  · decide +kernel
  · intro row hrow
    simp only [t, List.mem_cons, List.not_mem_nil, or_false] at hrow
    rcases hrow with rfl | rfl | rfl | rfl
    · exact fun _ => ⟨⟨_, rfl⟩, by decide +kernel⟩
    · exact fun _ => ⟨⟨_, rfl⟩, by decide +kernel⟩
    · exact fun hfounded => absurd rfl hfounded
    · exact fun hfounded => absurd rfl hfounded

end Request

end Columns

end EntityQuery
