import Mathlib.Data.List.Nodup
import RuleTree.Proofs.Builder.Steps

/-!
# What builders refuse

The builder of a kind looks for the rule of the kind before anything else. Where the next sibling has
another rule it refuses what is ahead and has done nothing. Of the variants of a choice, which are for
different rules, all but one refuse what is ahead.

* `Opens`: the rule without which a builder refuses what is ahead.
* `opens_tagged`, `opens_choice` and so on: one lemma for each way to put builders together.
* `opens_node`: the builders of all kinds.
* `Separate`: variants that are for different rules.
* `firstMatchOf_of_refused`, `firstMatchOf_of_taken`: what becomes of a choice between them.
-/

namespace RuleTree

namespace Builder

variable {α β : Type} {b : Builder α} {c : Cursor} {rule : String}

/-- The failure where the next sibling has none of the rules. -/
def refusal (rules : List String) (c : Cursor) : Failure :=
  if c.ahead = .outside then .outside else .noMatch ⟨rules, c.rule?⟩

theorem refusal_of_outside (hc : c.ahead = .outside) (rules : List String) :
    refusal rules c = .outside :=
  if_pos hc

theorem refusal_of_ne (hc : c.ahead ≠ .outside) (rules : List String) :
    refusal rules c = .noMatch ⟨rules, c.rule?⟩ :=
  if_neg hc

theorem mismatch_eq_refusal (rules : List String) (c : Cursor) :
    mismatch (α := α) rules c = ⟨.error (refusal rules c), c, []⟩ := by
  by_cases hc : c.ahead = .outside
  · rw [refusal_of_outside hc]
    simp only [mismatch, hc]
    rfl
  · rw [refusal_of_ne hc]
    exact mismatch_eq hc rules

theorem rule?_of_outside (hc : c.ahead = .outside) : c.rule? = none := by
  rw [Cursor.rule?, Cursor.peek?, hc]
  rfl

theorem ahead_ne_outside_of_rule? (hrule : c.rule? = some rule) : c.ahead ≠ .outside := by
  intro hc
  rw [rule?_of_outside hc] at hrule
  cases hrule

/-! ### Builders for nodes with a rule -/

/-- Anything but a node with the rule is refused. -/
def Opens (rule : String) (b : Builder α) : Prop :=
  ∀ c, c.rule? ≠ some rule → b c = ⟨.error (refusal [rule] c), c, []⟩

/-- Anything but a node with the rule is declined. -/
def Declines {α : Type} (rule : String) (b : Builder α) : Prop :=
  ∀ c, c.ahead ≠ .outside → c.rule? ≠ some rule →
    b c = ⟨.error (.noMatch ⟨[rule], c.rule?⟩), c, []⟩

/-- The builder does not match unless the next sibling has the rule. -/
def Selects {α : Type} (rule : String) (b : Builder α) : Prop :=
  ∀ c, c.ahead ≠ .outside → c.rule? ≠ some rule → ∃ m, b c = ⟨.error (.noMatch m), c, []⟩

theorem Opens.declines (hb : Opens rule b) : Declines rule b := by
  intro c hc hrule
  rw [hb c hrule, refusal_of_ne hc]

theorem Opens.selects (hb : Opens rule b) : Selects rule b :=
  fun c hc hrule => ⟨_, hb.declines c hc hrule⟩

theorem opens_expect (rule : String) : Opens rule (expect rule) := by
  intro c hrule
  rw [← mismatch_eq_refusal]
  unfold expect
  split
  · rename_i i hi
    rw [if_neg]
    intro hr
    exact hrule (by rw [rule?_of_peek? hi, hr])
  · rfl

theorem Opens.bind (hb : Opens rule b) (f : α → Builder β) : Opens rule (b >>= f) :=
  fun c hrule => bind_of_error (hb c hrule) f

theorem Opens.map (hb : Opens rule b) (f : α → β) : Opens rule (f <$> b) :=
  fun c hrule => map_of_eq (hb c hrule) f

theorem opens_tagged (rule : String) (f : Site → Builder α) : Opens rule (tagged rule f) :=
  (opens_expect rule).bind _

theorem opens_choice (rule : String) (variants : List (Variant α)) :
    Opens rule (choice rule variants) :=
  (opens_expect rule).bind _

theorem opens_allowed {b? : Option (Builder α)} (h : ∀ b, b? = some b → Opens rule b) :
    Opens rule (allowed rule b?) := by
  cases b? with
  | some b => exact h b rfl
  | none => exact (opens_expect rule).bind _

theorem opens_marker (k : Kind) (a : α) : Opens k.rule (marker k a) := opens_tagged _ _

theorem opens_leaf (k : Kind) (decoder : Settings → String → Except Fault α) :
    Opens k.rule (leaf k decoder) :=
  opens_tagged _ _

theorem opens_sequence (k : Kind) (n : Nested) : Opens k.rule (sequence k n) := by
  refine opens_allowed fun b hb => ?_
  obtain ⟨item, -, rfl⟩ := Option.map_eq_some_iff.mp hb
  exact opens_tagged _ _

theorem opens_expression (a : Nat) : Opens Kind.expression.rule (expression a) := by
  rw [expression_eq]
  exact opens_tagged _ _

theorem opens_group (a : Nat) :
    Opens Kind.expression.rule (allowed Kind.expression.rule (nested a).group?) := by
  refine opens_allowed fun b hb => ?_
  obtain ⟨-, rfl⟩ := nested_group?_eq_some hb
  exact opens_expression _

theorem opens_operator : Opens Kind.operator.rule operator := opens_choice _ _

theorem opens_integer : Opens Kind.integer.rule integer := opens_choice _ _

theorem opens_primitive : Opens Kind.primitive.rule primitive := opens_choice _ _

theorem opens_value (n : Nested) : Opens Kind.value.rule (value n) := opens_choice _ _

theorem opens_term (n : Nested) : Opens Kind.term.rule (term n) := opens_choice _ _

theorem opens_statement (a : Nat) : Opens Kind.statement.rule (statement a) := opens_tagged _ _

theorem opens_program (a : Nat) : Opens Kind.program.rule (program a) := opens_tagged _ _

/-- The builder of a kind refuses anything but a node with the rule of the kind. Parameters have no
rule of their own, and of nodes in general nothing is known. -/
theorem opens_node (a : Nat) {k : Kind} (hparams : k ≠ .params) (hany : k ≠ .anyNode) :
    Opens k.rule (node a k) := by
  cases k with
  | params => exact absurd rfl hparams
  | anyNode => exact absurd rfl hany
  | program => exact (opens_program a).map _
  | statement => exact (opens_statement a).map _
  | expression => exact (opens_expression a).map _
  | array => exact (opens_sequence .array _).map _
  | tuple => exact (opens_sequence .tuple _).map _
  | anySequence => exact (opens_sequence .anySequence _).map _
  | term => exact (opens_term _).map _
  | value => exact (opens_value _).map _
  | primitive => exact opens_primitive.map _
  | operator => exact opens_operator.map _
  | integer => exact opens_integer.map _
  | marker o => exact (opens_marker (.marker o) o).map _
  | numeral r => exact (opens_leaf (.numeral r) _).map _
  | float => exact (opens_leaf .float _).map _
  | char => exact (opens_leaf .char _).map _
  | string => exact (opens_leaf .string _).map _
  | anyMarker => exact opens_marker .anyMarker _
  | anyNumeral => exact (opens_leaf .anyNumeral _).map _
  | anyChoice => exact (opens_expect _).bind _

/-! ### Variants for different rules -/

/-- The variants are for different rules, so that no two of them match at one node. -/
structure Separate {α : Type} (variants : List (Kind × Builder α)) : Prop where
  selects : ∀ v ∈ variants, Selects v.1.rule v.2
  nodup : (variants.map (·.1.rule)).Nodup

/-- The variants are for different rules, and each of them refuses all others. -/
structure Apart (vs : List (Kind × Builder α)) : Prop where
  opens : ∀ v ∈ vs, Opens v.1.rule v.2
  nodup : (vs.map (·.1.rule)).Nodup

variable {vs : List (Kind × Builder α)} {u v : Kind × Builder α}

theorem Apart.separate (hvs : Apart vs) : Separate vs :=
  ⟨fun v hv => (hvs.opens v hv).selects, hvs.nodup⟩

theorem firstMatchOf_of_refused (hc : c.ahead ≠ .outside)
    (h : ∀ v ∈ vs, ∃ m, v.2 c = ⟨.error (.noMatch m), c, []⟩) (rules : List String) :
    firstMatchOf rules (ofKinds vs) c = ⟨.error (.noMatch ⟨rules, c.rule?⟩), c, []⟩ := by
  induction vs with
  | nil => exact mismatch_eq hc rules
  | cons v vs ih =>
    obtain ⟨⟨m, hm⟩, hvs⟩ := List.forall_mem_cons.mp h
    rw [ofKinds_cons, firstMatchOf, recover_of_noMatch hm, Outcome.after_nil]
    exact ih hvs

theorem firstMatchOf_of_ne (hc : c.ahead ≠ .outside) (hselects : ∀ v ∈ vs, Selects v.1.rule v.2)
    (hne : ∀ v ∈ vs, c.rule? ≠ some v.1.rule) (rules : List String) :
    firstMatchOf rules (ofKinds vs) c = ⟨.error (.noMatch ⟨rules, c.rule?⟩), c, []⟩ :=
  firstMatchOf_of_refused hc (fun v hv => hselects v hv c hc (hne v hv)) rules

theorem firstMatchOf_of_outside (hvs : Apart vs) (hc : c.ahead = .outside) (rules : List String) :
    firstMatchOf rules (ofKinds vs) c = ⟨.error .outside, c, []⟩ := by
  cases vs with
  | nil => exact (mismatch_eq_refusal rules c).trans (by rw [refusal_of_outside hc])
  | cons v vs =>
    have hne : c.rule? ≠ some v.1.rule := by
      rw [rule?_of_outside hc]
      exact (Option.some_ne_none _).symm
    have hv := hvs.opens v List.mem_cons_self c hne
    rw [refusal_of_outside hc] at hv
    rw [ofKinds_cons, firstMatchOf, recover_of_ne hv fun m hm => by cases hm]

theorem Separate.eq_of_rule?_eq (hvs : Separate vs) (hu : u ∈ vs) (hv : v ∈ vs)
    (hrule : c.rule? = some u.1.rule) (hrule' : c.rule? = some v.1.rule) : u = v :=
  List.inj_on_of_nodup_map hvs.nodup hu hv (Option.some.inj (hrule.symm.trans hrule'))

theorem Separate.refused (hvs : Separate vs) (hv : v ∈ vs) (hrule : c.rule? = some v.1.rule)
    (hu : u ∈ vs) (hne : u ≠ v) : ∃ m, u.2 c = ⟨.error (.noMatch m), c, []⟩ :=
  hvs.selects u hu c (ahead_ne_outside_of_rule? hrule) fun hother =>
    hne (hvs.eq_of_rule?_eq hu hv hother hrule)

theorem Separate.forall_refused (hvs : Separate vs) (hv : v ∈ vs)
    (hrule : c.rule? = some v.1.rule) {m : Mismatch}
    (hm : v.2 c = ⟨.error (.noMatch m), c, []⟩) :
    ∀ u ∈ vs, ∃ m, u.2 c = ⟨.error (.noMatch m), c, []⟩ := by
  intro u hu
  by_cases huv : u = v
  · exact ⟨m, huv ▸ hm⟩
  · exact hvs.refused hv hrule hu huv

theorem firstMatchOf_of_taken (hvs : Separate vs) (hv : v ∈ vs) (hrule : c.rule? = some v.1.rule)
    (hne : ∀ m, (v.2 c).result ≠ .error (.noMatch m)) (rules : List String) :
    firstMatchOf rules (ofKinds vs) c = v.2 c := by
  induction vs with
  | nil => cases hv
  | cons u us ih =>
    rw [ofKinds_cons, firstMatchOf]
    by_cases huv : u = v
    · subst huv
      exact recover_of_ne rfl hne _
    · obtain ⟨m, hu⟩ := hvs.refused hv hrule List.mem_cons_self huv
      have hus : Separate us :=
        ⟨(List.forall_mem_cons.mp hvs.selects).2, (List.nodup_cons.mp hvs.nodup).2⟩
      rw [recover_of_noMatch hu, Outcome.after_nil]
      exact ih hus (List.mem_of_ne_of_mem (Ne.symm huv) hv)

theorem separate_operatorVariants : Separate operatorVariants where
  selects v hv := by
    obtain ⟨o, -, rfl⟩ := List.mem_map.mp hv
    exact (opens_marker (.marker o) o).selects
  nodup := by decide

theorem separate_integerVariants : Separate integerVariants where
  selects v hv := by
    obtain ⟨r, -, rfl⟩ := List.mem_map.mp hv
    exact ((opens_leaf (.numeral r) _).map _).selects
  nodup := by decide

theorem separate_primitiveVariants : Separate primitiveVariants where
  selects := by
    simp only [primitiveVariants, List.forall_mem_cons, List.not_mem_nil, false_implies,
      implies_true, and_true]
    exact ⟨(opens_integer.map _).selects, ((opens_leaf .float _).map _).selects,
      ((opens_leaf .char _).map _).selects⟩
  nodup := by decide

theorem separate_valueVariants (n : Nested) : Separate (valueVariants n) where
  selects := by
    simp only [valueVariants, List.forall_mem_cons, List.not_mem_nil, false_implies, implies_true,
      and_true]
    exact ⟨(opens_primitive.map _).selects, ((opens_leaf .string _).map _).selects,
      ((opens_sequence .array n).map _).selects, ((opens_sequence .tuple n).map _).selects⟩
  nodup := by
    show [Kind.primitive.rule, Kind.string.rule, Kind.array.rule, Kind.tuple.rule].Nodup
    decide

theorem separate_termVariants (a : Nat) : Separate (termVariants (nested a)) where
  selects := by
    simp only [termVariants, List.forall_mem_cons, List.not_mem_nil, false_implies, implies_true,
      and_true]
    exact ⟨((opens_value _).map _).selects, ((opens_group a).map _).selects⟩
  nodup := by
    show [Kind.value.rule, Kind.expression.rule].Nodup
    decide

end Builder

end RuleTree
