import RuleTree.Proofs.Builder.Parallel
import RuleTree.Proofs.List.Related
import RuleTree.Proofs.Tree.Schema

/-!
# The order of the variants

The variants of a choice are tried in the order in which they are declared. Any other order would do:
the builders give the same node at the same cursor, or fail in the same way, and where they do not
match they found the same and expected the same rules. No two variants are for one rule, so that at
most one of them gets past the rule of its node.

* `Arrangement`: an order of the variants for each kind.
* `Arrangement.node`: the builders of all kinds with their variants in that order.
* `Arrangement.node_declared`: in the order of the declarations they are the builders.
* `comparable_node`: two arrangements, and two allowances, at any cursor.
* `node_arranged`: no order of the variants makes a difference.
-/

namespace RuleTree

/-- An order of the variants for each kind that is a choice. -/
structure Arrangement where
  kinds : Kind → List Kind
  perm : ∀ k, (kinds k).Perm (k.variants?.getD [])

namespace Arrangement

variable {α : Type}

/-- The order of the declarations. -/
def declared : Arrangement := ⟨fun k => k.variants?.getD [], fun _ => .refl _⟩

/-- The last variants first. -/
def reversed : Arrangement := ⟨fun k => (k.variants?.getD []).reverse, fun _ => List.reverse_perm _⟩

variable (o : Arrangement)

/-- The variants of a kind, arranged. -/
def arrange (k : Kind) (variants : List (Kind × α)) : List (Kind × α) :=
  (o.kinds k).filterMap fun l => variants.find? (·.1 = l)

/-! ### The builders with their variants arranged -/

def choice (k : Kind) (variants : List (Kind × Builder α)) : Builder α :=
  Builder.choice k.rule (Builder.ofKinds (o.arrange k variants))

def operator : Builder Operator := o.choice .operator Builder.operatorVariants

def integer : Builder (Radix × Int) := o.choice .integer Builder.integerVariants

def primitiveVariants : List (Kind × Builder Primitive) :=
  [(.integer, (fun n : Radix × Int => .integer n.1 n.2) <$> o.integer),
    (.float, Primitive.float <$> Builder.float), (.char, Primitive.char <$> Builder.char)]

def primitive : Builder Primitive := o.choice .primitive o.primitiveVariants

def valueVariants (n : Nested) : List (Kind × Builder Value) :=
  [(.primitive, Value.primitive <$> o.primitive), (.string, Value.string <$> Builder.string),
    (.array, Value.array <$> Builder.sequence .array n),
    (.tuple, Value.tuple <$> Builder.sequence .tuple n)]

def value (n : Nested) : Builder Value := o.choice .value (o.valueVariants n)

def termVariants (n : Nested) : List (Kind × Builder Term) :=
  [(.value, Term.value <$> o.value n),
    (.expression, Term.group <$> Builder.allowed Kind.expression.rule n.group?)]

def term (n : Nested) : Builder Term := o.choice .term (o.termVariants n)

def expressionWith (n : Nested) : Builder Expression :=
  Builder.tagged Kind.expression.rule fun site => do
    let left ← Builder.required site "left operand" (o.term n)
    match ← Builder.optional o.operator with
    | none => return .single left
    | some op => return .binary left op (← Builder.required site "right operand" (o.term n))

def expression (allowance : Nat) (c : Cursor) : Outcome Expression :=
  o.expressionWith (.under allowance fun a _ => expression a) c
termination_by allowance

def nested (allowance : Nat) : Nested := .under allowance fun a _ => o.expression a

def statement (allowance : Nat) : Builder Statement :=
  Builder.tagged Kind.statement.rule fun _ => do
    let _ ← Builder.many (o.expression allowance)
    return {}

def program (allowance : Nat) : Builder Program :=
  Builder.tagged Kind.program.rule fun _ => Program.mk <$> Builder.many (o.statement allowance)

/-- The builder of a kind. What is no choice and contains none does not depend on the
arrangement. -/
def node (allowance : Nat) : Kind → Builder Node
  | .program => .program <$> o.program allowance
  | .statement => .statement <$> o.statement allowance
  | .expression => .expression <$> o.expression allowance
  | .params => .params <$> Builder.many (o.expression allowance)
  | .array => .array <$> Builder.sequence .array (o.nested allowance)
  | .tuple => .tuple <$> Builder.sequence .tuple (o.nested allowance)
  | .term => .term <$> o.term (o.nested allowance)
  | .value => .value <$> o.value (o.nested allowance)
  | .primitive => .primitive <$> o.primitive
  | .operator => .operator <$> o.operator
  | .integer => (fun n => .integer n.1 n.2) <$> o.integer
  | .anySequence => .anySequence <$> Builder.sequence .anySequence (o.nested allowance)
  | k => Builder.node allowance k

/-! ### Arranging -/

variable {o} {k : Kind} {variants : List (Kind × α)} {v : Kind × α}

theorem nodup_kinds (hk : k.variants? = some (variants.map (·.1))) :
    (variants.map (·.1)).Nodup :=
  (Kind.nodup_variants hk).1.of_map _

theorem mem_kinds (hk : k.variants? = some (variants.map (·.1))) {l : Kind} :
    l ∈ o.kinds k ↔ ∃ v ∈ variants, v.1 = l := by
  rw [(o.perm k).mem_iff, hk, Option.getD_some, List.mem_map]

theorem find?_variants (hk : k.variants? = some (variants.map (·.1))) (hv : v ∈ variants) :
    variants.find? (·.1 = v.1) = some v := by
  obtain ⟨u, hu⟩ : ∃ u, variants.find? (·.1 = v.1) = some u :=
    Option.isSome_iff_exists.mp (List.find?_isSome.mpr ⟨v, hv, by simp⟩)
  have hkind : u.1 = v.1 := by simpa using List.find?_some hu
  have huv : u = v :=
    List.inj_on_of_nodup_map (nodup_kinds hk) (List.mem_of_find?_eq_some hu) hv hkind
  rw [hu, huv]

theorem mem_arrange (hk : k.variants? = some (variants.map (·.1))) :
    v ∈ o.arrange k variants ↔ v ∈ variants := by
  rw [arrange, List.mem_filterMap]
  constructor
  · rintro ⟨l, -, hl⟩
    exact List.mem_of_find?_eq_some hl
  · intro hv
    exact ⟨v.1, (mem_kinds hk).mpr ⟨v, hv, rfl⟩, find?_variants hk hv⟩

theorem map_arrange (hk : k.variants? = some (variants.map (·.1))) :
    (o.arrange k variants).map (·.1) = o.kinds k := by
  have hfind : ∀ l ∈ o.kinds k, (variants.find? (·.1 = l)).map (·.1) = some l := by
    intro l hl
    obtain ⟨v, hv, rfl⟩ := (mem_kinds hk).mp hl
    rw [find?_variants hk hv, Option.map_some]
  rw [arrange, List.map_filterMap, List.filterMap_congr hfind, List.filterMap_some]

theorem arrange_declared (hk : k.variants? = some (variants.map (·.1))) :
    declared.arrange k variants = variants := by
  have hkinds : declared.kinds k = variants.map (·.1) := congrArg (Option.getD · []) hk
  have hfind : ∀ v ∈ variants, variants.find? (·.1 = v.1) = some v := fun v => find?_variants hk
  rw [arrange, hkinds, List.filterMap_map]
  exact (List.filterMap_congr hfind).trans List.filterMap_some

/-! ### The order of the declarations -/

theorem choice_declared {variants : List (Kind × Builder α)}
    (hk : k.variants? = some (variants.map (·.1))) :
    declared.choice k variants = Builder.choice k.rule (Builder.ofKinds variants) := by
  rw [choice, arrange_declared hk]

theorem operator_declared : declared.operator = Builder.operator := choice_declared rfl

theorem integer_declared : declared.integer = Builder.integer := choice_declared rfl

theorem primitive_declared : declared.primitive = Builder.primitive := by
  rw [primitive, choice_declared rfl, primitiveVariants, integer_declared]
  rfl

theorem value_declared (n : Nested) : declared.value n = Builder.value n := by
  rw [value, choice_declared rfl, valueVariants, primitive_declared]
  rfl

theorem term_declared (n : Nested) : declared.term n = Builder.term n := by
  rw [term, choice_declared rfl, termVariants, value_declared]
  rfl

theorem expressionWith_declared (n : Nested) :
    declared.expressionWith n = Builder.expressionWith n := by
  rw [expressionWith, term_declared, operator_declared]
  rfl

theorem expression_eq (allowance : Nat) :
    o.expression allowance = o.expressionWith (o.nested allowance) := by
  funext c
  rw [expression, nested]

theorem opens_expression (allowance : Nat) :
    Builder.Opens Kind.expression.rule (o.expression allowance) := by
  rw [expression_eq]
  exact Builder.opens_tagged _ _

theorem expression_declared (allowance : Nat) :
    declared.expression allowance = Builder.expression allowance := by
  induction allowance using Nat.strongRecOn with
  | ind a ih =>
    have hnested : declared.nested a = Builder.nested a := by
      rw [nested, Builder.nested]
      exact congrArg (Nested.under a) (funext fun b => funext (ih b))
    rw [expression_eq, Builder.expression_eq, hnested, expressionWith_declared]

theorem nested_declared (allowance : Nat) : declared.nested allowance = Builder.nested allowance := by
  rw [nested, Builder.nested]
  simp only [expression_declared]

theorem node_declared (allowance : Nat) (k : Kind) :
    declared.node allowance k = Builder.node allowance k := by
  cases k <;> simp only [node, Builder.node, program, Builder.program, statement,
    Builder.statement, nested_declared, term_declared, value_declared, primitive_declared,
    operator_declared, integer_declared, expression_declared]

end Arrangement

/-- The second run may list what the first one expected of a choice in the order of its own
arrangement. -/
def Leeway.Arranges (w : Leeway) (o o' : Arrangement) : Prop :=
  ∀ k, w.expected ((o.kinds k).map Kind.rule) ((o'.kinds k).map Kind.rule)

/-- What was expected may be listed in another order. -/
def Leeway.permuted : Leeway where
  expected rules rules' := rules'.Perm rules
  expected_refl _ := .refl _
  deeper := False

namespace Builder

variable {α : Type} {w : Leeway} {o o' : Arrangement} {a a' : Nat} {k : Kind}

/-! ### Two arrangements side by side -/

/-- Variants for the same kinds with alike builders. -/
abbrev VariantsAlike (w : Leeway) : List (Kind × Builder α) → List (Kind × Builder α) → Prop :=
  List.Forall₂ fun v v' => v'.1 = v.1 ∧ Alike w v.1.rule v.2 v'.2

variable {vs vs' : List (Kind × Builder α)}

theorem VariantsAlike.exists_right (h : VariantsAlike w vs vs') {v : Kind × Builder α}
    (hv : v ∈ vs) : ∃ v' ∈ vs', v'.1 = v.1 ∧ Alike w v.1.rule v.2 v'.2 :=
  exists_mem_of_forall₂ h hv

theorem VariantsAlike.exists_left (h : VariantsAlike w vs vs') {v' : Kind × Builder α}
    (hv' : v' ∈ vs') : ∃ v ∈ vs, v'.1 = v.1 ∧ Alike w v.1.rule v.2 v'.2 :=
  exists_mem_of_forall₂ (List.Forall₂.flip h) hv'

theorem VariantsAlike.kinds_eq (h : VariantsAlike w vs vs') : vs'.map (·.1) = vs.map (·.1) :=
  (map_eq_of_forall₂ (h.imp fun _ _ hpair => hpair.1.symm)).symm

theorem apart_arrange (hk : k.variants? = some (vs.map (·.1)))
    (h : ∀ v ∈ vs, Opens v.1.rule v.2) : Apart (o.arrange k vs) where
  opens v hv := h v ((Arrangement.mem_arrange hk).mp hv)
  nodup := by
    have hnodup := (Kind.nodup_variants hk).1
    have hperm := (o.perm k).map Kind.rule
    rw [hk, Option.getD_some] at hperm
    rw [← Arrangement.map_arrange (o := o) hk, List.map_map] at hperm
    exact hperm.nodup_iff.mpr hnodup

theorem alike_arranged (hk : k.variants? = some (vs.map (·.1))) (hw : w.Arranges o o')
    (h : VariantsAlike w vs vs') : Alike w k.rule (o.choice k vs) (o'.choice k vs') := by
  have hk' : k.variants? = some (vs'.map (·.1)) := by rw [h.kinds_eq, hk]
  have hopens : ∀ v ∈ vs, Opens v.1.rule v.2 := fun v hv => by
    obtain ⟨v', -, -, halike⟩ := h.exists_right hv
    exact halike.opens
  have hopens' : ∀ v' ∈ vs', Opens v'.1.rule v'.2 := fun v' hv' => by
    obtain ⟨v, -, hkind, halike⟩ := h.exists_left hv'
    exact hkind ▸ halike.opens'
  refine alike_choice (apart_arrange hk hopens) (apart_arrange hk' hopens') ?_ ?_ ?_
  · intro v hv
    obtain ⟨v', hv', hpair⟩ := h.exists_right ((Arrangement.mem_arrange hk).mp hv)
    exact ⟨v', (Arrangement.mem_arrange hk').mpr hv', hpair⟩
  · intro v' hv'
    obtain ⟨v, hv, hkind, -⟩ := h.exists_left ((Arrangement.mem_arrange hk').mp hv')
    exact ⟨v, (Arrangement.mem_arrange hk).mpr hv, hkind.symm⟩
  · have hexpected := hw k
    rw [← Arrangement.map_arrange hk, ← Arrangement.map_arrange hk', List.map_map,
      List.map_map] at hexpected
    exact hexpected

/-! ### Kinds without expressions -/

theorem alike_marker (k : Kind) (x : α) : Alike w k.rule (marker k x) (marker k x) :=
  alike_tagged fun _ _ => parallel_pure x

theorem alike_leaf (k : Kind) (decoder : Settings → String → Except Fault α) :
    Alike w k.rule (leaf k decoder) (leaf k decoder) :=
  alike_tagged fun site _ => parallel_bind .value fun _ c => parallel_decode site _ c

variable (hw : w.Arranges o o')

include hw

theorem alike_operator : Alike w Kind.operator.rule o.operator o'.operator := by
  refine alike_arranged rfl hw (List.forall₂_same.mpr fun v hv => ⟨rfl, ?_⟩)
  obtain ⟨op, -, rfl⟩ := List.mem_map.mp hv
  exact alike_marker (.marker op) op

theorem alike_integer : Alike w Kind.integer.rule o.integer o'.integer := by
  refine alike_arranged rfl hw (List.forall₂_same.mpr fun v hv => ⟨rfl, ?_⟩)
  obtain ⟨r, -, rfl⟩ := List.mem_map.mp hv
  exact (alike_leaf (.numeral r) _).map _

theorem alike_primitive : Alike w Kind.primitive.rule o.primitive o'.primitive :=
  alike_arranged rfl hw <|
    .cons ⟨rfl, (alike_integer hw).map _⟩ <|
    .cons ⟨rfl, (alike_leaf .float _).map _⟩ <|
    .cons ⟨rfl, (alike_leaf .char _).map _⟩ .nil

/-! ### Expressions -/

/-- The builders of expressions are alike, where the second may have another allowance. -/
def ExpressionsAlike (w : Leeway) (o o' : Arrangement) (a : Nat) : Prop :=
  ∀ ⦃a'⦄, w.Allows a a' → Alike w Kind.expression.rule (o.expression a) (o'.expression a')

variable (ha : w.Allows a a') (h : ∀ b < a, ExpressionsAlike w o o' b)

include ha h

omit hw in
theorem alike_sequence (k : Kind) :
    Alike w k.rule (sequence k (o.nested a)) (sequence k (o'.nested a')) := by
  have hunder (o : Arrangement) (a : Nat) : sequence k (o.nested a) = _ :=
    sequence_under k a o.expression
  rw [hunder, hunder]
  refine alike_allowed (fun a => tagged k.rule fun _ => many (o.expression a))
    (fun a => tagged k.rule fun _ => many (o'.expression a)) (fun _ => opens_tagged _ _) ha
    fun hcost => ?_
  have hitem := h _ (Nat.sub_lt_self (by decide) hcost) (ha.sub sequenceCost)
  exact alike_tagged fun _ c => parallel_many hitem.comparable c

omit hw in
theorem alike_group : Alike w Kind.expression.rule
    (allowed Kind.expression.rule (o.nested a).group?)
    (allowed Kind.expression.rule (o'.nested a').group?) := by
  have hunder (o : Arrangement) (a : Nat) : (o.nested a).group? = _ := group?_under a o.expression
  rw [hunder, hunder]
  exact alike_allowed o.expression o'.expression Arrangement.opens_expression ha
    fun hcost => h _ (Nat.sub_lt_self (by decide) hcost) (ha.sub groupCost)

theorem alike_value : Alike w Kind.value.rule (o.value (o.nested a)) (o'.value (o'.nested a')) :=
  alike_arranged rfl hw <|
    .cons ⟨rfl, (alike_primitive hw).map _⟩ <|
    .cons ⟨rfl, (alike_leaf .string _).map _⟩ <|
    .cons ⟨rfl, (alike_sequence ha h .array).map _⟩ <|
    .cons ⟨rfl, (alike_sequence ha h .tuple).map _⟩ .nil

theorem alike_term : Alike w Kind.term.rule (o.term (o.nested a)) (o'.term (o'.nested a')) :=
  alike_arranged rfl hw <|
    .cons ⟨rfl, (alike_value hw ha h).map _⟩ <|
    .cons ⟨rfl, (alike_group ha h).map _⟩ .nil

theorem alike_expressionWith : Alike w Kind.expression.rule (o.expressionWith (o.nested a))
    (o'.expressionWith (o'.nested a')) := by
  refine alike_tagged fun site c => ?_
  have hterm (c : Cursor) (what : String) :=
    parallel_required ((alike_term hw ha h).comparable c) site what
  refine parallel_bind (hterm c _) fun left c => ?_
  refine parallel_bind (parallel_optional ((alike_operator hw).comparable c)) fun op? c => ?_
  cases op? with
  | none => exact parallel_pure _
  | some op => exact parallel_bind (hterm c _) fun right _ => parallel_pure _

omit h ha

/-- **Expressions.** Whatever the arrangements, the builders of expressions are alike. -/
theorem alike_expression (a : Nat) : ExpressionsAlike w o o' a := by
  induction a using Nat.strongRecOn with
  | ind a ih =>
    intro a' ha
    rw [Arrangement.expression_eq, Arrangement.expression_eq]
    exact alike_expressionWith hw ha ih

include ha

theorem alike_statement : Alike w Kind.statement.rule (o.statement a) (o'.statement a') :=
  alike_tagged fun _ c =>
    parallel_bind (parallel_many (alike_expression hw a ha).comparable c) fun _ _ => parallel_pure _

theorem alike_program : Alike w Kind.program.rule (o.program a) (o'.program a') :=
  alike_tagged fun _ c => parallel_map (parallel_many (alike_statement hw ha).comparable c) _

/-- **All kinds.** Whatever the arrangements, the builders of a kind with a rule are alike. -/
theorem alike_node (hparams : k ≠ .params) (hk : k ≠ .anyNode) :
    Alike w k.rule (o.node a k) (o'.node a' k) := by
  have hitems : ∀ b < a, ExpressionsAlike w o o' b := fun b _ => alike_expression hw b
  cases k with
  | params => exact absurd rfl hparams
  | anyNode => exact absurd rfl hk
  | program => exact (alike_program hw ha).map _
  | statement => exact (alike_statement hw ha).map _
  | expression => exact (alike_expression hw a ha).map _
  | array => exact (alike_sequence ha hitems .array).map _
  | tuple => exact (alike_sequence ha hitems .tuple).map _
  | anySequence => exact (alike_sequence ha hitems .anySequence).map _
  | term => exact (alike_term hw ha hitems).map _
  | value => exact (alike_value hw ha hitems).map _
  | primitive => exact (alike_primitive hw).map _
  | operator => exact (alike_operator hw).map _
  | integer => exact (alike_integer hw).map _
  | marker op => exact (alike_marker (.marker op) op).map _
  | numeral r => exact (alike_leaf (.numeral r) _).map _
  | float => exact (alike_leaf .float _).map _
  | char => exact (alike_leaf .char _).map _
  | string => exact (alike_leaf .string _).map _
  | anyMarker => exact alike_marker .anyMarker _
  | anyNumeral => exact (alike_leaf .anyNumeral _).map _
  | anyChoice =>
    have hopens := opens_node a hparams hk
    refine alike_of_opens hopens (opens_node a' hparams hk) fun c i hi hr => ?_
    have hfail : Builder.node a .anyChoice c = ⟨.error .noBuilder, c, []⟩ := by
      rw [Builder.node, bind_of_ok (expect_of_match hi hr)]
      rfl
    show Comparable w c (Builder.node a .anyChoice c) (Builder.node a .anyChoice c)
    rw [hfail]
    exact .settled (.failure rfl)

/-- At any cursor the builders of a kind are compared, parameters and nodes in general included. -/
theorem comparable_node (k : Kind) (c : Cursor) :
    Comparable w c (o.node a k c) (o'.node a' k c) := by
  by_cases hparams : k = .params
  · subst hparams
    exact .settled (parallel_map (parallel_many (alike_expression hw a ha).comparable c) _)
  by_cases hk : k = .anyNode
  · subst hk
    exact .settled (.failure rfl)
  exact (alike_node hw ha hparams hk).comparable c

omit hw ha

/-! ### One order and another -/

theorem mem_variants {v : Kind} (hv : v ∈ o.kinds k) :
    ∃ kinds, k.variants? = some kinds ∧ v ∈ kinds := by
  rw [(o.perm k).mem_iff] at hv
  cases hk : k.variants? with
  | none =>
    rw [hk] at hv
    cases hv
  | some kinds =>
    rw [hk] at hv
    exact ⟨kinds, rfl, hv⟩

theorem apart_kinds (o : Arrangement) (a : Nat) (k : Kind) :
    Apart ((o.kinds k).map fun v => (v, o.node a v)) where
  opens := by
    intro _ hmem
    obtain ⟨v, hv, rfl⟩ := List.mem_map.mp hmem
    obtain ⟨kinds, hk, hv⟩ := mem_variants hv
    have hrule := (Kind.nodup_variants hk).2 v hv
    have halike : Alike .permuted v.rule (o.node a v) (o.node a v) :=
      alike_node (fun _ => .refl _) (.inl rfl) (fun h => hrule (h ▸ rfl)) (fun h => hrule (h ▸ rfl))
    exact halike.opens
  nodup := by
    have hperm := (o.perm k).map Kind.rule
    rw [List.map_map]
    refine hperm.nodup_iff.mpr ?_
    cases hk : k.variants? with
    | none => exact List.nodup_nil
    | some kinds => exact (Kind.nodup_variants hk).1

/-- **The order of the variants makes no difference.** However the variants of all choices are
arranged, the builder of every kind does the same at every cursor: it gives the same node or the
same error, goes past the same nodes and leaves its cursor in the same place, unless it does not
match, where it found the same and expected the same rules in some order. A variant that is not for
the rule of the next sibling refuses it, no two variants are for one rule, and the one that is for
it is taken wherever it is listed. -/
theorem node_arranged (o : Arrangement) (allowance : Nat) (k : Kind) (c : Cursor) :
    (o.node allowance k c = node allowance k c ∨
        ∃ expected expected' found, List.Perm expected' expected ∧
          node allowance k c = ⟨.error (.noMatch ⟨expected, found⟩), c, []⟩ ∧
          o.node allowance k c = ⟨.error (.noMatch ⟨expected', found⟩), c, []⟩) ∧
      (∀ v ∈ o.kinds k, c.rule? ≠ some v.rule →
        o.node allowance v c = ⟨.error (refusal [v.rule] c), c, []⟩) ∧
      (∀ u ∈ o.kinds k, ∀ v ∈ o.kinds k, u.rule = v.rule → u = v) ∧
      ∀ v ∈ o.kinds k, c.rule? = some v.rule →
        (∀ m, (o.node allowance v c).result ≠ .error (.noMatch m)) →
        firstMatch ((o.kinds k).map fun u => (u.rule, o.node allowance u)) c =
          o.node allowance v c := by
  have hapart := apart_kinds o allowance k
  refine ⟨?_, fun v hv => ?_, fun u hu v hv hrule => ?_, fun v hv hrule hne => ?_⟩
  · have hcomparable : Comparable .permuted c (Arrangement.declared.node allowance k c)
        (o.node allowance k c) :=
      comparable_node (fun k => (o.perm k).map Kind.rule) (.inl rfl) k c
    rw [Arrangement.node_declared] at hcomparable
    generalize o.node allowance k c = x at hcomparable
    generalize node allowance k c = y at hcomparable
    cases hcomparable with
    | noMatch hperm => exact .inr ⟨_, _, _, hperm, rfl, rfl⟩
    | settled h =>
      cases h with
      | value => exact .inl rfl
      | failure => exact .inl rfl
      | tooDeep hdeeper => cases hdeeper
  · exact hapart.opens (v, o.node allowance v) (List.mem_map_of_mem hv) c
  · obtain ⟨kinds, hk, hu⟩ := mem_variants hu
    exact Kind.rule_injective ((Kind.nodup_variants hk).2 u hu) hrule
  · have hv : (v, o.node allowance v) ∈ (o.kinds k).map fun v => (v, o.node allowance v) :=
      List.mem_map_of_mem hv
    have htaken := firstMatchOf_of_taken hapart.separate hv hrule hne ((o.kinds k).map Kind.rule)
    rw [ofKinds, List.map_map] at htaken
    rw [firstMatch, List.map_map]
    exact htaken

/-- Inside of the node of a primitive the last variant is refused and the first one is taken, also
where the last one is tried first. -/
theorem node_arranged_seven :
    Kind.float ∈ Arrangement.reversed.kinds .primitive ∧
      Kind.integer ∈ Arrangement.reversed.kinds .primitive ∧
      insideSeven.rule? = some Kind.integer.rule ∧
      (Arrangement.reversed.node 900 .integer insideSeven).result = .ok (.integer .decimal 7) ∧
      Arrangement.reversed.node 900 .float insideSeven =
        ⟨.error (.noMatch ⟨["float"], some "integer"⟩), insideSeven, []⟩ ∧
      firstMatch ((Arrangement.reversed.kinds .primitive).map fun u =>
          (u.rule, Arrangement.reversed.node 900 u)) insideSeven =
        Arrangement.reversed.node 900 .integer insideSeven := by
  have hfloat : Kind.float ∈ Arrangement.reversed.kinds .primitive := by decide
  have hinteger : Kind.integer ∈ Arrangement.reversed.kinds .primitive := by decide
  have hrule : insideSeven.rule? = some Kind.integer.rule := by decide
  have hok : (Arrangement.reversed.node 900 .integer insideSeven).result =
      .ok (.integer .decimal 7) := by rfl
  obtain ⟨-, hrefused, -, htaken⟩ := node_arranged .reversed 900 .primitive insideSeven
  refine ⟨hfloat, hinteger, hrule, hok, ?_, htaken _ hinteger hrule (by rw [hok]; nofun)⟩
  rw [hrefused _ hfloat (by rw [hrule]; decide)]
  rfl

end Builder

end RuleTree
