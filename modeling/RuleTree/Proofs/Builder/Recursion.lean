import RuleTree.Proofs.Builder.Agreement

/-!
# The builders of all kinds agree with the descent

Every builder has the result of the descent on the node ahead. Only the nesting allowance, of which
the descent knows nothing, can make a difference, and it does so only where a tree is nested deeper.

* `Tree.add_cost_le_nesting`: the nesting below a bracket is less than that of the bracket.
* `agrees_leaf`, `agrees_operator` and so on: the kinds without expressions.
* `settles_expression`: the recursion over the allowance.
* `agrees_node`: all kinds that have a rule, and `settles_params`.
-/

namespace RuleTree

/-! ### Rules and nesting -/

theorem Kind.isLate_rule (k : Kind) : Kind.isLate k.rule = k.isChoice := by
  cases k with
  | marker o => cases o <;> decide
  | numeral r => cases r <;> decide
  | _ => decide

/-- What the builder of a kind leaves unread of a tree: all of it, if it is to build parameters and
the tree is not an expression. -/
def Kind.unread (k : Kind) (t : Tree) : List Tree :=
  if k = .params ∧ t.rule? ≠ some Kind.expression.rule then [t] else []

namespace Tree

theorem nesting_le_nestingOf {u : Tree} {ts : List Tree} (h : u ∈ ts) :
    u.nesting ≤ nestingOf ts := by
  induction ts with
  | nil => cases h
  | cons t ts ih =>
    rw [nestingOf]
    rcases List.mem_cons.mp h with rfl | h
    · exact Nat.le_max_left _ _
    · exact Nat.le_trans (ih h) (Nat.le_max_right _ _)

theorem nesting_le_of_mem_subtrees {t u : Tree} (h : u ∈ t.subtrees) : u.nesting ≤ t.nesting := by
  cases t with
  | token leaf => cases h
  | node rule region? children =>
    rw [nesting]
    have := nesting_le_nestingOf (List.mem_filter.mp h).1
    omega

theorem sequenceCost_le_nesting {k : Kind} (hk : k = .array ∨ k = .tuple) {t : Tree}
    (ht : t.rule? = some k.rule) :
    sequenceCost ≤ t.nesting ∧ ∀ u ∈ t.subtrees, sequenceCost + u.nesting ≤ t.nesting := by
  cases t with
  | token leaf => cases ht
  | node rule region? children =>
    cases ht
    have hcost : cost k.rule children = sequenceCost := by
      rcases hk with rfl | rfl <;> simp [cost]
    rw [nesting, hcost]
    refine ⟨Nat.le_add_right _ _, fun u hu => ?_⟩
    exact Nat.add_le_add_left (nesting_le_nestingOf (List.mem_filter.mp hu).1) _

theorem groupCost_add_nesting_le {t u : Tree} (ht : t.rule? = some Kind.term.rule)
    (hu : u ∈ t.subtrees) (hrule : u.rule? = some Kind.expression.rule) :
    groupCost + u.nesting ≤ t.nesting := by
  cases t with
  | token leaf => cases ht
  | node rule region? children =>
    cases ht
    have hmem : u ∈ children := (List.mem_filter.mp hu).1
    have hany : children.any (·.rule? = some Kind.expression.rule) :=
      List.any_eq_true.mpr ⟨u, hmem, by simpa using hrule⟩
    have hcost : cost Kind.term.rule children = groupCost := by
      rw [cost, if_neg (by decide), if_pos ⟨rfl, hany⟩]
    rw [nesting, hcost]
    exact Nat.add_le_add_left (nesting_le_nestingOf hmem) _

end Tree

namespace Builder

variable {α : Type} {d : Descent} {deep : Prop} {c : Cursor} {t : Tree} {ts rest : List Tree}

/-! ### Leaves -/

theorem agrees_marker {k : Kind} (hk : k.isChoice = false) (hc : c.Before d (t :: ts)) (a : α) :
    Agrees d deep c (t :: ts) ts (marker k a c) (d.marker k a t) :=
  agrees_tagged (k.isLate_rule.trans hk) hc fun _ _ hc => closes_of_settles (settles_pure hc a) _

theorem settles_decode (hc : c.Before d ts) (site : Site) (decoder : String → Except Fault α) :
    Settles d deep c ts ts (decode site decoder c) (Descent.decode site decoder) := by
  unfold decode Descent.decode
  cases decoder site.text with
  | ok a => exact settles_pure hc a
  | error fault =>
    cases fault with
    | malformed literal => exact .failure (fun m hm => by cases hm) List.nil_prefix
    | _ => exact .failure (fun m hm => by cases hm) List.nil_prefix

theorem agrees_leaf {k : Kind} (hk : k.isChoice = false) (hc : c.Before d (t :: ts))
    {decoder : Settings → String → Except Fault α} :
    Agrees d deep c (t :: ts) ts (leaf k decoder c) (d.leaf k (decoder d.settings) t) := by
  refine agrees_tagged (k.isLate_rule.trans hk) hc fun _ c' hc => ?_
  rw [bind_of_ok (show settings c' = ⟨.ok c'.settings, c', []⟩ from rfl), Outcome.after_nil,
    hc.stands.settings_eq]
  exact closes_of_settles (settles_decode hc _ _) _

theorem agrees_numeral {k : Kind} (hk : k.isChoice = false) (r : Radix)
    (hc : c.Before d (t :: ts)) :
    Agrees d deep c (t :: ts) ts (numeral k r c) (d.numeral k r t) :=
  agrees_leaf hk hc

theorem agrees_float (hc : c.Before d (t :: ts)) :
    Agrees d deep c (t :: ts) ts (float c) (d.float t) :=
  agrees_leaf (k := .float) rfl hc

theorem agrees_char (hc : c.Before d (t :: ts)) :
    Agrees d deep c (t :: ts) ts (char c) (d.char t) :=
  agrees_leaf (k := .char) rfl hc

theorem agrees_string (hc : c.Before d (t :: ts)) :
    Agrees d deep c (t :: ts) ts (string c) (d.string t) :=
  agrees_leaf (k := .string) rfl hc

/-! ### Choices between leaves -/

theorem agrees_plainChoice {k : Kind} (hk : k.isChoice = true) (hc : c.Before d (t :: ts))
    {vs : List (Kind × Builder α)} (hvs : Separate vs)
    {fs : List (Kind × (Tree → Except Failure α))} (hrules : fs.map (·.1.rule) = vs.map (·.1.rule))
    (h : ∀ first others c', c'.Before d (first :: others) →
      VariantsAgree d deep c' first others vs (fs.map fun v => (v.1, v.2 first))) :
    Agrees d deep c (t :: ts) ts (choice k.rule (ofKinds vs) c) (d.choice k fs t) := by
  unfold Descent.choice
  refine agrees_choice (k.isLate_rule.trans hk) hc hvs (fun hnil => ?_)
    fun _ first others hsub => ?_
  · rw [hnil, ← hrules]
  · rw [hsub]
    exact ⟨_, rfl, fun c' hc => h first others c' hc⟩

theorem agrees_operator (hc : c.Before d (t :: ts)) :
    Agrees d deep c (t :: ts) ts (operator c) (d.operator t) := by
  refine agrees_plainChoice (k := .operator) rfl hc separate_operatorVariants rfl
    fun first others c' hc => ?_
  have hmarker (o : Operator) : Agrees d deep c' (first :: others) others
      (marker (.marker o) o c') (d.marker (.marker o) o first) :=
    agrees_marker (k := .marker o) rfl hc o
  exact .cons (hmarker .add) (.cons (hmarker .sub) (.cons (hmarker .mul) (.cons (hmarker .div)
    (.cons (hmarker .pow) .nil))))

theorem agrees_integer (hc : c.Before d (t :: ts)) :
    Agrees d deep c (t :: ts) ts (integer c) (d.integer t) := by
  refine agrees_plainChoice (k := .integer) rfl hc separate_integerVariants rfl
    fun first others c' hc => ?_
  have hnumeral (r : Radix) : Agrees d deep c' (first :: others) others
      (((r, ·) <$> numeral (.numeral r) r) c') ((d.numeral (.numeral r) r first).map (r, ·)) :=
    agrees_map (agrees_numeral (k := .numeral r) rfl r hc) (r, ·)
  exact .cons (hnumeral .decimal) (.cons (hnumeral .binary) (.cons (hnumeral .octal)
    (.cons (hnumeral .hexadecimal) .nil)))

theorem agrees_primitive (hc : c.Before d (t :: ts)) :
    Agrees d deep c (t :: ts) ts (primitive c) (d.primitive t) :=
  agrees_plainChoice (k := .primitive) rfl hc separate_primitiveVariants rfl
    fun _ _ _ hc => .cons (agrees_map (agrees_integer hc) _)
      (.cons (agrees_map (agrees_float hc) _) (.cons (agrees_map (agrees_char hc) _) .nil))

theorem agrees_of_declines {rule : String} {b : Builder α} {r : Except Failure α}
    (hb : Declines rule b) (hr : t.rule? ≠ some rule → r = Descent.decline [rule] t.rule?)
    (hc : c.Before d (t :: ts))
    (h : t.rule? = some rule → Settles d deep c (t :: ts) ts (b c) r) :
    Agrees d deep c (t :: ts) ts (b c) r := by
  by_cases ht : t.rule? = some rule
  · exact .settled (h ht)
  · rw [hb c hc.ahead_ne_outside (by rwa [hc.rule?_cons]), hc.rule?_cons, hr ht]
    exact .noMatch

/-! ### Expressions -/

/-- The builder of expressions under an allowance agrees with the descent. -/
def ExpressionSettles (d : Descent) (a : Nat) : Prop :=
  ∀ ⦃t : Tree⦄, t.rule? = some Kind.expression.rule → ∀ ⦃c : Cursor⦄ ⦃ts : List Tree⦄,
    c.Before d (t :: ts) →
      Settles d (a < t.nesting) c (t :: ts) ts (expression a c) (d.expression t)

theorem expression_of_ne (ht : t.rule? ≠ some Kind.expression.rule) :
    d.expression t = Descent.decline [Kind.expression.rule] t.rule? := by
  rw [Descent.expression, Descent.under, if_neg ht]

theorem items_eq (d : Descent) (site : Site) (ts : List Tree) :
    d.items site ts = d.each .expression d.expression site ts := by
  induction ts with
  | nil => rw [Descent.items, Descent.each]
  | cons t ts ih => rw [Descent.items, Descent.each, ih]

theorem closes_expressions {a : Nat} (h : ExpressionSettles d a)
    (hdeep : ∀ t ∈ ts, a < t.nesting → deep) (hc : c.Before d ts) (site : Site) :
    Closes d deep site ts (many (expression a) c) (d.items site ts) := by
  rw [items_eq]
  exact closes_many (k := .expression) (opens_expression a).declines hc
    fun t ht hrule c rest hc => (h hrule hc).mono (hdeep t ht)

variable {a : Nat}

theorem agrees_group (h : ∀ a' < a, ExpressionSettles d a') (hc : c.Before d (t :: ts))
    (hdeep : t.rule? = some Kind.expression.rule → a < groupCost + t.nesting → deep) :
    Agrees d deep c (t :: ts) ts (allowed Kind.expression.rule (nested a).group? c)
      (d.expression t) := by
  refine agrees_of_declines (opens_group a).declines expression_of_ne hc fun ht => ?_
  rw [nested_group?]
  split
  case isTrue ha =>
    refine (h _ (Nat.sub_lt_self (by decide) ha) ht hc).mono fun hlt => hdeep ht ?_
    omega
  case isFalse ha =>
    obtain ⟨i, hi, -, hr, -⟩ := hc.exists_item
    rw [allowed_none_of_match hi (Option.some.inj (hr.symm.trans ht))]
    exact .tooDeep (hdeep ht (by omega)) List.nil_prefix

theorem agrees_sequence {k : Kind} (hk : k.isChoice = false) (h : ∀ a' < a, ExpressionSettles d a')
    (hc : c.Before d (t :: ts))
    (hdeep : t.rule? = some k.rule →
      (a < sequenceCost ∨ ∃ u ∈ t.subtrees, a < sequenceCost + u.nesting) → deep) :
    Agrees d deep c (t :: ts) ts (sequence k (nested a) c) (d.sequence k t) := by
  unfold sequence
  rw [nested_item?, Descent.sequence]
  split
  case isTrue ha =>
    show Agrees d deep c (t :: ts) ts
      (tagged k.rule (fun _ => many (expression (a - sequenceCost))) c) _
    refine agrees_tagged (k.isLate_rule.trans hk) hc fun ht c' hc => ?_
    refine closes_expressions (h _ (Nat.sub_lt_self (by decide) ha)) (fun u hu hlt => ?_) hc _
    exact hdeep ht (.inr ⟨u, hu, by omega⟩)
  case isFalse ha =>
    have hopens : Opens (α := List Expression) k.rule (allowed k.rule none) :=
      opens_allowed fun b hb => by cases hb
    refine agrees_of_declines hopens.declines (if_neg ·) hc fun ht => ?_
    obtain ⟨i, hi, -, hr, -⟩ := hc.exists_item
    rw [Option.map_none, allowed_none_of_match hi (Option.some.inj (hr.symm.trans ht))]
    exact .tooDeep (hdeep ht (.inl (by omega))) List.nil_prefix

theorem agrees_brackets {k : Kind} (hk : k = .array ∨ k = .tuple)
    (h : ∀ a' < a, ExpressionSettles d a') (hc : c.Before d (t :: ts)) :
    Agrees d (a < t.nesting) c (t :: ts) ts (sequence k (nested a) c) (d.sequence k t) := by
  refine agrees_sequence (by rcases hk with rfl | rfl <;> rfl) h hc fun ht hdeep => ?_
  obtain ⟨hcost, hitems⟩ := Tree.sequenceCost_le_nesting hk ht
  rcases hdeep with hlt | ⟨u, hu, hlt⟩
  · omega
  · have := hitems u hu
    omega

theorem agrees_value (h : ∀ a' < a, ExpressionSettles d a') (hc : c.Before d (t :: ts)) :
    Agrees d (a < t.nesting) c (t :: ts) ts (value (nested a) c) (d.value t) := by
  rw [Descent.value]
  refine agrees_choice (k := .value) rfl hc (separate_valueVariants _) (fun hnil => ?_)
    fun _ first others hsub => ?_
  · rw [hnil, Descent.valueOf]
    rfl
  · rw [hsub, Descent.valueOf]
    refine ⟨_, rfl, fun c' hc => ?_⟩
    have hle : first.nesting ≤ t.nesting :=
      Tree.nesting_le_of_mem_subtrees (by rw [hsub]; exact List.mem_cons_self)
    have hbrackets {k : Kind} (hk : k = .array ∨ k = .tuple) :=
      (agrees_brackets hk h hc).mono fun hlt => Nat.lt_of_lt_of_le hlt hle
    exact .cons (agrees_map (agrees_primitive hc) _) (.cons (agrees_map (agrees_string hc) _)
      (.cons (agrees_map (hbrackets (.inl rfl)) _) (.cons (agrees_map (hbrackets (.inr rfl)) _)
        .nil)))

theorem agrees_term (h : ∀ a' < a, ExpressionSettles d a') (hc : c.Before d (t :: ts)) :
    Agrees d (a < t.nesting) c (t :: ts) ts (term (nested a) c) (d.term t) := by
  rw [Descent.term]
  refine agrees_choice (k := .term) rfl hc (separate_termVariants a) (fun hnil => ?_)
    fun ht first others hsub => ?_
  · rw [hnil, Descent.termOf]
    rfl
  · rw [hsub, Descent.termOf]
    refine ⟨_, rfl, fun c' hc => ?_⟩
    have hmem : first ∈ t.subtrees := by
      rw [hsub]
      exact List.mem_cons_self
    have hvalue := (agrees_value h hc).mono fun hlt =>
      Nat.lt_of_lt_of_le hlt (Tree.nesting_le_of_mem_subtrees hmem)
    have hgroup := agrees_group h hc fun hrule hlt =>
      Nat.lt_of_lt_of_le hlt (Tree.groupCost_add_nesting_le ht hmem hrule)
    exact .cons (agrees_map hvalue _) (.cons (agrees_map hgroup _) .nil)

/-- **Expressions.** Under every allowance the builder agrees with the descent. The allowance is
used up below the expression if it is used up at all. -/
theorem settles_expression (a : Nat) : ExpressionSettles d a := by
  induction a using Nat.strongRecOn with
  | ind a ih =>
    intro t ht c ts hc
    rw [expression_eq, Descent.expression, Descent.under, if_pos ht]
    refine settles_tagged (Kind.isLate_rule .expression) hc ht fun c hc => ?_
    have hdeclines : Declines Kind.term.rule (term (nested a)) := (opens_term _).declines
    have hterm {u : Tree} (hu : u ∈ t.subtrees) {c : Cursor} {rest : List Tree}
        (hc : c.Before d (u :: rest)) (what : String) :=
      settles_required ((agrees_term ih hc).mono fun hlt =>
        Nat.lt_of_lt_of_le hlt (Tree.nesting_le_of_mem_subtrees hu)) (d.site t) what
    have hpure {c : Cursor} {rest : List Tree} (hc : c.Before d rest) (e : Expression) :
        Closes d (a < t.nesting) (d.site t) rest ((pure e : Builder Expression) c)
          (d.close (d.site t) e rest) :=
      closes_of_settles (settles_pure hc e) (d.site t)
    cases hsub : t.subtrees with
    | nil =>
      rw [hsub] at hc
      rw [Descent.operands]
      exact closes_missing hdeclines hc _ _ _
    | cons l others =>
      rw [hsub] at hc
      cases others with
      | nil =>
        rw [Descent.operands]
        refine closes_bind (hterm (by simp [hsub]) hc _) fun left _ _ hc => ?_
        exact closes_absent opens_operator.declines hc (hpure hc (.single left))
      | cons o rest =>
        rw [Descent.operands]
        refine closes_bind (hterm (by simp [hsub]) hc _) fun left _ _ hc => ?_
        refine closes_optional (agrees_operator hc) (hpure hc (.single left)) fun op _ hc => ?_
        cases rest with
        | nil => exact closes_missing hdeclines hc _ _ _
        | cons r rest =>
          refine closes_bind (hterm (by simp [hsub]) hc _) fun right _ _ hc => ?_
          exact hpure hc (.binary left op right)

theorem agrees_expression (hc : c.Before d (t :: ts)) :
    Agrees d (a < t.nesting) c (t :: ts) ts (expression a c) (d.expression t) :=
  agrees_of_declines (opens_expression a).declines expression_of_ne hc fun ht =>
    settles_expression a ht hc

/-! ### Statements, programs and parameters -/

theorem settles_statement (hc : c.Before d (t :: ts)) (ht : t.rule? = some Kind.statement.rule) :
    Settles d (a < t.nesting) c (t :: ts) ts (statement a c) (d.statement t) := by
  rw [Descent.statement, Descent.under, if_pos ht, statement]
  refine settles_tagged (Kind.isLate_rule .statement) hc ht fun c hc => ?_
  rw [bind_pure_eq_map]
  refine closes_map (closes_expressions (settles_expression a) (fun u hu hlt => ?_) hc _) _
  exact Nat.lt_of_lt_of_le hlt (Tree.nesting_le_of_mem_subtrees hu)

theorem agrees_statement (hc : c.Before d (t :: ts)) :
    Agrees d (a < t.nesting) c (t :: ts) ts (statement a c) (d.statement t) :=
  agrees_of_declines (opens_statement a).declines (if_neg ·) hc fun ht => settles_statement hc ht

theorem agrees_program (hc : c.Before d (t :: ts)) :
    Agrees d (a < t.nesting) c (t :: ts) ts (program a c) (d.program t) := by
  refine agrees_tagged (k := .program) rfl hc fun ht c hc => ?_
  refine closes_map (closes_many (k := .statement) (opens_statement a).declines hc ?_) Program.mk
  intro u hu hrule c rest hc
  exact (settles_statement hc hrule).mono fun hlt =>
    Nat.lt_of_lt_of_le hlt (Tree.nesting_le_of_mem_subtrees hu)

/-- Parameters use up an expression, and nothing of any other node. -/
theorem settles_params (hc : c.Before d [t]) :
    Settles d (a < t.nesting) c [t] (Kind.params.unread t) (many (expression a) c)
      (d.params t) := by
  unfold many
  rw [remaining_of_before hc, Descent.params]
  split
  case isFalse ht =>
    have hdeclines := (opens_expression a).declines c hc.ahead_ne_outside (by rwa [hc.rule?_cons])
    rw [Kind.unread, if_pos ⟨rfl, ht⟩, atMost_of_noMatch hdeclines]
    exact settles_pure hc []
  case isTrue ht =>
    rw [Kind.unread, if_neg fun h => h.2 ht]
    have h := settles_expression a ht hc
    generalize d.expression t = r at h
    generalize ho : expression a c = o at h
    cases h with
    | failure he hlog =>
      rw [atMost_of_error ho he]
      exact .failure he hlog
    | tooDeep h hlog =>
      rw [atMost_of_error ho nofun]
      exact .tooDeep h hlog
    | value hend hlog =>
      have hnone := (opens_expression a).declines _ hend.ahead_ne_outside
        (by rw [hend.rule?_nil]; nofun)
      rw [atMost_of_ok ho, List.length_singleton, atMost_of_noMatch hnone, List.append_nil]
      exact .value hend hlog

/-! ### All kinds -/

theorem agrees_anyChoice (hc : c.Before d (t :: ts)) :
    Agrees d deep c (t :: ts) ts (node a .anyChoice c) (d.node .anyChoice t) := by
  rw [node, Descent.node, Descent.under]
  split
  case isTrue ht =>
    obtain ⟨i, hi, -, hr, -⟩ := hc.exists_item
    rw [bind_of_ok (expect_of_match hi (Option.some.inj (hr.symm.trans ht)))]
    exact .settled (.failure nofun List.nil_prefix)
  case isFalse ht =>
    have hrule : c.rule? ≠ some Kind.anyChoice.rule := by rwa [hc.rule?_cons]
    rw [bind_of_error (expect_of_mismatch hc.ahead_ne_outside hrule), hc.rule?_cons]
    exact .noMatch

/-- **All kinds.** Before a node the builder of a kind agrees with the descent. -/
theorem agrees_node (hc : c.Before d (t :: ts)) {k : Kind} (hk : k ≠ .params) :
    Agrees d (k.isGeneral = false → a < t.nesting) c (t :: ts) ts (node a k c) (d.node k t) := by
  have hitems : ∀ a' < a, ExpressionSettles d a' := fun a' _ => settles_expression a'
  cases k with
  | params => exact absurd rfl hk
  | program => exact (agrees_map (agrees_program hc) _).mono fun h _ => h
  | statement => exact (agrees_map (agrees_statement hc) _).mono fun h _ => h
  | expression => exact (agrees_map (agrees_expression hc) _).mono fun h _ => h
  | array => exact (agrees_map (agrees_brackets (.inl rfl) hitems hc) _).mono fun h _ => h
  | tuple => exact (agrees_map (agrees_brackets (.inr rfl) hitems hc) _).mono fun h _ => h
  | term => exact (agrees_map (agrees_term hitems hc) _).mono fun h _ => h
  | value => exact (agrees_map (agrees_value hitems hc) _).mono fun h _ => h
  | primitive => exact agrees_map (agrees_primitive hc) _
  | operator => exact agrees_map (agrees_operator hc) _
  | marker o => exact agrees_map (agrees_marker (k := .marker o) rfl hc o) _
  | integer => exact agrees_map (agrees_integer hc) _
  | numeral r => exact agrees_map (agrees_numeral (k := .numeral r) rfl r hc) _
  | float => exact agrees_map (agrees_float hc) _
  | char => exact agrees_map (agrees_char hc) _
  | string => exact agrees_map (agrees_string hc) _
  | anyMarker => exact agrees_marker (k := .anyMarker) rfl hc _
  | anyNumeral => exact agrees_map (agrees_numeral (k := .anyNumeral) rfl .decimal hc) _
  | anyNode => exact .settled (.failure nofun List.nil_prefix)
  | anyChoice => exact agrees_anyChoice hc
  | anySequence =>
    -- a general kind, whose nodes are no brackets of any source
    refine agrees_map (agrees_sequence (k := .anySequence) rfl hitems hc fun _ _ hgeneral => ?_) _
    exact absurd hgeneral (by decide)

theorem agrees_single (hc : c.Before d [t]) (k : Kind) :
    Agrees d (k.isGeneral = false → a < t.nesting) c [t] (k.unread t) (node a k c)
      (d.node k t) := by
  by_cases hk : k = .params
  · subst hk
    exact .settled ((settles_map (settles_params hc) Node.params).mono fun h _ => h)
  · rw [Kind.unread, if_neg fun h => hk h.1]
    exact agrees_node hc hk

end Builder

end RuleTree
