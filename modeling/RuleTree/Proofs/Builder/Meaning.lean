import RuleTree.Proofs.Builder.Yields
import RuleTree.Proofs.Literal.Defect

/-!
# What is built of a phrase

A phrase has a meaning of its own: the typed syntax that it stands for, or the first failure on the
way to it, under a nesting allowance. The builders yield it on the branch of the tree of the phrase.

* `Phrase.Expr.build`, `Phrase.Stmt.build`: the meaning of a phrase.
* `Phrase.Expr.yields_expression`: the builder of expressions yields it.
* `yields_program`: and so does the builder of programs for its statements.
-/

namespace RuleTree

/-- A fault of the text of a node, as a failure. -/
def Fault.at (site : Site) : Fault → Failure
  | .malformed literal => .fatal ⟨some site, .badLiteral literal⟩
  | fault => .limit fault

/-- The node that a literal token is the text of. -/
def LiteralKind.site (k : LiteralKind) (text : String) (span : Span) : Site :=
  ⟨k.kind.rule, text, ⟨some span.start.line, some span.start.column⟩⟩

/-- The node of a literal token has the text of the token. -/
def Token.Legible (source : Option (Array Char)) (tok : Token) : Prop :=
  ∀ k text, tok.lexeme = .literal k text →
    (Tree.over tok.span k.kind.rule [.token ⟨k.name, text, .ofSpan tok.span⟩]).text source = text

namespace Phrase

mutual

/-- What is built of an expression. -/
def Expr.build (radixFloats : Bool) (allowance : Nat) : Expr → Except Failure Expression
  | .single t => (t.build radixFloats allowance).map .single
  | .binary l o _ r => do
    let left ← l.build radixFloats allowance
    let right ← r.build radixFloats allowance
    return .binary left o right

/-- What is built of a term. Brackets take their share of the allowance before anything inside them
is built. -/
def Term.build (radixFloats : Bool) (allowance : Nat) : Term → Except Failure RuleTree.Term
  | .literal k text span =>
    ((k.value radixFloats text).mapError (Fault.at (k.site text span))).map .value
  | .enclosed .round _ (.last e) _ =>
    if groupCost ≤ allowance then (e.build radixFloats (allowance - groupCost)).map .group
    else .error .tooDeep
  | .enclosed .round _ is _ =>
    if sequenceCost ≤ allowance then
      (is.build radixFloats (allowance - sequenceCost)).map fun es => .value (.tuple es)
    else .error .tooDeep
  | .enclosed .square _ is _ =>
    if sequenceCost ≤ allowance then
      (is.build radixFloats (allowance - sequenceCost)).map fun es => .value (.array es)
    else .error .tooDeep

/-- What is built of enclosed items. -/
def Items.build (radixFloats : Bool) (allowance : Nat) : Items → Except Failure (List Expression)
  | .nil => .ok []
  | .last e => (e.build radixFloats allowance).map ([·])
  | .cons e _ is => do
    let first ← e.build radixFloats allowance
    let others ← is.build radixFloats allowance
    return first :: others

end

/-- The items without the commas. -/
def Items.exprs : Items → List Expr
  | .nil => []
  | .last e => [e]
  | .cons e _ is => e :: is.exprs

theorem Items.build_eq (radixFloats : Bool) (allowance : Nat) (is : Items) :
    is.build radixFloats allowance = is.exprs.mapM (Expr.build radixFloats allowance) := by
  cases is with
  | nil => rfl
  | last e =>
    rw [Items.build, Items.exprs, List.mapM_cons, List.mapM_nil]
    cases e.build radixFloats allowance <;> rfl
  | cons e m is => rw [Items.build, Items.exprs, List.mapM_cons, Items.build_eq _ _ is]

/-! ### Branches of phrases -/

/-- The branch of a node over a span. -/
def branchOver (source : Option (Array Char)) (span : Span) (rule : String)
    (children : List Tree) : Branch :=
  ⟨Tree.site source rule (some (.ofSpan span)) children, Tree.branchesOf source children⟩

/-- The branch of the tree of an expression. -/
def Expr.branch (source : Option (Array Char)) : Expr → Branch
  | .single t => branchOver source t.span "expr" [t.tree]
  | .binary l o m r =>
    branchOver source (l.span.through r.span) "expr"
      [l.tree, .over m "operator" [.over m o.rule []], r.tree]

theorem Expr.branches_tree (source : Option (Array Char)) (e : Expr) :
    e.tree.branches source = [e.branch source] := by
  cases e with
  | single t => rfl
  | binary l o m r => rfl

theorem Expr.rule_branch (source : Option (Array Char)) (e : Expr) :
    (e.branch source).rule = Kind.expression.rule := by
  cases e with
  | single t => rfl
  | binary l o m r => rfl

/-- The branch of the tree of a term. -/
def Term.branch (source : Option (Array Char)) : Term → Branch
  | .literal k text p =>
    branchOver source p "term" [.chain p k.rules (.token ⟨k.name, text, .ofSpan p⟩)]
  | .enclosed .round p (.last e) q => branchOver source (p.through q) "term" [e.tree]
  | .enclosed .round p is q =>
    branchOver source (p.through q) "term"
      [.over (p.through q) "value" [.over (p.through q) "tuple" is.trees]]
  | .enclosed .square p is q =>
    branchOver source (p.through q) "term"
      [.over (p.through q) "value" [.over (p.through q) "array" is.trees]]

theorem Term.branches_tree (source : Option (Array Char)) (t : Term) :
    t.tree.branches source = [t.branch source] := by
  cases t with
  | literal k text p => rfl
  | enclosed b p is q =>
    cases b with
    | square => rfl
    | round => cases is <;> rfl

theorem Items.branchesOf_trees (source : Option (Array Char)) (is : Items) :
    Tree.branchesOf source is.trees = is.exprs.map (Expr.branch source) := by
  cases is with
  | nil => rfl
  | last e =>
    rw [Items.trees, Tree.branchesOf, e.branches_tree source]
    rfl
  | cons e m is =>
    rw [Items.trees, Tree.branchesOf, e.branches_tree source, Items.branchesOf_trees source is]
    rfl

end Phrase

namespace Builder

open Phrase

variable {c : Cursor} {s : Settings} {rest : List Branch} {source : Option (Array Char)}

theorem yields_decode {α : Type} (hc : c.At s rest) (site : Site)
    (decoder : String → Except Fault α) :
    Yields s rest (decode site decoder c) ((decoder site.text).mapError (Fault.at site)) := by
  cases hdecode : decoder site.text with
  | ok a =>
    simp only [decode, hdecode]
    exact .value hc
  | error fault =>
    cases fault with
    | _ =>
      simp only [decode, hdecode]
      exact .failure nofun

theorem yields_leaf {α : Type} {k : Kind} {b : Branch} (hc : c.At s (b :: rest))
    (hrule : b.rule = k.rule) (hchildren : b.children = [])
    (decoder : Settings → String → Except Fault α) :
    Yields s rest (leaf k decoder c) ((decoder s b.site.text).mapError (Fault.at b.site)) := by
  apply yields_tagged hc hrule
  intro c' hc'
  rw [hchildren] at hc'
  rw [bind_of_ok (show settings c' = ⟨.ok s, c', []⟩ by rw [← hc'.settings_eq]; rfl)]
  exact (yields_decode hc' b.site (decoder s)).after []

theorem yields_operator {m : Span} {o : Operator}
    (hc : c.At s (branchOver source m "operator" [.over m o.rule []] :: rest)) :
    Yields s rest (operator c) (.ok o) := by
  have hv : (Kind.marker o, marker (.marker o) o) ∈ operatorVariants :=
    List.mem_map_of_mem (Operator.mem_all o)
  apply yields_choice hc rfl separate_operatorVariants hv rfl
  intro c' hc'
  exact yields_tagged (f := fun _ => pure o) hc' rfl fun c'' hc'' => .value hc''

/-! ### Literals -/

/-- The branch of the node that a literal token is the text of. -/
def leafBranch (source : Option (Array Char)) (k : LiteralKind) (text : String) (p : Span) :
    Branch :=
  branchOver source p k.kind.rule [.token ⟨k.name, text, .ofSpan p⟩]

theorem yields_leafBranch {α : Type} {k : LiteralKind} {text : String} {p : Span}
    (hlegible : Token.Legible source ⟨.literal k text, p⟩)
    (hc : c.At s (leafBranch source k text p :: rest))
    (decoder : Settings → String → Except Fault α) :
    Yields s rest (leaf k.kind decoder c)
      ((decoder s text).mapError (Fault.at (k.site text p))) := by
  have hsite : (leafBranch source k text p).site = k.site text p :=
    congrArg (Site.mk k.kind.rule · _) (hlegible k text rfl)
  have hyields := yields_leaf hc rfl rfl decoder
  rw [hsite] at hyields
  exact hyields

theorem yields_integer {k : LiteralKind} {r : Radix} (hk : k.kind = .numeral r) {text : String}
    {p : Span} (hlegible : Token.Legible source ⟨.literal k text, p⟩)
    (hc : c.At s (branchOver source p "integer"
      [.over p k.kind.rule [.token ⟨k.name, text, .ofSpan p⟩]] :: rest)) :
    Yields s rest (integer c)
      (((decodeRadixInteger r text).mapError (Fault.at (k.site text p))).map (r, ·)) := by
  have hv : (Kind.numeral r, (r, ·) <$> numeral (.numeral r) r) ∈ integerVariants :=
    List.mem_map_of_mem (by cases r <;> decide)
  refine yields_choice hc rfl separate_integerVariants hv ?_ fun c' hc' => ?_
  · rw [← hk]
    rfl
  · have hyields := yields_leafBranch hlegible hc' fun _ => decodeRadixInteger r
    rw [hk] at hyields
    exact yields_map hyields _

theorem yields_primitive_integer {k : LiteralKind} {r : Radix} (hk : k.kind = .numeral r)
    {text : String} {p : Span} (hlegible : Token.Legible source ⟨.literal k text, p⟩)
    (hc : c.At s (branchOver source p "primitive_value"
      [.over p "integer" [.over p k.kind.rule [.token ⟨k.name, text, .ofSpan p⟩]]] :: rest)) :
    Yields s rest (primitive c)
      (((decodeRadixInteger r text).mapError (Fault.at (k.site text p))).map (.integer r)) := by
  have hv : (Kind.integer, (fun n : Radix × Int => Primitive.integer n.1 n.2) <$> integer) ∈
      primitiveVariants := List.mem_cons_self
  have hmap : ((decodeRadixInteger r text).mapError (Fault.at (k.site text p))).map (.integer r) =
      (((decodeRadixInteger r text).mapError (Fault.at (k.site text p))).map (r, ·)).map
        fun n : Radix × Int => Primitive.integer n.1 n.2 := by
    cases decodeRadixInteger r text <;> rfl
  rw [hmap]
  exact yields_choice hc rfl separate_primitiveVariants hv rfl fun c' hc' =>
    yields_map (yields_integer hk hlegible hc') _

theorem yields_value_primitive {p : Span} {ts : List Tree} {r : Except Failure Primitive}
    (h : ∀ c', c'.At s [branchOver source p "primitive_value" ts] → Yields s [] (primitive c') r)
    (hc : c.At s (branchOver source p "value" [.over p "primitive_value" ts] :: rest))
    (n : Nested) : Yields s rest (value n c) (r.map .primitive) := by
  have hv : (Kind.primitive, Value.primitive <$> primitive) ∈ valueVariants n := List.mem_cons_self
  exact yields_choice hc rfl (separate_valueVariants n) hv rfl fun c' hc' =>
    yields_map (h c' hc') _

/-- The branch below the term of a literal token. -/
def valueBranch (source : Option (Array Char)) (k : LiteralKind) (text : String) (p : Span) :
    Branch :=
  branchOver source p "value" [.chain p k.rules.tail (.token ⟨k.name, text, .ofSpan p⟩)]

theorem yields_value_integer {k : LiteralKind} {r : Radix} (hk : k.kind = .numeral r)
    (hrules : k.rules.tail = ["primitive_value", "integer", k.kind.rule]) {text : String} {p : Span}
    (hlegible : Token.Legible source ⟨.literal k text, p⟩)
    (hc : c.At s (valueBranch source k text p :: rest)) (n : Nested) :
    Yields s rest (value n c)
      (((decodeRadixInteger r text).map fun n => .primitive (.integer r n)).mapError
        (Fault.at (k.site text p))) := by
  rw [valueBranch, hrules] at hc
  have hyields := yields_value_primitive (fun c' hc' => yields_primitive_integer hk hlegible hc')
    hc n
  cases hdecode : decodeRadixInteger r text with
  | ok n =>
    rw [hdecode] at hyields
    exact hyields
  | error fault =>
    rw [hdecode] at hyields
    exact hyields

theorem yields_value_leaf {χ : Type} {k : LiteralKind} {f : χ → Primitive}
    {decoder : Settings → String → Except Fault χ}
    (hv : (k.kind, f <$> leaf k.kind decoder) ∈ primitiveVariants)
    (hrules : k.rules.tail = ["primitive_value", k.kind.rule]) {text : String} {p : Span}
    (hlegible : Token.Legible source ⟨.literal k text, p⟩)
    (hc : c.At s (valueBranch source k text p :: rest)) (n : Nested) :
    Yields s rest (value n c)
      (((decoder s text).map fun x => .primitive (f x)).mapError (Fault.at (k.site text p))) := by
  rw [valueBranch, hrules] at hc
  have hprimitive (c' : Cursor) (hc' : c'.At s [branchOver source p "primitive_value"
      [.over p k.kind.rule [.token ⟨k.name, text, .ofSpan p⟩]]]) : Yields s [] (primitive c')
      (((decoder s text).mapError (Fault.at (k.site text p))).map f) :=
    yields_choice hc' rfl separate_primitiveVariants hv rfl fun c'' hc'' =>
      yields_map (yields_leafBranch hlegible hc'' decoder) f
  have hyields := yields_value_primitive hprimitive hc n
  cases hdecode : decoder s text with
  | ok n =>
    rw [hdecode] at hyields
    exact hyields
  | error fault =>
    rw [hdecode] at hyields
    exact hyields

theorem yields_value_literal {k : LiteralKind} {text : String} {p : Span}
    (hlegible : Token.Legible source ⟨.literal k text, p⟩)
    (hc : c.At s (valueBranch source k text p :: rest)) (n : Nested) :
    Yields s rest (value n c)
      ((k.value s.radixFloats text).mapError (Fault.at (k.site text p))) := by
  match k with
  | .decInt => exact yields_value_integer (r := .decimal) rfl rfl hlegible hc n
  | .binInt => exact yields_value_integer (r := .binary) rfl rfl hlegible hc n
  | .octInt => exact yields_value_integer (r := .octal) rfl rfl hlegible hc n
  | .hexInt => exact yields_value_integer (r := .hexadecimal) rfl rfl hlegible hc n
  | .float =>
    have hv : (Kind.float, Primitive.float <$> float) ∈ primitiveVariants := by
      simp [primitiveVariants]
    have hyields := yields_value_leaf (k := .float) hv rfl hlegible hc n
    cases hs : s.radixFloats with
    | true =>
      rw [hs] at hyields
      exact hyields
    | false =>
      rw [hs] at hyields
      exact hyields
  | .char =>
    have hv : (Kind.char, Primitive.char <$> char) ∈ primitiveVariants := by
      simp [primitiveVariants]
    exact yields_value_leaf (k := .char) hv rfl hlegible hc n
  | .string =>
    have hv : (Kind.string, Value.string <$> string) ∈ valueVariants n := by
      simp [valueVariants]
    exact yields_choice hc rfl (separate_valueVariants n) hv rfl fun c' hc' =>
      yields_map (yields_leafBranch (k := .string) hlegible hc' _) _

/-! ### Phrases -/

theorem yields_term_literal {k : LiteralKind} {text : String} {p : Span}
    (hlegible : Token.Legible source ⟨.literal k text, p⟩) {a : Nat}
    (hc : c.At s ((Phrase.Term.literal k text p).branch source :: rest)) :
    Yields s rest (term (nested a) c)
      ((Phrase.Term.literal k text p).build s.radixFloats a) := by
  have hv : (Kind.value, Term.value <$> value (nested a)) ∈ termVariants (nested a) :=
    List.mem_cons_self
  have hchildren : ((Phrase.Term.literal k text p).branch source).children =
      [valueBranch source k text p] := by
    cases k <;> rfl
  refine yields_choice hc rfl (separate_termVariants a) hv ?_ fun c' hc' => ?_
  · rw [hchildren]
    rfl
  · rw [hchildren] at hc'
    exact yields_map (yields_value_literal hlegible hc' _) _

theorem yields_term_group {e : Expr} {a : Nat} {p q : Span}
    (he : ∀ a c rest, c.At s (e.branch source :: rest) →
      Yields s rest (expression a c) (e.build s.radixFloats a))
    (hc : c.At s ((Phrase.Term.enclosed .round p (.last e) q).branch source :: rest)) :
    Yields s rest (term (nested a) c)
      ((Phrase.Term.enclosed .round p (.last e) q).build s.radixFloats a) := by
  have hv : (Kind.expression, Term.group <$> allowed Kind.expression.rule (nested a).group?) ∈
      termVariants (nested a) := by
    simp [termVariants]
  have hchildren : ((Phrase.Term.enclosed .round p (.last e) q).branch source).children =
      [e.branch source] := by
    show Tree.branchesOf source [e.tree] = _
    rw [Tree.branchesOf, e.branches_tree]
    rfl
  refine yields_choice hc rfl (separate_termVariants a) hv ?_ fun c' hc' => ?_
  · rw [hchildren]
    exact congrArg some (e.rule_branch source)
  · rw [hchildren] at hc'
    rw [Term.build]
    by_cases ha : groupCost ≤ a
    · rw [nested_group?, if_pos ha, if_pos ha]
      exact yields_map (he _ c' [] hc') _
    · rw [nested_group?, if_neg ha, if_neg ha]
      exact yields_map (yields_allowed_none hc' (e.rule_branch source)) _

theorem yields_sequence {is : Items} {k : Kind} {a : Nat} {p : Span}
    (his : ∀ e ∈ is.exprs, ∀ a c rest, c.At s (e.branch source :: rest) →
      Yields s rest (expression a c) (e.build s.radixFloats a))
    (hc : c.At s (branchOver source p k.rule is.trees :: rest)) :
    Yields s rest (sequence k (nested a) c)
      (if sequenceCost ≤ a then is.build s.radixFloats (a - sequenceCost)
        else .error .tooDeep) := by
  unfold sequence
  by_cases ha : sequenceCost ≤ a
  · rw [nested_item?, if_pos ha, if_pos ha, Items.build_eq]
    show Yields s rest (tagged k.rule (fun _ => many (expression (a - sequenceCost))) c) _
    apply yields_tagged hc rfl
    intro c' hc'
    have hchildren : c'.At s (is.exprs.map (Expr.branch source)) := by
      rw [← is.branchesOf_trees]
      exact hc'
    exact yields_many (opens_expression _).selects (fun e he c rest => his e he _ c rest) hchildren
  · rw [nested_item?, if_neg ha, if_neg ha]
    exact yields_allowed_none hc rfl

theorem yields_term_sequence {is : Items} {k : Kind} {f : List Expression → Value} {a : Nat}
    {p : Span} (hv : (k, f <$> sequence k (nested a)) ∈ valueVariants (nested a))
    (his : ∀ e ∈ is.exprs, ∀ a c rest, c.At s (e.branch source :: rest) →
      Yields s rest (expression a c) (e.build s.radixFloats a))
    (hc : c.At s (branchOver source p "term" [.over p "value" [.over p k.rule is.trees]] :: rest)) :
    Yields s rest (term (nested a) c)
      (if sequenceCost ≤ a then
        (is.build s.radixFloats (a - sequenceCost)).map fun es => .value (f es)
      else .error .tooDeep) := by
  have hterm : (Kind.value, Term.value <$> value (nested a)) ∈ termVariants (nested a) :=
    List.mem_cons_self
  have hyields : Yields s rest (term (nested a) c)
      (((if sequenceCost ≤ a then is.build s.radixFloats (a - sequenceCost)
        else .error .tooDeep).map f).map .value) :=
    yields_choice hc rfl (separate_termVariants a) hterm rfl fun c' hc' =>
      yields_map (yields_choice hc' rfl (separate_valueVariants _) hv rfl fun c'' hc'' =>
        yields_map (yields_sequence his hc'') f) _
  by_cases ha : sequenceCost ≤ a
  · rw [if_pos ha] at hyields ⊢
    cases hbuild : is.build s.radixFloats (a - sequenceCost) with
    | ok es =>
      rw [hbuild] at hyields
      exact hyields
    | error e =>
      rw [hbuild] at hyields
      exact hyields
  · rw [if_neg ha] at hyields ⊢
    exact hyields

theorem yields_term_enclosed {is : Items} {a : Nat} {p q : Span}
    (his : ∀ e ∈ is.exprs, ∀ a c rest, c.At s (e.branch source :: rest) →
      Yields s rest (expression a c) (e.build s.radixFloats a)) (b : Bracket)
    (hc : c.At s ((Phrase.Term.enclosed b p is q).branch source :: rest)) :
    Yields s rest (term (nested a) c)
      ((Phrase.Term.enclosed b p is q).build s.radixFloats a) := by
  have harray : (Kind.array, Value.array <$> sequence .array (nested a)) ∈
      valueVariants (nested a) := by simp [valueVariants]
  have htuple : (Kind.tuple, Value.tuple <$> sequence .tuple (nested a)) ∈
      valueVariants (nested a) := by simp [valueVariants]
  cases b with
  | square => exact yields_term_sequence harray his hc
  | round =>
    cases is with
    | nil => exact yields_term_sequence htuple his hc
    | last e => exact yields_term_group (his e List.mem_cons_self) hc
    | cons e m is => exact yields_term_sequence htuple his hc

theorem yields_expression_single {t : Phrase.Term} {a : Nat}
    (ht : ∀ c rest, c.At s (t.branch source :: rest) →
      Yields s rest (term (nested a) c) (t.build s.radixFloats a))
    (hc : c.At s ((Expr.single t).branch source :: rest)) :
    Yields s rest (expression a c) ((Expr.single t).build s.radixFloats a) := by
  have hchildren : ((Expr.single t).branch source).children = [t.branch source] := by
    show Tree.branchesOf source [t.tree] = _
    rw [Tree.branchesOf, t.branches_tree]
    rfl
  rw [expression_eq]
  apply yields_tagged hc rfl
  intro c' hc'
  rw [hchildren] at hc'
  have hbuild : (Expr.single t).build s.radixFloats a =
      t.build s.radixFloats a >>= fun left => .ok (.single left) := by
    rw [Expr.build]
    cases t.build s.radixFloats a <;> rfl
  rw [hbuild]
  apply yields_bind (yields_required (ht c' [] hc') _ _)
  intro left c₁ hc₁
  exact yields_bind_ok (yields_optional_none opens_operator.selects hc₁ nofun) fun c₂ hc₂ =>
    yields_pure hc₂ _

theorem yields_expression_binary {l r : Phrase.Term} {o : Operator} {m : Span} {a : Nat}
    (hl : ∀ c rest, c.At s (l.branch source :: rest) →
      Yields s rest (term (nested a) c) (l.build s.radixFloats a))
    (hr : ∀ c rest, c.At s (r.branch source :: rest) →
      Yields s rest (term (nested a) c) (r.build s.radixFloats a))
    (hc : c.At s ((Expr.binary l o m r).branch source :: rest)) :
    Yields s rest (expression a c) ((Expr.binary l o m r).build s.radixFloats a) := by
  have hchildren : ((Expr.binary l o m r).branch source).children =
      [l.branch source, branchOver source m "operator" [.over m o.rule []], r.branch source] := by
    show Tree.branchesOf source [l.tree, .over m "operator" [.over m o.rule []], r.tree] = _
    rw [Tree.branchesOf, l.branches_tree, Tree.branchesOf, Tree.branchesOf, r.branches_tree]
    rfl
  rw [expression_eq]
  apply yields_tagged hc rfl
  intro c' hc'
  rw [hchildren] at hc'
  rw [Expr.build]
  apply yields_bind (yields_required (hl c' _ hc') _ _)
  intro left c₁ hc₁
  apply yields_bind_ok (yields_optional (yields_operator hc₁))
  intro c₂ hc₂
  exact yields_bind (yields_required (hr c₂ _ hc₂) _ _) fun right c₃ hc₃ => yields_pure hc₃ _

end Builder

namespace Phrase

open Builder

variable {source : Option (Array Char)} {s : Settings}

mutual

/-- The builder of expressions yields the meaning of an expression on its branch. -/
theorem Expr.yields_expression (e : Expr) (hlegible : ∀ tok ∈ e.tokens, tok.Legible source) :
    ∀ a c rest, c.At s (e.branch source :: rest) →
      Yields s rest (expression a c) (e.build s.radixFloats a) := by
  match e with
  | .single t =>
    intro a c rest hc
    exact yields_expression_single (t.yields_term hlegible a) hc
  | .binary l o m r =>
    have hl : ∀ tok ∈ l.tokens, tok.Legible source := fun tok htok =>
      hlegible tok (List.mem_append_left _ htok)
    have hr : ∀ tok ∈ r.tokens, tok.Legible source := fun tok htok =>
      hlegible tok (List.mem_append_right _ (List.mem_cons_of_mem _ htok))
    intro a c rest hc
    exact yields_expression_binary (l.yields_term hl a) (r.yields_term hr a) hc

theorem Term.yields_term (t : Term) (hlegible : ∀ tok ∈ t.tokens, tok.Legible source) :
    ∀ a c rest, c.At s (t.branch source :: rest) →
      Yields s rest (term (nested a) c) (t.build s.radixFloats a) := by
  match t with
  | .literal k text p =>
    intro a c rest hc
    exact yields_term_literal (hlegible _ List.mem_cons_self) hc
  | .enclosed b p is q =>
    have his : ∀ tok ∈ is.tokens, tok.Legible source := fun tok htok =>
      hlegible tok (List.mem_cons_of_mem _ (List.mem_append_left _ htok))
    intro a c rest hc
    exact yields_term_enclosed (is.yields_expression his) b hc

theorem Items.yields_expression (is : Items)
    (hlegible : ∀ tok ∈ is.tokens, tok.Legible source) :
    ∀ e ∈ is.exprs, ∀ a c rest, c.At s (e.branch source :: rest) →
      Yields s rest (expression a c) (e.build s.radixFloats a) := by
  match is with
  | .nil => nofun
  | .last e => exact List.forall_mem_cons.mpr ⟨e.yields_expression hlegible, nofun⟩
  | .cons e m is =>
    have he : ∀ tok ∈ e.tokens, tok.Legible source := fun tok htok =>
      hlegible tok (List.mem_append_left _ htok)
    have his : ∀ tok ∈ is.tokens, tok.Legible source := fun tok htok =>
      hlegible tok (List.mem_append_right _ (List.mem_cons_of_mem _ htok))
    exact List.forall_mem_cons.mpr ⟨e.yields_expression he, is.yields_expression his⟩

end

/-! ### Programs -/

/-- What is built of a statement: nothing is kept of its expression. -/
def Stmt.build (radixFloats : Bool) (allowance : Nat) (stmt : Stmt) : Except Failure Statement :=
  (stmt.expr.build radixFloats allowance).map fun _ => {}

/-- The branch of the tree of a statement. -/
def Stmt.branch (source : Option (Array Char)) (stmt : Stmt) : Branch :=
  branchOver source stmt.span "stmt" [stmt.expr.tree]

/-- What is built of a program. -/
def buildProgram (radixFloats : Bool) (allowance : Nat) (stmts : List Stmt) :
    Except Failure Program :=
  (stmts.mapM (Stmt.build radixFloats allowance)).map .mk

/-- The branch of the tree of a program. -/
def programBranch (source : Option (Array Char)) (stmts : List Stmt) : Branch :=
  ⟨Tree.site source "main" ((spanOf? stmts).map .ofSpan) (stmts.map Stmt.tree),
    stmts.map (Stmt.branch source)⟩

theorem branchesOf_stmts (source : Option (Array Char)) (stmts : List Stmt) :
    Tree.branchesOf source (stmts.map Stmt.tree) = stmts.map (Stmt.branch source) := by
  induction stmts with
  | nil => rfl
  | cons stmt stmts ih =>
    rw [List.map_cons, Tree.branchesOf, ih]
    rfl

theorem branches_program (source : Option (Array Char)) (stmts : List Stmt) :
    (Sentence.program stmts).tree.branches source = [programBranch source stmts] := by
  rw [programBranch, ← branchesOf_stmts]
  rfl

theorem Stmt.yields_statement {stmt : Stmt}
    (hlegible : ∀ tok ∈ stmt.tokens, tok.Legible source) {a : Nat} {c : Cursor}
    {rest : List Branch} (hc : c.At s (stmt.branch source :: rest)) :
    Yields s rest (statement a c) (stmt.build s.radixFloats a) := by
  have hexpr : ∀ tok ∈ stmt.expr.tokens, tok.Legible source := fun tok htok =>
    hlegible tok (List.mem_append_left _ htok)
  have hbuild : stmt.build s.radixFloats a =
      [stmt.expr].mapM (Expr.build s.radixFloats a) >>= fun _ => .ok {} := by
    rw [List.mapM_cons, List.mapM_nil, Stmt.build]
    cases stmt.expr.build s.radixFloats a <;> rfl
  have hchildren : (stmt.branch source).children = [stmt.expr].map (Expr.branch source) := by
    show Tree.branchesOf source [stmt.expr.tree] = _
    rw [Tree.branchesOf, stmt.expr.branches_tree]
    rfl
  apply yields_tagged hc rfl
  intro c' hc'
  rw [hchildren] at hc'
  rw [hbuild]
  refine yields_bind (yields_many (opens_expression a).selects ?_ hc') fun _ c₁ hc₁ => yields_pure hc₁ _
  exact List.forall_mem_cons.mpr ⟨stmt.expr.yields_expression hexpr a, nofun⟩

theorem yields_program {stmts : List Stmt}
    (hlegible : ∀ tok ∈ stmts.flatMap Stmt.tokens, tok.Legible source) {a : Nat} {c : Cursor}
    {rest : List Branch} (hc : c.At s (programBranch source stmts :: rest)) :
    Yields s rest (program a c) (buildProgram s.radixFloats a stmts) := by
  refine yields_tagged hc rfl fun c' hc' => yields_map ?_ Program.mk
  refine yields_many (opens_statement a).selects (fun stmt hstmt c rest hc => ?_) hc'
  exact stmt.yields_statement (fun tok htok => hlegible tok (List.mem_flatMap_of_mem hstmt htok)) hc

end Phrase

end RuleTree
