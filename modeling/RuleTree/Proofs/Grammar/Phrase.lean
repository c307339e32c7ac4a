import RuleTree.Proofs.Grammar.Derivation
import RuleTree.Source.Reading.Tokens

/-!
# The derivations of phrases

A phrase is a derivation in another form: `Expr.derivation` and its companions lose nothing and reach
every derivation of their rules. So what is known of phrases is known of derivations.

* `tokens_derivation`, `trees_derivation`: a phrase and its derivation have the same tokens, and the
  shape of the derivation is the tree of the phrase.
* `exists_derivation_eq`: every derivation is that of a phrase.
-/

namespace RuleTree

open Grammar

/-! ### From phrases to derivations -/

/-- The derivation of an operator. -/
def Operator.derivation (o : Operator) (m : Span) : Derivation (.rule .operator) :=
  .rule .operator <|
    match o with
    | .add => .left (.rule (.op .add) (.fixed _ m))
    | .sub => .right (.left (.rule (.op .sub) (.fixed _ m)))
    | .mul => .right (.right (.left (.rule (.op .mul) (.fixed _ m))))
    | .div => .right (.right (.right (.left (.rule (.op .div) (.fixed _ m)))))
    | .pow => .right (.right (.right (.right (.rule (.op .pow) (.fixed _ m)))))

/-- The derivation of a literal as a value. -/
def LiteralKind.derivation (text : String) (p : Span) : LiteralKind → Derivation (.rule .value)
  | .decInt => integer (.left (.rule (.integerIn .decimal) (.named _ text p)))
  | .binInt => integer (.right (.left (.rule (.integerIn .binary) (.named _ text p))))
  | .octInt => integer (.right (.right (.left (.rule (.integerIn .octal) (.named _ text p)))))
  | .hexInt =>
    integer (.right (.right (.right (.rule (.integerIn .hexadecimal) (.named _ text p)))))
  | .float => primitive (.right (.left (.rule .float (.named _ text p))))
  | .char => primitive (.right (.right (.rule .char (.named _ text p))))
  | .string => .rule .value (.right (.left (.rule .string (.named _ text p))))
where
  primitive (d : Derivation Rule.primitiveValue.body) : Derivation (.rule .value) :=
    .rule .value (.left (.rule .primitiveValue d))
  integer (d : Derivation Rule.integer.body) : Derivation (.rule .value) :=
    primitive (.left (.rule .integer d))

namespace Phrase

/-- An array as a term. -/
def arrayTerm (d : Derivation Rule.array.body) : Derivation (.rule .term) :=
  .rule .term (.left (.rule .value (.right (.right (.left (.rule .array d))))))

/-- A tuple as a term. -/
def tupleTerm (d : Derivation Rule.tuple.body) : Derivation (.rule .term) :=
  .rule .term (.left (.rule .value (.right (.right (.right (.rule .tuple d))))))

mutual

def Expr.derivation : Expr → Derivation (.rule .expr)
  | .single t => .rule .expr (.both t.derivation .absent)
  | .binary l o m r =>
    .rule .expr (.both l.derivation (.present (.both (o.derivation m) r.derivation)))

def Term.derivation : Term → Derivation (.rule .term)
  | .literal k text p => .rule .term (.left (k.derivation text p))
  | .enclosed .square p is q =>
    arrayTerm (.both (.fixed _ p) (.both is.derivation (.fixed _ q)))
  | .enclosed .round p .nil q => tupleTerm (.left (.both (.fixed _ p) (.fixed _ q)))
  | .enclosed .round p (.last e) q =>
    .rule .term (.right (.both (.fixed _ p) (.both e.derivation (.fixed _ q))))
  | .enclosed .round p (.cons e m is) q =>
    tupleTerm (.right (.both (.fixed _ p) (.both e.derivation
      (.both (.fixed _ m) (.both is.derivation (.fixed _ q))))))

def Items.derivation : Items → Derivation (.optional (.rule .exprs))
  | .nil => .absent
  | .last e => .present (.rule .exprs (.both e.derivation (.both .done .absent)))
  | .cons e m is =>
    .present (.rule .exprs
      (.both e.derivation (.both (is.derivationBehind m).1 (is.derivationBehind m).2)))

/-- The derivations of what follows an item: the comma `m` and the items behind it, up to the comma
that may end them. -/
def Items.derivationBehind (m : Span) : Items →
    Derivation (.many (.both (.fixed .comma) (.rule .expr)))
      × Derivation (.optional (.fixed .comma))
  | .nil => (.done, .present (.fixed _ m))
  | .last e => (.more (.both (.fixed _ m) e.derivation) .done, .absent)
  | .cons e n is =>
    (.more (.both (.fixed _ m) e.derivation) (is.derivationBehind n).1, (is.derivationBehind n).2)

end

def Stmt.derivation (s : Stmt) : Derivation (.rule .stmt) :=
  .rule .stmt (.both s.expr.derivation (.fixed _ s.semicolon))

/-- The derivation of statements one after another. -/
def stmtsDerivation : List Stmt → Derivation (.many (.rule .stmt))
  | [] => .done
  | s :: stmts => .more s.derivation (stmtsDerivation stmts)

/-! ### Tokens -/

theorem tokens_operator (o : Operator) (m : Span) :
    (o.derivation m).tokens = [⟨.operator o, m⟩] := by
  cases o <;> rfl

theorem tokens_literal (k : LiteralKind) (text : String) (p : Span) :
    (k.derivation text p).tokens = [⟨.literal k text, p⟩] := by
  cases k <;> rfl

mutual

theorem Expr.tokens_derivation (e : Expr) : e.derivation.tokens = e.tokens := by
  match e with
  | .single t => simp [Expr.derivation, Derivation.tokens, Expr.tokens, t.tokens_derivation]
  | .binary l o m r =>
    simp [Expr.derivation, Derivation.tokens, Expr.tokens, l.tokens_derivation, r.tokens_derivation,
      tokens_operator]

theorem Term.tokens_derivation (t : Term) : t.derivation.tokens = t.tokens := by
  match t with
  | .literal k text p => simp [Term.derivation, Derivation.tokens, Term.tokens, tokens_literal]
  | .enclosed .square p is q =>
    simp [Term.derivation, arrayTerm, Derivation.tokens, Term.tokens, is.tokens_derivation]
  | .enclosed .round p .nil q =>
    simp [Term.derivation, tupleTerm, Derivation.tokens, Term.tokens, Items.tokens]
  | .enclosed .round p (.last e) q =>
    simp [Term.derivation, Derivation.tokens, Term.tokens, Items.tokens, e.tokens_derivation]
  | .enclosed .round p (.cons e m is) q =>
    simp [Term.derivation, tupleTerm, Derivation.tokens, Term.tokens, Items.tokens,
      e.tokens_derivation, is.tokens_derivation]

theorem Items.tokens_derivation (is : Items) : is.derivation.tokens = is.tokens := by
  match is with
  | .nil => rfl
  | .last e => simp [Items.derivation, Derivation.tokens, Items.tokens, e.tokens_derivation]
  | .cons e m is =>
    simp [Items.derivation, Derivation.tokens, Items.tokens, e.tokens_derivation,
      is.tokens_derivationBehind m]

theorem Items.tokens_derivationBehind (is : Items) (m : Span) :
    (is.derivationBehind m).1.tokens ++ (is.derivationBehind m).2.tokens
      = ⟨.comma, m⟩ :: is.tokens := by
  match is with
  | .nil => rfl
  | .last e => simp [Items.derivationBehind, Derivation.tokens, Items.tokens, e.tokens_derivation]
  | .cons e n is =>
    simp [Items.derivationBehind, Derivation.tokens, Items.tokens, e.tokens_derivation,
      is.tokens_derivationBehind n]

end

theorem Stmt.tokens_derivation (s : Stmt) : s.derivation.tokens = s.tokens := by
  simp [derivation, Derivation.tokens, tokens, s.expr.tokens_derivation]

theorem tokens_stmtsDerivation (stmts : List Stmt) :
    (stmtsDerivation stmts).tokens = stmts.flatMap Stmt.tokens := by
  induction stmts with
  | nil => rfl
  | cons s stmts ih => simp [stmtsDerivation, Derivation.tokens, s.tokens_derivation, ih]

/-! ### Trees -/

theorem spanOfTokens?_append {ts us : List Token} {p q : Span} (mid : List Token)
    (hp : spanOfTokens? ts = some p) (hq : spanOfTokens? us = some q) :
    spanOfTokens? (ts ++ (mid ++ us)) = some (p.through q) := by
  unfold spanOfTokens? at *
  split at hp
  · rename_i first _ hfirst _
    split at hq
    · rename_i _ last _ hlast
      rw [List.head?_append, hfirst, List.getLast?_append, List.getLast?_append, hlast]
      cases hp
      cases hq
      rfl
    · cases hq
  · cases hp

mutual

theorem Expr.spanOfTokens?_tokens (e : Expr) : spanOfTokens? e.tokens = some e.span := by
  match e with
  | .single t => exact t.spanOfTokens?_tokens
  | .binary l o m r =>
    exact spanOfTokens?_append [⟨.operator o, m⟩] l.spanOfTokens?_tokens r.spanOfTokens?_tokens

theorem Term.spanOfTokens?_tokens (t : Term) : spanOfTokens? t.tokens = some t.span := by
  match t with
  | .literal k text p => rfl
  | .enclosed b p is q =>
    have hopening : spanOfTokens? [⟨.opening b, p⟩] = some p := rfl
    exact spanOfTokens?_append is.tokens hopening rfl

end

theorem isInlined_iff {r : Rule} : r.isInlined = true ↔ r = .exprs := by
  cases r with
  | op o => cases o <;> decide
  | integerIn r => cases r <;> decide
  | _ => decide

theorem trees_rule {r : Rule} (hr : r ≠ .exprs) (d : Derivation r.body) :
    (Derivation.rule r d).trees
      = [.node r.name ((spanOfTokens? d.tokens).map .ofSpan) d.trees] := by
  rw [Derivation.trees, if_neg fun h => hr (isInlined_iff.mp h)]

theorem trees_operator (o : Operator) (m : Span) :
    (o.derivation m).trees = [.over m "operator" [.over m o.rule []]] := by
  cases o <;> rfl

theorem trees_literal (k : LiteralKind) (text : String) (p : Span) :
    (k.derivation text p).trees = [.chain p k.rules (.token ⟨k.name, text, .ofSpan p⟩)] := by
  cases k <;> rfl

theorem trees_arrayTerm (d : Derivation Rule.array.body) {p : Span}
    (hp : spanOfTokens? d.tokens = some p) :
    (arrayTerm d).trees = [.chain p ["term", "value"] (.over p "array" d.trees)] := by
  simp only [arrayTerm, trees_rule, Derivation.trees, Derivation.tokens, hp, ne_eq, reduceCtorEq,
    not_false_eq_true, Option.map_some]
  rfl

theorem trees_tupleTerm (d : Derivation Rule.tuple.body) {p : Span}
    (hp : spanOfTokens? d.tokens = some p) :
    (tupleTerm d).trees = [.chain p ["term", "value"] (.over p "tuple" d.trees)] := by
  simp only [tupleTerm, trees_rule, Derivation.trees, Derivation.tokens, hp, ne_eq, reduceCtorEq,
    not_false_eq_true, Option.map_some]
  rfl

mutual

theorem Expr.trees_derivation (e : Expr) : e.derivation.trees = [e.tree] := by
  have hspan := e.spanOfTokens?_tokens
  rw [← Expr.tokens_derivation] at hspan
  match e with
  | .single t =>
    rw [Expr.derivation, trees_rule (by decide)]
    rw [Expr.derivation, Derivation.tokens] at hspan
    rw [hspan, Derivation.trees, t.trees_derivation]
    rfl
  | .binary l o m r =>
    rw [Expr.derivation, trees_rule (by decide)]
    rw [Expr.derivation, Derivation.tokens] at hspan
    simp only [hspan, Derivation.trees, l.trees_derivation, r.trees_derivation, trees_operator]
    rfl

theorem Term.trees_derivation (t : Term) : t.derivation.trees = [t.tree] := by
  have hspan := t.spanOfTokens?_tokens
  rw [← Term.tokens_derivation] at hspan
  match t with
  | .literal k text p =>
    rw [Term.derivation, Derivation.tokens] at hspan
    rw [Term.derivation, trees_rule (by decide), hspan, Derivation.trees, trees_literal]
    rfl
  | .enclosed .square p is q =>
    rw [Term.derivation, trees_arrayTerm _ hspan]
    simp [Derivation.trees, Term.tree, enclosedTree, is.trees_derivation, Term.span]
  | .enclosed .round p .nil q =>
    rw [Term.derivation, trees_tupleTerm _ hspan]
    simp [Derivation.trees, Term.tree, enclosedTree, Items.trees, Term.span]
  | .enclosed .round p (.last e) q =>
    rw [Term.derivation, Derivation.tokens] at hspan
    rw [Term.derivation, trees_rule (by decide), hspan]
    simp [Derivation.trees, Term.tree, enclosedTree, Rule.name, Items.trees, e.trees_derivation,
      Term.span, Tree.over]
  | .enclosed .round p (.cons e m is) q =>
    rw [Term.derivation, trees_tupleTerm _ hspan]
    simp [Derivation.trees, Term.tree, enclosedTree, Items.trees, e.trees_derivation,
      is.trees_derivation, Term.span]

theorem Items.trees_derivation (is : Items) : is.derivation.trees = is.trees := by
  match is with
  | .nil => rfl
  | .last e =>
    simp [Items.derivation, Derivation.trees, Items.trees, e.trees_derivation, isInlined_iff]
  | .cons e m is =>
    simp [Items.derivation, Derivation.trees, Items.trees, e.trees_derivation,
      is.trees_derivationBehind m, isInlined_iff]

theorem Items.trees_derivationBehind (is : Items) (m : Span) :
    (is.derivationBehind m).1.trees ++ (is.derivationBehind m).2.trees = is.trees := by
  match is with
  | .nil => rfl
  | .last e => simp [Items.derivationBehind, Derivation.trees, Items.trees, e.trees_derivation]
  | .cons e n is =>
    simp [Items.derivationBehind, Derivation.trees, Items.trees, e.trees_derivation,
      is.trees_derivationBehind n]

end

theorem Stmt.spanOfTokens?_tokens (s : Stmt) : spanOfTokens? s.tokens = some s.span :=
  spanOfTokens?_append [] s.expr.spanOfTokens?_tokens rfl

theorem Stmt.trees_derivation (s : Stmt) : s.derivation.trees = [s.tree] := by
  have hspan := s.spanOfTokens?_tokens
  rw [← Stmt.tokens_derivation, Stmt.derivation, Derivation.tokens] at hspan
  rw [Stmt.derivation, trees_rule (by decide), hspan]
  simp [Derivation.trees, s.expr.trees_derivation, Stmt.tree, Rule.name, Tree.over]

theorem trees_stmtsDerivation (stmts : List Stmt) :
    (stmtsDerivation stmts).trees = stmts.map Stmt.tree := by
  induction stmts with
  | nil => rfl
  | cons s stmts ih => simp [stmtsDerivation, Derivation.trees, s.trees_derivation, ih]

theorem spanOfTokens?_stmts (stmts : List Stmt) :
    spanOfTokens? (stmts.flatMap Stmt.tokens) = spanOf? stmts := by
  cases stmts with
  | nil => rfl
  | cons s stmts =>
    rcases List.eq_nil_or_concat stmts with rfl | ⟨init, u, rfl⟩
    · rw [List.flatMap_cons, List.flatMap_nil, List.append_nil, s.spanOfTokens?_tokens]
      rfl
    · have h := spanOfTokens?_append (init.flatMap Stmt.tokens) s.spanOfTokens?_tokens
        u.spanOfTokens?_tokens
      have hlast : (s :: (init ++ [u])).getLast? = some u := by
        rw [← List.cons_append, List.getLast?_concat]
      simp [spanOf?, h, hlast]

/-- The derivation of a program and of an expression. -/
def programDerivation (stmts : List Stmt) : Derivation (.rule .main) :=
  .rule .main (stmtsDerivation stmts)

theorem tokens_programDerivation (stmts : List Stmt) :
    (programDerivation stmts).tokens = (Sentence.program stmts).tokens :=
  tokens_stmtsDerivation stmts

theorem trees_programDerivation (stmts : List Stmt) :
    (programDerivation stmts).trees = [(Sentence.program stmts).tree] := by
  rw [programDerivation, trees_rule (by decide), tokens_stmtsDerivation, spanOfTokens?_stmts,
    trees_stmtsDerivation]
  rfl

/-! ### Every derivation is that of a phrase -/

theorem exists_operator : (d : Derivation (.rule .operator)) → ∃ o m, Operator.derivation o m = d
  | .rule _ (.left (.rule _ (.fixed _ m))) => ⟨.add, m, rfl⟩
  | .rule _ (.right (.left (.rule _ (.fixed _ m)))) => ⟨.sub, m, rfl⟩
  | .rule _ (.right (.right (.left (.rule _ (.fixed _ m))))) => ⟨.mul, m, rfl⟩
  | .rule _ (.right (.right (.right (.left (.rule _ (.fixed _ m)))))) => ⟨.div, m, rfl⟩
  | .rule _ (.right (.right (.right (.right (.rule _ (.fixed _ m)))))) => ⟨.pow, m, rfl⟩

theorem exists_primitive : (d : Derivation Rule.primitiveValue.body) →
    ∃ (k : LiteralKind) (text : String) (p : Span),
      k.derivation text p = .rule .value (.left (.rule .primitiveValue d))
  | .left (.rule _ (.left (.rule _ (.named _ text p)))) => ⟨.decInt, text, p, rfl⟩
  | .left (.rule _ (.right (.left (.rule _ (.named _ text p))))) => ⟨.binInt, text, p, rfl⟩
  | .left (.rule _ (.right (.right (.left (.rule _ (.named _ text p)))))) =>
    ⟨.octInt, text, p, rfl⟩
  | .left (.rule _ (.right (.right (.right (.rule _ (.named _ text p)))))) =>
    ⟨.hexInt, text, p, rfl⟩
  | .right (.left (.rule _ (.named _ text p))) => ⟨.float, text, p, rfl⟩
  | .right (.right (.rule _ (.named _ text p))) => ⟨.char, text, p, rfl⟩

mutual

theorem exists_expr : (d : Derivation (.rule .expr)) → ∃ e : Expr, e.derivation = d
  | .rule _ (.both d .absent) => by
    obtain ⟨t, rfl⟩ := exists_term d
    exact ⟨.single t, by rw [Expr.derivation]⟩
  | .rule _ (.both d (.present (.both o e))) => by
    obtain ⟨l, rfl⟩ := exists_term d
    obtain ⟨r, rfl⟩ := exists_term e
    obtain ⟨o, m, rfl⟩ := exists_operator o
    exact ⟨.binary l o m r, by rw [Expr.derivation]⟩
termination_by d => d.size
decreasing_by all_goals simp only [Derivation.size]; omega

theorem exists_term : (d : Derivation (.rule .term)) → ∃ t : Term, t.derivation = d
  | .rule _ (.left (.rule _ (.left (.rule _ d)))) => by
    obtain ⟨k, text, p, h⟩ := exists_primitive d
    exact ⟨.literal k text p, by rw [Term.derivation, h]⟩
  | .rule _ (.left (.rule _ (.right (.left (.rule _ (.named _ text p)))))) =>
    ⟨.literal .string text p, by rw [Term.derivation]; rfl⟩
  | .rule _ (.left (.rule _ (.right (.right (.left
      (.rule _ (.both (.fixed _ p) (.both d (.fixed _ q))))))))) => by
    obtain ⟨is, rfl⟩ := exists_items d
    exact ⟨.enclosed .square p is q, by rw [Term.derivation]; rfl⟩
  | .rule _ (.left (.rule _ (.right (.right (.right
      (.rule _ (.left (.both (.fixed _ p) (.fixed _ q))))))))) =>
    ⟨.enclosed .round p .nil q, by rw [Term.derivation]; rfl⟩
  | .rule _ (.left (.rule _ (.right (.right (.right (.rule _ (.right
      (.both (.fixed _ p) (.both d (.both (.fixed _ m) (.both ds (.fixed _ q)))))))))))) => by
    obtain ⟨e, rfl⟩ := exists_expr d
    obtain ⟨is, rfl⟩ := exists_items ds
    exact ⟨.enclosed .round p (.cons e m is) q, by rw [Term.derivation]; rfl⟩
  | .rule _ (.right (.both (.fixed _ p) (.both d (.fixed _ q)))) => by
    obtain ⟨e, rfl⟩ := exists_expr d
    exact ⟨.enclosed .round p (.last e) q, by rw [Term.derivation]⟩
termination_by d => d.size
decreasing_by all_goals simp only [Derivation.size]; omega

theorem exists_items : (d : Derivation (.optional (.rule .exprs))) → ∃ is : Items, is.derivation = d
  | .absent => ⟨.nil, by rw [Items.derivation]⟩
  | .present (.rule _ (.both d (.both .done .absent))) => by
    obtain ⟨e, rfl⟩ := exists_expr d
    exact ⟨.last e, by rw [Items.derivation]⟩
  | .present (.rule _ (.both d (.both .done (.present (.fixed _ m))))) => by
    obtain ⟨e, rfl⟩ := exists_expr d
    exact ⟨.cons e m .nil, by rw [Items.derivation, Items.derivationBehind]⟩
  | .present (.rule _ (.both d (.both (.more (.both (.fixed _ m) d') ds) c))) => by
    obtain ⟨e, rfl⟩ := exists_expr d
    obtain ⟨is, h⟩ := exists_itemsBehind m d' ds c
    exact ⟨.cons e m is, by rw [Items.derivation, h]⟩
termination_by d => d.size
decreasing_by all_goals simp only [Derivation.size]; omega

theorem exists_itemsBehind (m : Span) : (d : Derivation (.rule .expr)) →
    (ds : Derivation (.many (.both (.fixed .comma) (.rule .expr)))) →
    (c : Derivation (.optional (.fixed .comma))) →
    ∃ is : Items, is.derivationBehind m = (.more (.both (.fixed _ m) d) ds, c)
  | d, .done, .absent => by
    obtain ⟨e, rfl⟩ := exists_expr d
    exact ⟨.last e, by rw [Items.derivationBehind]⟩
  | d, .done, .present (.fixed _ n) => by
    obtain ⟨e, rfl⟩ := exists_expr d
    exact ⟨.cons e n .nil, by rw [Items.derivationBehind, Items.derivationBehind]⟩
  | d, .more (.both (.fixed _ n) d') ds, c => by
    obtain ⟨e, rfl⟩ := exists_expr d
    obtain ⟨is, h⟩ := exists_itemsBehind n d' ds c
    exact ⟨.cons e n is, by rw [Items.derivationBehind, h]⟩
termination_by d ds => d.size + ds.size + 1
decreasing_by all_goals simp only [Derivation.size]; omega

end

theorem exists_stmts : (d : Derivation (.many (.rule .stmt))) →
    ∃ stmts, stmtsDerivation stmts = d
  | .done => ⟨[], rfl⟩
  | .more (.rule _ (.both d (.fixed _ m))) ds => by
    obtain ⟨e, rfl⟩ := exists_expr d
    obtain ⟨stmts, rfl⟩ := exists_stmts ds
    exact ⟨⟨e, m⟩ :: stmts, by rw [stmtsDerivation]; rfl⟩
termination_by d => d.size
decreasing_by all_goals simp only [Derivation.size]; omega

theorem exists_program : (d : Derivation (.rule .main)) → ∃ stmts, programDerivation stmts = d
  | .rule _ d => by
    obtain ⟨stmts, rfl⟩ := exists_stmts d
    exact ⟨stmts, rfl⟩

end Phrase

end RuleTree
