import RuleTree.Proofs.Builder.Meaning

/-!
# What can go wrong on a tree

On its way through a tree a conversion can only fail at certain places, which it meets from left to
right: the literals, and the brackets that the nesting allowance does not suffice for. The first
that fails is what is reported.

* `Tree.trials`: those places, under an allowance.
* `Tree.nesting`: the allowance that suffices for all brackets of a tree.
* `Phrase.Expr.errorOf?_build`: the failure of a phrase is that of the first trial that fails.
-/

namespace RuleTree

/-- A place where a conversion can fail. -/
inductive Trial
  | literal (leaf : Leaf)
  /-- A bracket that the allowance does not suffice for. -/
  | tooDeep

namespace LiteralKind

def all : List LiteralKind := [float, hexInt, binInt, octInt, decInt, char, string]

/-- The kind of a given name. -/
def ofName? (name : String) : Option LiteralKind := all.find? (·.name == name)

theorem ofName?_name (k : LiteralKind) : ofName? k.name = some k := by cases k <;> decide

end LiteralKind

/-- How a literal fails, if it does. -/
def Leaf.failure? (radixFloats : Bool) (leaf : Leaf) : Option Failure :=
  (LiteralKind.ofName? leaf.kind).bind fun k =>
    (k.fault? radixFloats leaf.text).map (Fault.at ⟨k.kind.rule, leaf.text, leaf.place⟩)

/-- How a trial fails, if it does. -/
def Trial.failure? (radixFloats : Bool) : Trial → Option Failure
  | literal leaf => leaf.failure? radixFloats
  | tooDeep => some .tooDeep

namespace Tree

/-- What a node takes of the nesting allowance: an array and a tuple do, and a term that is a
group. -/
def cost (rule : String) (children : List Tree) : Nat :=
  if rule = Kind.array.rule ∨ rule = Kind.tuple.rule then sequenceCost
  else if rule = Kind.term.rule ∧ children.any (·.rule? = some Kind.expression.rule) then groupCost
  else 0

mutual

/-- The trials of a tree from left to right, under an allowance. -/
def trials (allowance : Nat) : Tree → List Trial
  | token leaf => [.literal leaf]
  | node rule _ children =>
    if cost rule children ≤ allowance then trialsOf (allowance - cost rule children) children
    else [.tooDeep]

def trialsOf (allowance : Nat) : List Tree → List Trial
  | [] => []
  | t :: ts => t.trials allowance ++ trialsOf allowance ts

end

mutual

/-- The allowance that suffices for the brackets of a tree. -/
def nesting : Tree → Nat
  | token _ => 0
  | node rule _ children => cost rule children + nestingOf children

def nestingOf : List Tree → Nat
  | [] => 0
  | t :: ts => max t.nesting (nestingOf ts)

end

mutual

theorem trials_of_nesting_le {allowance : Nat} (t : Tree) (h : t.nesting ≤ allowance) :
    t.trials allowance = t.leaves.map .literal := by
  match t with
  | token leaf => rfl
  | node rule region? children =>
    rw [nesting] at h
    rw [trials, if_pos (by omega), leaves,
      trialsOf_of_nesting_le children (by omega)]

theorem trialsOf_of_nesting_le {allowance : Nat} (ts : List Tree) (h : nestingOf ts ≤ allowance) :
    trialsOf allowance ts = (leavesOf ts).map .literal := by
  match ts with
  | [] => rfl
  | t :: ts =>
    rw [nestingOf] at h
    rw [trialsOf, leavesOf, List.map_append, trials_of_nesting_le t (by omega),
      trialsOf_of_nesting_le ts (by omega)]

end

/-! ### Nodes that are no brackets -/

theorem trials_of_cost {rule : String} {children : List Tree} (h : cost rule children = 0)
    (region? : Option Region) (allowance : Nat) :
    (node rule region? children).trials allowance = trialsOf allowance children := by
  rw [trials, if_pos (by omega), h]
  rfl

theorem rule?_chain {span : Span} {rules : List String} {child : Tree} :
    (chain span rules child).rule? = (rules.head?).or child.rule? := by
  cases rules with
  | nil => rfl
  | cons rule rules => rfl

theorem trials_chain {rules : List String} {child : Tree}
    (hrules : ∀ rule ∈ rules, rule ∉ [Kind.array.rule, Kind.tuple.rule, Kind.expression.rule])
    (hchild : child.rule? ≠ some Kind.expression.rule) (span : Span) (allowance : Nat) :
    (chain span rules child).trials allowance = child.trials allowance := by
  induction rules with
  | nil => rfl
  | cons rule rules ih =>
    obtain ⟨hrule, hrest⟩ := List.forall_mem_cons.mp hrules
    have hnext : (chain span rules child).rule? ≠ some Kind.expression.rule := by
      rw [rule?_chain]
      cases rules with
      | nil => exact hchild
      | cons next rules =>
        have := hrest next List.mem_cons_self
        simp at this
        simp [this]
    have hcost : cost rule [chain span rules child] = 0 := by
      simp only [List.mem_cons, List.not_mem_nil, or_false, not_or] at hrule
      simp [cost, hrule, hnext]
    refine (trials_of_cost hcost _ _).trans ?_
    rw [trialsOf, trialsOf, List.append_nil, ih hrest]

theorem trials_literal (k : LiteralKind) (text : String) (p : Span) (allowance : Nat) :
    (Phrase.Term.literal k text p).tree.trials allowance =
      [.literal ⟨k.name, text, .ofSpan p⟩] := by
  refine (trials_chain (fun rule hrule => ?_) (by simp [rule?]) p allowance).trans ?_
  · revert rule hrule
    cases k <;> decide
  · rw [trials]

end Tree

/-! ### Failures of results -/

theorem errorOf?_both {ε α β γ : Type} (x : Except ε α) (y : Except ε β) (f : α → β → γ) :
    errorOf? (do
      let a ← x
      let b ← y
      return f a b) = (errorOf? x).or (errorOf? y) := by
  cases x with
  | error e => rfl
  | ok a => cases y <;> rfl

theorem errorOf?_mapM {ε α β : Type} (f : α → Except ε β) (xs : List α) :
    errorOf? (xs.mapM f) = xs.findSome? fun x => errorOf? (f x) := by
  induction xs with
  | nil => rfl
  | cons x xs ih =>
    rw [List.mapM_cons, List.findSome?_cons, ← ih]
    cases f x with
    | error e => rfl
    | ok y => cases xs.mapM f <;> rfl

/-- The text of a literal token is one of its kind. -/
def Token.Spelled (tok : Token) : Prop :=
  ∀ k text, tok.lexeme = .literal k text → k.Spells text.toList

namespace Tree

/-- The failure of the first trial that fails. -/
def failure? (radixFloats : Bool) (allowance : Nat) (t : Tree) : Option Failure :=
  (t.trials allowance).findSome? (Trial.failure? radixFloats)

/-- The failure of the first trial of some trees that fails. -/
def failureOf? (radixFloats : Bool) (allowance : Nat) (ts : List Tree) : Option Failure :=
  (trialsOf allowance ts).findSome? (Trial.failure? radixFloats)

variable {radixFloats : Bool} {a : Nat} {span : Span} {rule : String} {children : List Tree}

theorem failureOf?_nil : failureOf? radixFloats a [] = none := rfl

theorem failureOf?_cons (t : Tree) (ts : List Tree) :
    failureOf? radixFloats a (t :: ts) =
      (t.failure? radixFloats a).or (failureOf? radixFloats a ts) := by
  rw [failureOf?, trialsOf, List.findSome?_append]
  rfl

theorem failureOf?_singleton (t : Tree) :
    failureOf? radixFloats a [t] = t.failure? radixFloats a := by
  rw [failureOf?_cons, failureOf?_nil, Option.or_none]

theorem failure?_over (h : cost rule children ≤ a) :
    (Tree.over span rule children).failure? radixFloats a =
      failureOf? radixFloats (a - cost rule children) children := by
  rw [failure?, Tree.over, trials, if_pos h]
  rfl

theorem failure?_over_of_lt (h : ¬cost rule children ≤ a) :
    (Tree.over span rule children).failure? radixFloats a = some .tooDeep := by
  rw [failure?, Tree.over, trials, if_neg h]
  rfl

theorem failure?_node_of_cost (h : cost rule children = 0) (region? : Option Region) :
    (node rule region? children).failure? radixFloats a = failureOf? radixFloats a children := by
  rw [failure?, trials_of_cost h]
  rfl

theorem failure?_over_of_cost (h : cost rule children = 0) :
    (Tree.over span rule children).failure? radixFloats a = failureOf? radixFloats a children :=
  failure?_node_of_cost h _

end Tree

namespace Phrase

open RuleTree.Tree

variable {radixFloats : Bool} {a : Nat}

theorem failure?_literal (k : LiteralKind) (text : String) (p : Span) :
    (Term.literal k text p).tree.failure? radixFloats a =
      (k.fault? radixFloats text).map (Fault.at (k.site text p)) := by
  rw [failure?, trials_literal, List.findSome?_singleton, Trial.failure?, Leaf.failure?,
    LiteralKind.ofName?_name]
  rfl

theorem rule?_expr (e : Expr) : e.tree.rule? = some Kind.expression.rule := by
  cases e with
  | single t => rfl
  | binary l o m r => rfl

theorem failure?_group (e : Expr) (p q : Span) :
    (Term.enclosed .round p (.last e) q).tree.failure? radixFloats a =
      if groupCost ≤ a then e.tree.failure? radixFloats (a - groupCost) else some .tooDeep := by
  have hcost : cost Kind.term.rule [e.tree] = groupCost := by
    simp [cost, Kind.rule, rule?_expr]
  show (Tree.over (p.through q) Kind.term.rule [e.tree]).failure? radixFloats a = _
  by_cases ha : groupCost ≤ a
  · rw [if_pos ha]
    rw [failure?_over (by rwa [hcost]), hcost, failureOf?_singleton]
  · rw [if_neg ha, failure?_over_of_lt (by rwa [hcost])]

theorem failure?_sequence {k : Kind} (hk : k = .array ∨ k = .tuple) (span : Span)
    (ts : List Tree) :
    (chain span ["term", "value"] (Tree.over span k.rule ts)).failure? radixFloats a =
      if sequenceCost ≤ a then failureOf? radixFloats (a - sequenceCost) ts
      else some .tooDeep := by
  have hcost : cost k.rule ts = sequenceCost := by
    rcases hk with rfl | rfl <;> simp [cost]
  have hbelow : (Tree.over span k.rule ts).rule? ≠ some Kind.expression.rule := by
    rcases hk with rfl | rfl <;> simp [Tree.over, rule?, Kind.rule]
  rw [failure?, trials_chain (by decide) hbelow, ← failure?]
  by_cases ha : sequenceCost ≤ a
  · rw [if_pos ha, failure?_over (by rwa [hcost]), hcost]
  · rw [if_neg ha, failure?_over_of_lt (by rwa [hcost])]

theorem errorOf?_build_enclosed {is : Items}
    (his : ∀ a, errorOf? (is.build radixFloats a) = failureOf? radixFloats a is.trees)
    (b : Bracket) (p q : Span) :
    errorOf? ((Term.enclosed b p is q).build radixFloats a) =
      (Term.enclosed b p is q).tree.failure? radixFloats a := by
  have hsequence (f : List Expression → RuleTree.Term) :
      errorOf? (if sequenceCost ≤ a then (is.build radixFloats (a - sequenceCost)).map f
        else .error .tooDeep) =
      if sequenceCost ≤ a then failureOf? radixFloats (a - sequenceCost) is.trees
        else some .tooDeep := by
    split
    · rw [errorOf?_map, his]
    · rfl
  cases b with
  | square => exact (hsequence _).trans (failure?_sequence (.inl rfl) _ _).symm
  | round =>
    cases is with
    | nil => exact (hsequence _).trans (failure?_sequence (.inr rfl) _ _).symm
    | cons e m is => exact (hsequence _).trans (failure?_sequence (.inr rfl) _ _).symm
    | last e =>
      rw [Term.build, failure?_group]
      by_cases ha : groupCost ≤ a
      · have h := his (a - groupCost)
        rw [Items.build, errorOf?_map, Items.trees, failureOf?_singleton] at h
        rw [if_pos ha, if_pos ha, errorOf?_map, h]
      · rw [if_neg ha, if_neg ha]
        rfl

theorem failure?_operator (m : Span) (o : Operator) :
    (Tree.over m "operator" [.over m o.rule []]).failure? radixFloats a = none := by
  rw [failure?_over_of_cost rfl, failureOf?_singleton, failure?_over_of_cost (by cases o <;> rfl),
    failureOf?_nil]

mutual

/-- An expression fails like the first trial of its tree that fails. -/
theorem Expr.errorOf?_build (e : Expr) (h : ∀ tok ∈ e.tokens, tok.Spelled) (a : Nat) :
    errorOf? (e.build radixFloats a) = e.tree.failure? radixFloats a := by
  match e with
  | .single t =>
    rw [Expr.build, errorOf?_map, t.errorOf?_build h a]
    exact ((failure?_over_of_cost rfl).trans (failureOf?_singleton _)).symm
  | .binary l o m r =>
    have hl : ∀ tok ∈ l.tokens, tok.Spelled := fun tok htok => h tok (List.mem_append_left _ htok)
    have hr : ∀ tok ∈ r.tokens, tok.Spelled := fun tok htok =>
      h tok (List.mem_append_right _ (List.mem_cons_of_mem _ htok))
    rw [Expr.build, errorOf?_both, l.errorOf?_build hl a, r.errorOf?_build hr a, Expr.tree,
      failure?_over_of_cost rfl, failureOf?_cons, failureOf?_cons, failureOf?_singleton,
      failure?_operator, Option.none_or]

theorem Term.errorOf?_build (t : Term) (h : ∀ tok ∈ t.tokens, tok.Spelled) (a : Nat) :
    errorOf? (t.build radixFloats a) = t.tree.failure? radixFloats a := by
  match t with
  | .literal k text p =>
    rw [Term.build, errorOf?_map, errorOf?_mapError,
      errorOf?_value (h _ List.mem_cons_self k text rfl), failure?_literal]
  | .enclosed b p is q =>
    have his : ∀ a, errorOf? (is.build radixFloats a) = failureOf? radixFloats a is.trees :=
      is.errorOf?_build fun tok htok =>
        h tok (List.mem_cons_of_mem _ (List.mem_append_left _ htok))
    exact errorOf?_build_enclosed his b p q

theorem Items.errorOf?_build (is : Items) (h : ∀ tok ∈ is.tokens, tok.Spelled) (a : Nat) :
    errorOf? (is.build radixFloats a) = failureOf? radixFloats a is.trees := by
  match is with
  | .nil => rfl
  | .last e =>
    rw [Items.build, errorOf?_map, e.errorOf?_build h a, Items.trees, failureOf?_singleton]
  | .cons e m is =>
    have he : ∀ tok ∈ e.tokens, tok.Spelled := fun tok htok => h tok (List.mem_append_left _ htok)
    have his : ∀ tok ∈ is.tokens, tok.Spelled := fun tok htok =>
      h tok (List.mem_append_right _ (List.mem_cons_of_mem _ htok))
    rw [Items.trees, failureOf?_cons, ← e.errorOf?_build he a, ← is.errorOf?_build his a,
      Items.build, errorOf?_both]

end

theorem Stmt.errorOf?_build (stmt : Stmt) (h : ∀ tok ∈ stmt.tokens, tok.Spelled) (a : Nat) :
    errorOf? (stmt.build radixFloats a) = stmt.tree.failure? radixFloats a := by
  have hexpr : ∀ tok ∈ stmt.expr.tokens, tok.Spelled := fun tok htok =>
    h tok (List.mem_append_left _ htok)
  rw [Stmt.build, errorOf?_map, stmt.expr.errorOf?_build hexpr a, Stmt.tree,
    failure?_over_of_cost rfl, failureOf?_singleton]

theorem errorOf?_buildProgram (stmts : List Stmt)
    (h : ∀ tok ∈ stmts.flatMap Stmt.tokens, tok.Spelled) (a : Nat) :
    errorOf? (buildProgram radixFloats a stmts) =
      (Sentence.program stmts).tree.failure? radixFloats a := by
  rw [buildProgram, errorOf?_map, errorOf?_mapM, Sentence.tree, failure?_node_of_cost rfl]
  induction stmts with
  | nil => rfl
  | cons stmt stmts ih =>
    rw [List.flatMap_cons] at h
    have hstmt : errorOf? (stmt.build radixFloats a) = stmt.tree.failure? radixFloats a :=
      stmt.errorOf?_build (fun tok htok => h tok (List.mem_append_left _ htok)) a
    rw [List.findSome?_cons, List.map_cons, failureOf?_cons, hstmt,
      ih fun tok htok => h tok (List.mem_append_right _ htok)]
    cases stmt.tree.failure? radixFloats a <;> rfl

end Phrase

/-! ### Literals of a sentence -/

/-- The token of a literal in a tree. -/
def Token.leaf? (tok : Token) : Option Leaf :=
  match tok.lexeme with
  | .literal k text => some ⟨k.name, text, .ofSpan tok.span⟩
  | _ => none

/-- How a token fails, if it does. -/
def Token.failure? (radixFloats : Bool) (tok : Token) : Option Failure :=
  match tok.lexeme with
  | .literal k text => (k.fault? radixFloats text).map (Fault.at (k.site text tok.span))
  | _ => none

theorem Token.failure?_eq (radixFloats : Bool) (tok : Token) :
    tok.failure? radixFloats = tok.leaf?.bind (Leaf.failure? radixFloats) := by
  unfold Token.failure? Token.leaf?
  split
  · rw [Option.bind_some, Leaf.failure?, LiteralKind.ofName?_name]
    rfl
  · rfl

namespace Tree

theorem leaves_chain (span : Span) (rules : List String) (child : Tree) :
    (chain span rules child).leaves = child.leaves := by
  induction rules with
  | nil => rfl
  | cons rule rules ih =>
    show leavesOf [chain span rules child] = _
    rw [leavesOf, leavesOf, List.append_nil, ih]

end Tree

namespace Phrase

theorem leaves_enclosed (b : Bracket) (p : Span) (is : Items) (q : Span) :
    (Term.enclosed b p is q).tree.leaves = Tree.leavesOf is.trees := by
  cases b with
  | square => exact Tree.leaves_chain _ _ _
  | round => cases is <;> first | rfl | exact Tree.leaves_chain _ _ _

mutual

theorem Expr.leaves_tree (e : Expr) : e.tree.leaves = e.tokens.filterMap Token.leaf? := by
  match e with
  | .single t =>
    show Tree.leavesOf [t.tree] = _
    rw [Tree.leavesOf, Tree.leavesOf, List.append_nil, t.leaves_tree, Expr.tokens]
  | .binary l o m r =>
    show l.tree.leaves ++ ([] ++ (r.tree.leaves ++ [])) = _
    rw [Expr.tokens, List.filterMap_append, List.filterMap_cons_none rfl, l.leaves_tree,
      r.leaves_tree, List.nil_append, List.append_nil]

theorem Term.leaves_tree (t : Term) : t.tree.leaves = t.tokens.filterMap Token.leaf? := by
  match t with
  | .literal k text p => exact Tree.leaves_chain _ _ _
  | .enclosed b p is q =>
    rw [leaves_enclosed, is.leaves_trees, Term.tokens, List.filterMap_cons_none rfl,
      List.filterMap_append, List.filterMap_cons_none rfl, List.filterMap_nil, List.append_nil]

theorem Items.leaves_trees (is : Items) :
    Tree.leavesOf is.trees = is.tokens.filterMap Token.leaf? := by
  match is with
  | .nil => rfl
  | .last e => rw [Items.trees, Tree.leavesOf, Tree.leavesOf, List.append_nil, e.leaves_tree]; rfl
  | .cons e m is =>
    rw [Items.trees, Tree.leavesOf, e.leaves_tree, is.leaves_trees, Items.tokens,
      List.filterMap_append, List.filterMap_cons_none rfl]

end

theorem Sentence.leaves_tree (s : Sentence) : s.tree.leaves = s.tokens.filterMap Token.leaf? := by
  cases s with
  | expr e => exact e.leaves_tree
  | program stmts =>
    show Tree.leavesOf (stmts.map Stmt.tree) = (stmts.flatMap Stmt.tokens).filterMap Token.leaf?
    induction stmts with
    | nil => rfl
    | cons stmt stmts ih =>
      rw [List.map_cons, Tree.leavesOf, ih, List.flatMap_cons, List.filterMap_append]
      show (stmt.expr.tree.leaves ++ []) ++ _ = _
      rw [List.append_nil, stmt.expr.leaves_tree, Stmt.tokens, List.filterMap_append,
        List.filterMap_cons_none rfl, List.filterMap_nil, List.append_nil]

theorem Sentence.failure?_tree {radixFloats : Bool} {a : Nat} (s : Sentence)
    (h : s.tree.nesting ≤ a) :
    s.tree.failure? radixFloats a = s.tokens.findSome? (Token.failure? radixFloats) := by
  rw [Tree.failure?, Tree.trials_of_nesting_le _ h, s.leaves_tree, List.findSome?_map]
  induction s.tokens with
  | nil => rfl
  | cons tok ts ih =>
    rw [List.findSome?_cons, tok.failure?_eq]
    cases hleaf : tok.leaf? with
    | none => rw [List.filterMap_cons_none hleaf, ih]; rfl
    | some leaf => rw [List.filterMap_cons_some hleaf, List.findSome?_cons, ih]; rfl

/-! ### Statements -/

mutual

theorem Expr.ne_semicolon (e : Expr) : ∀ tok ∈ e.tokens, tok.lexeme ≠ .semicolon := by
  match e with
  | .single t => exact t.ne_semicolon
  | .binary l o m r =>
    rw [Expr.tokens]
    simp only [List.forall_mem_append, List.forall_mem_cons]
    exact ⟨l.ne_semicolon, nofun, r.ne_semicolon⟩

theorem Term.ne_semicolon (t : Term) : ∀ tok ∈ t.tokens, tok.lexeme ≠ .semicolon := by
  match t with
  | .literal k text p =>
    rw [Term.tokens]
    exact List.forall_mem_cons.mpr ⟨nofun, nofun⟩
  | .enclosed b p is q =>
    rw [Term.tokens]
    simp only [List.forall_mem_append, List.forall_mem_cons]
    exact ⟨nofun, is.ne_semicolon, nofun, nofun⟩

theorem Items.ne_semicolon (is : Items) : ∀ tok ∈ is.tokens, tok.lexeme ≠ .semicolon := by
  match is with
  | .nil => nofun
  | .last e => exact e.ne_semicolon
  | .cons e m is =>
    rw [Items.tokens]
    simp only [List.forall_mem_append, List.forall_mem_cons]
    exact ⟨e.ne_semicolon, nofun, is.ne_semicolon⟩

end

theorem countP_semicolon (stmts : List Stmt) :
    (stmts.flatMap Stmt.tokens).countP (·.lexeme = .semicolon) = stmts.length := by
  induction stmts with
  | nil => rfl
  | cons stmt stmts ih =>
    have hexpr : stmt.expr.tokens.countP (·.lexeme = .semicolon) = 0 :=
      List.countP_eq_zero.mpr fun tok htok => by simpa using stmt.expr.ne_semicolon tok htok
    rw [List.flatMap_cons, List.countP_append, ih, Stmt.tokens, List.countP_append, hexpr]
    simp
    omega

end Phrase

end RuleTree
