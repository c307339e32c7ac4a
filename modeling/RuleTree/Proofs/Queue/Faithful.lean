import RuleTree.Proofs.Conversion.Outcome
import RuleTree.Proofs.Source.Layout

/-!
# Flattening gives the queue of a tree, or nothing

What a queue tells of its tree, and when there is one. The walk over the tree has no limit, but the
scans for the texts of its nodes have.

* `Tree.flatten_faithful`: the whole of it.
* `grouped`: a number in groups, and `parse_groups`: the tree of its text.
* `flattenUnder_groups`: where that tree has a queue, with and without its source.
-/

namespace RuleTree

open Grammar Phrase Reading Item

/-- **A queue is its tree in pre-order, and only a scan can keep it away.** There is no queue if a
node without a region, or any node where there is no source, is deeper than the scans for its tokens
may go. Otherwise the walk with a stack and the pass back over the visited nodes give the queue that
the recursion over the tree defines. It has the nodes of the tree, each before those below it and
none of them twice. At the index `i` it has the rule, the text and the place of the node, and the
index behind its last descendant is `i` with the number of nodes of its subtree. The segments are
within the queue and nested, and the rules of the tree are built again from the rules in the queue
and the ends of the segments. -/
theorem Tree.flatten_faithful (allowance : Nat) (source : Option (Array Char)) (t : Tree) :
    (t.flattenUnder allowance source = none ↔
      ∃ u ∈ t.nodes, (source = none ∨ u.region? = none) ∧ allowance < u.depth) ∧
    ∀ queue, t.flattenUnder allowance source = some queue →
      queue = t.preorder source ∧
      (ofQueue queue).map (fun i => (i.slot, some i.rule, i.entry.site.text, i.entry.site.place,
          i.stop)) =
        t.nodes.zipIdx.map (fun (u, i) => (i, u.rule?, u.text source, u.place,
          i + u.nodes.length)) ∧
      (∀ i ∈ ofQueue queue, i.slot < i.stop ∧ i.stop ≤ t.nodes.length) ∧
      (ofQueue queue).Pairwise Item.Nested ∧
      regrow 0 ((ofQueue queue).map row) = t.skeletons := by
  rw [flattenUnder_eq, flatten_eq_preorder]
  refine ⟨?_, fun queue hqueue => ?_⟩
  · rw [← not_scannable_iff, ite_eq_right_iff]
    simp only [reduceCtorEq, imp_false]
  · obtain ⟨-, hqueue⟩ := Option.ite_none_right_eq_some.mp hqueue
    obtain rfl := Option.some.inj hqueue
    exact ⟨rfl, rows_preorder source t, bounds_preorder source t, nested_preorder source t 0,
      regrow_queue source t⟩

/-- Two nodes below a root, the first of them with a node of its own, and a token between. Scans that
may be inside of three nodes suffice for it. -/
theorem Tree.flatten_faithful_semicolon :
    let t := node "a" none [node "b" none [node "d" none []], token ⟨"SEP", ";", {}⟩,
      node "c" none []]
    t.flattenUnder 2 none = none ∧ ∃ queue, t.flattenUnder 3 none = some queue ∧
      queue = t.preorder none ∧ (ofQueue queue).map row = [("a", 4), ("b", 3), ("d", 3), ("c", 4)] ∧
      regrow 0 [("a", 4), ("b", 3), ("d", 3), ("c", 4)] = t.skeletons := by
  intro t
  have hdeep := (flatten_faithful 2 none t).1.mpr ⟨t, by simp [t], .inl rfl, by decide⟩
  cases hqueue : t.flattenUnder 3 none with
  | none => exact absurd hqueue (by decide +kernel)
  | some queue =>
    obtain ⟨hpreorder, -, -, -, hregrow⟩ := (flatten_faithful 3 none t).2 queue hqueue
    have hrows : (ofQueue queue).map row = [("a", 4), ("b", 3), ("d", 3), ("c", 4)] := by
      rw [hpreorder]
      decide +kernel
    rw [hrows] at hregrow
    exact ⟨hdeep, queue, rfl, hpreorder, hrows, hregrow⟩

/-! ### Groups inside of groups -/

/-- The text of a number in `n` groups. -/
def groupText (n : Nat) : List Char :=
  List.replicate n '(' ++ '1' :: List.replicate n ')'

theorem groupText_succ (n : Nat) : groupText (n + 1) = '(' :: (groupText n ++ [')']) := by
  have hbehind : List.replicate (n + 1) ')' = List.replicate n ')' ++ [')'] := List.replicate_succ'
  rw [groupText, hbehind, List.replicate_succ, groupText, List.cons_append, List.append_assoc,
    List.cons_append]

/-- The expression that the text of a number in `n` groups is at the place `m`. -/
def grouped : Nat → Mark → Expr
  | 0, m => .single (.literal .decInt "1" ⟨m, m.next '1'⟩)
  | n + 1, m =>
    let inner := m.next '('
    let closing := inner.after (groupText n)
    .single (.enclosed .round ⟨m, inner⟩ (.last (grouped n inner)) ⟨closing, closing.next ')'⟩)

theorem depth_grouped (n : Nat) (m : Mark) : (grouped n m).tree.depth = 2 * n + 6 := by
  induction n generalizing m with
  | zero => rfl
  | succ n ih =>
    have hdepth : (grouped (n + 1) m).tree.depth = (grouped n (m.next '(')).tree.depth + 2 := by
      simp [grouped, Expr.tree, Term.tree, Items.trees, enclosedTree, Tree.over, Tree.depth,
        Tree.depthOf]
    rw [hdepth, ih]
    omega

theorem lexes_grouped (n : Nat) {m : Mark} {rest : List Char} {ts : List Token}
    (hends : (Lexeme.literal .decInt "1").Ends rest)
    (h : Lexes .standard (m.after (groupText n)) rest ts) :
    Lexes .standard m (groupText n ++ rest) ((grouped n m).tokens ++ ts) := by
  induction n generalizing m rest ts with
  | zero =>
    have hspelled : (Lexeme.literal .decInt "1").Spelled := by
      rintro _ _ ⟨⟩
      exact ⟨['1'], rfl, List.cons_ne_nil _ _, List.forall_mem_singleton.mpr rfl⟩
    exact h.cons_lexeme hspelled hends
  | succ n ih =>
    have hopening : (Lexeme.opening .round).Spelled := Lexeme.spelled_of_isLiteral rfl
    have hclosing : (Lexeme.closing .round).Spelled := Lexeme.spelled_of_isLiteral rfl
    have hinner : (Lexeme.literal .decInt "1").Ends (')' :: rest) :=
      Vocabulary.ends_of_apart (l := .closing .round) ⟨nofun, nofun⟩ hclosing rest
    have hafter : m.after (groupText (n + 1)) =
        (((m.next '(').after (groupText n)).next ')') := by
      rw [groupText_succ, ← List.singleton_append, Mark.after_append, Mark.after_append]
      rfl
    rw [hafter] at h
    have hbehind := Lexes.cons_lexeme hclosing (m := (m.next '(').after (groupText n))
      ⟨nofun, nofun⟩ h
    have hbelow := Lexes.cons_lexeme hopening (m := m) ⟨nofun, nofun⟩ (ih hinner hbehind)
    have htext : groupText (n + 1) ++ rest = '(' :: (groupText n ++ ')' :: rest) := by
      rw [groupText_succ, List.cons_append, List.append_assoc]
      rfl
    have htokens : (grouped (n + 1) m).tokens ++ ts = ⟨.opening .round, m, m.next '('⟩ ::
        ((grouped n (m.next '(')).tokens ++ ⟨.closing .round, (m.next '(').after (groupText n),
          ((m.next '(').after (groupText n)).next ')'⟩ :: ts) := by
      simp [grouped, Expr.tokens, Term.tokens, Items.tokens]
    rw [htext, htokens]
    exact hbelow

theorem parse_groups {settings : Settings} (hsettings : settings.Packaged)
    (files : String → Option Vocabulary) (n : Nat) :
    parse settings files Start.expr.name (String.ofList (groupText n)) =
      .ok (grouped n .origin).tree := by
  have hlexes : Lexes .standard .origin (groupText n ++ []) ((grouped n .origin).tokens ++ []) :=
    lexes_grouped n (Vocabulary.ends_of_layout nofun) (.ending _)
  rw [List.append_nil, List.append_nil] at hlexes
  refine (parse_eq_ok_iff_sentence hsettings).mpr ⟨.expr (grouped n .origin), rfl, rfl, ?_⟩
  rwa [String.toList_ofList]

/-- With its source the tree of a number in groups has a queue, however deep it is. Without the source
it has one only if scans may be inside of all of its nodes. -/
theorem flattenUnder_groups (allowance n : Nat) :
    let source := charsOf (String.ofList (groupText n))
    let t := (grouped n .origin).tree
    t.flattenUnder allowance (some source) = some (t.preorder (some source)) ∧
      (t.flattenUnder allowance none = none ↔ allowance < 2 * n + 6) := by
  intro source t
  refine ⟨?_, ?_⟩
  · rw [Tree.flattenUnder_eq, if_pos ((grouped n .origin).scannable_tree allowance source),
      Tree.flatten_eq_preorder]
  · rw [Tree.flattenUnder_eq, ite_eq_right_iff, Tree.scannable_none_iff, depth_grouped]
    simp only [reduceCtorEq, imp_false, Nat.not_le]

/-- Not every tree has a queue. A number in six hundred groups is accepted, and without the source its
tree has none. A conversion of it fails before there is a node to report. -/
theorem flatten_breaks_off :
    ∃ t, parse {} (fun _ => none) Start.expr.name
          (String.ofList (List.replicate 600 '(' ++ '1' :: List.replicate 600 ')')) = .ok t ∧
        t.flattenUnder scanAllowance none = none ∧
        t.flattenUnder scanAllowance none ≠ some (t.preorder none) ∧
        (convert {} none .expression t).result = .error (.build .tooDeep) := by
  have hsettings : ({} : Settings).Packaged := .inl rfl
  have hparse := parse_groups hsettings (fun _ => none) 600
  have hnone := (flattenUnder_groups scanAllowance 600).2.mpr (by decide)
  have hdeep : ¬(grouped 600 .origin).tree.Scannable scanAllowance none := by
    rw [Tree.scannable_none_iff, depth_grouped]
    decide
  refine ⟨_, hparse, hnone, ?_, ?_⟩
  · intro h
    cases hnone.symm.trans h
  · rw [convert_eq, Option.map_none, if_neg hdeep]

end RuleTree
