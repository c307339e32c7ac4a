import RuleTree.Proofs.Queue.Preorder
import RuleTree.Proofs.Tree.Sweep

/-!
# Trees with a queue

Flattening walks over a tree without limit, but scans for the texts of its nodes. A tree has a queue
if none of these scans breaks off.

* `Tree.Scannable`: the texts of all nodes are in reach.
* `Tree.flattenUnder_eq`: such trees have a queue, and no others.
* `Tree.scannable_none_iff`: without a source the depth of the tree must not exceed the allowance.
* `Phrase.Sentence.scannable_tree`: with its source the tree of a sentence always has a queue.
-/

namespace RuleTree

namespace Tree

/-- No scan for the text of a node of the tree breaks off. -/
def Scannable (allowance : Nat) (source : Option (Array Char)) (t : Tree) : Prop :=
  ∀ u ∈ t.nodes, u.InReach allowance source

instance (allowance : Nat) (source : Option (Array Char)) (t : Tree) :
    Decidable (t.Scannable allowance source) :=
  inferInstanceAs (Decidable (∀ u ∈ t.nodes, u.InReach allowance source))

theorem not_scannable_iff {allowance : Nat} {source : Option (Array Char)} {t : Tree} :
    ¬t.Scannable allowance source ↔
      ∃ u ∈ t.nodes, (source = none ∨ u.region? = none) ∧ allowance < u.depth := by
  simp only [Scannable, Classical.not_forall, not_inReach_iff, exists_prop]

mutual

theorem depth_le_of_mem_nodes {t u : Tree} (hu : u ∈ t.nodes) : u.depth ≤ t.depth := by
  match t with
  | token leaf => cases hu
  | node rule region? children =>
    rw [nodes_node, List.mem_cons] at hu
    rcases hu with rfl | hu
    · exact Nat.le_refl _
    · exact Nat.le_succ_of_le (depth_le_of_mem_nodesOf hu)

theorem depth_le_of_mem_nodesOf {ts : List Tree} {u : Tree} (hu : u ∈ nodesOf ts) :
    u.depth ≤ depthOf ts := by
  match ts with
  | [] => cases hu
  | t :: ts =>
    rw [nodesOf_cons, List.mem_append] at hu
    rw [depthOf]
    rcases hu with hu | hu
    · exact Nat.le_trans (depth_le_of_mem_nodes hu) (Nat.le_max_left _ _)
    · exact Nat.le_trans (depth_le_of_mem_nodesOf hu) (Nat.le_max_right _ _)

end

theorem scannable_none_iff {allowance : Nat} {t : Tree} :
    t.Scannable allowance none ↔ t.depth ≤ allowance := by
  constructor
  · intro h
    cases t with
    | token leaf => exact Nat.zero_le _
    | node rule region? children =>
      exact (h _ (self_mem_nodes rfl)).resolve_left fun hcut => Bool.false_ne_true hcut.1
  · exact fun h u hu => .inr (Nat.le_trans (depth_le_of_mem_nodes hu) h)

mutual

theorem map_node_visits (n p : Nat) (t : Tree) : (t.visits n p).map (·.node) = t.nodes := by
  cases t with
  | token leaf => rfl
  | node rule region? children =>
    rw [visits, List.map_cons, map_node_visitsOf (n + 1) n children, nodes_node]

theorem map_node_visitsOf (n p : Nat) (ts : List Tree) :
    (visitsOf n p ts).map (·.node) = nodesOf ts := by
  cases ts with
  | nil => rfl
  | cons t ts =>
    rw [visitsOf, List.map_append, map_node_visits n p t, map_node_visitsOf _ p ts, nodesOf_cons]

end

theorem mapM_ite {α β : Type} (p : α → Prop) [DecidablePred p] (f : α → β) (as : List α) :
    (as.mapM fun a => if p a then some (f a) else none) =
      if ∀ a ∈ as, p a then some (as.map f) else none := by
  induction as with
  | nil => rfl
  | cons a as ih =>
    simp only [List.mapM_cons, ih, List.forall_mem_cons]
    by_cases ha : p a
    · by_cases has : ∀ a ∈ as, p a
      · rw [if_pos ha, if_pos has, if_pos ⟨ha, has⟩]
        rfl
      · rw [if_pos ha, if_neg has, if_neg (mt And.right has)]
        rfl
    · rw [if_neg ha, if_neg (mt And.left ha)]
      rfl

theorem entryUnder_eq (allowance : Nat) (source : Option (Array Char)) (v : Visit) (size : Nat) :
    v.entryUnder allowance source size =
      if v.node.InReach allowance source then some (v.entry source size) else none := by
  unfold Visit.entryUnder
  rw [textUnder_eq]
  by_cases h : v.node.InReach allowance source
  · rw [if_pos h, if_pos h, placeUnder_of_inReach h]
    rfl
  · rw [if_neg h, if_neg h]
    cases v.node.placeUnder allowance <;> rfl

theorem length_sizes_visits (t : Tree) :
    (Visit.sizes (t.visits 0 0)).toList.length = (t.visits 0 0).length := by
  cases ht : t.isNode with
  | false =>
    cases t with
    | token leaf => rfl
    | node rule region? children => cases ht
  | true => rw [sizes_visits_root none ht, sizesOf, List.length_map, length_visits none]

theorem flattenUnder_eq (allowance : Nat) (source : Option (Array Char)) (t : Tree) :
    t.flattenUnder allowance source =
      if t.Scannable allowance source then some (t.flatten source) else none := by
  have hfst : ((t.visits 0 0).zip (Visit.sizes (t.visits 0 0)).toList).map (·.1) = t.visits 0 0 :=
    List.map_fst_zip (Nat.le_of_eq (length_sizes_visits t).symm)
  have hnodes : t.nodes =
      ((t.visits 0 0).zip (Visit.sizes (t.visits 0 0)).toList).map (·.1.node) := by
    rw [← map_node_visits 0 0 t, ← hfst, List.map_map, hfst]
    rfl
  have hall : (∀ v ∈ (t.visits 0 0).zip (Visit.sizes (t.visits 0 0)).toList,
      v.1.node.InReach allowance source) ↔ t.Scannable allowance source := by
    rw [Scannable, hnodes, List.forall_mem_map]
  simp only [flattenUnder, flatten, visitAll_root, entryUnder_eq, mapM_ite, hall]
  rw [List.zip, List.map_zipWith]

end Tree

/-! ### Trees of sentences -/

namespace Phrase

open RuleTree.Tree

/-- All nodes of the trees have regions. -/
def AllPlaced (ts : List Tree) : Prop := ∀ u ∈ nodesOf ts, u.region?.isSome

theorem allPlaced_nil : AllPlaced [] := nofun

theorem allPlaced_cons {t : Tree} {ts : List Tree} :
    AllPlaced (t :: ts) ↔ AllPlaced [t] ∧ AllPlaced ts := by
  have hnil : nodesOf [] = [] := rfl
  simp only [AllPlaced, nodesOf_cons, hnil, List.append_nil, List.forall_mem_append]

theorem allPlaced_token (leaf : Leaf) : AllPlaced [.token leaf] := nofun

theorem allPlaced_over {span : Span} {rule : String} {children : List Tree}
    (h : AllPlaced children) : AllPlaced [.over span rule children] := by
  have hnil : nodesOf [] = [] := rfl
  rw [AllPlaced, nodesOf_cons, hnil, List.append_nil, Tree.over, nodes_node, List.forall_mem_cons]
  exact ⟨rfl, h⟩

theorem allPlaced_chain (span : Span) (rules : List String) {child : Tree}
    (h : AllPlaced [child]) : AllPlaced [.chain span rules child] := by
  induction rules with
  | nil => exact h
  | cons rule rules ih => exact allPlaced_over ih

theorem allPlaced_enclosedTree (span : Span) {below : List Tree} (h : AllPlaced below)
    (b : Bracket) (is : Items) : AllPlaced [enclosedTree span below b is] := by
  unfold enclosedTree
  split
  · exact allPlaced_over h
  · exact allPlaced_chain _ _ (allPlaced_over h)
  · exact allPlaced_chain _ _ (allPlaced_over h)

mutual

theorem Expr.allPlaced_tree (e : Expr) : AllPlaced [e.tree] := by
  cases e with
  | single t => exact allPlaced_over t.allPlaced_tree
  | binary l o m r =>
    have hmark : AllPlaced [.over m "operator" [.over m o.rule []]] :=
      allPlaced_over (allPlaced_over allPlaced_nil)
    exact allPlaced_over (allPlaced_cons.mpr
      ⟨l.allPlaced_tree, allPlaced_cons.mpr ⟨hmark, r.allPlaced_tree⟩⟩)

theorem Term.allPlaced_tree (t : Term) : AllPlaced [t.tree] := by
  cases t with
  | literal k s p => exact allPlaced_chain _ _ (allPlaced_token _)
  | enclosed b p is q => exact allPlaced_enclosedTree _ is.allPlaced_trees b is

theorem Items.allPlaced_trees (is : Items) : AllPlaced is.trees := by
  cases is with
  | nil => exact allPlaced_nil
  | last e => exact e.allPlaced_tree
  | cons e m is => exact allPlaced_cons.mpr ⟨e.allPlaced_tree, is.allPlaced_trees⟩

end

theorem allPlaced_trees (stmts : List Stmt) : AllPlaced (stmts.map Stmt.tree) := by
  induction stmts with
  | nil => exact allPlaced_nil
  | cons s stmts ih => exact allPlaced_cons.mpr ⟨allPlaced_over s.expr.allPlaced_tree, ih⟩

theorem inReach_of_allPlaced {ts : List Tree} (h : AllPlaced ts) (allowance : Nat)
    (chars : Array Char) : ∀ u ∈ nodesOf ts, u.InReach allowance (some chars) :=
  fun u hu => .inl ⟨rfl, h u hu⟩

theorem Expr.scannable_tree (e : Expr) (allowance : Nat) (chars : Array Char) :
    e.tree.Scannable allowance (some chars) := by
  have h := inReach_of_allPlaced e.allPlaced_tree allowance chars
  rwa [nodesOf_cons, show nodesOf [] = [] from rfl, List.append_nil] at h

/-- Only a program without statements has a node without a region, and there is nothing to scan
below it. -/
theorem Sentence.scannable_tree (s : Sentence) {allowance : Nat} (hallowance : 0 < allowance)
    (chars : Array Char) : s.tree.Scannable allowance (some chars) := by
  cases s with
  | expr e => exact e.scannable_tree allowance chars
  | program stmts =>
    rw [Scannable, Sentence.tree, nodes_node, List.forall_mem_cons]
    refine ⟨?_, inReach_of_allPlaced (allPlaced_trees stmts) allowance chars⟩
    cases stmts with
    | nil => exact .inr hallowance
    | cons s stmts =>
      rw [spanOf?, List.head?_cons, List.getLast?_cons]
      exact .inl ⟨rfl, rfl⟩

end Phrase

end RuleTree
