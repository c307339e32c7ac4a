import RuleTree.Proofs.Grammar.Parts
import RuleTree.Queue.Cursor

/-!
# What a queue tells of its tree

A queue has the nodes of its tree and nothing of the tokens. The rules in it and the indices behind
the last descendants are enough to build the tree again, up to its tokens and regions.

* `Tree.nodes`: the nodes of a tree, and `Tree.preorder_eq_map_nodes`: what the queue has of each.
* `Item.Nested`: how the segments of two nodes of a queue stand to each other.
* `Tree.regrow`: the trees that are built from rules and indices.
-/

namespace RuleTree

namespace Tree

/-- The nodes of a tree, each of them before those below it. -/
def nodes (t : Tree) : List Tree := t.parts.filter isNode

/-- The nodes of some trees, tree after tree. -/
def nodesOf (ts : List Tree) : List Tree := (partsOf ts).filter isNode

@[simp] theorem nodes_token (leaf : Leaf) : (token leaf).nodes = [] := rfl

@[simp] theorem nodes_node (rule : String) (region? : Option Region) (children : List Tree) :
    (node rule region? children).nodes = node rule region? children :: nodesOf children := by
  rw [nodes, parts, List.filter_cons_of_pos rfl]
  rfl

@[simp] theorem nodesOf_cons (t : Tree) (ts : List Tree) :
    nodesOf (t :: ts) = t.nodes ++ nodesOf ts := by
  rw [nodesOf, partsOf, List.filter_append]
  rfl

theorem self_mem_nodes {t : Tree} (ht : t.isNode = true) : t ∈ t.nodes :=
  List.mem_filter.mpr ⟨self_mem_parts t, ht⟩

/-- What a queue knows of a node. -/
def entry (source : Option (Array Char)) (t : Tree) : Entry :=
  ⟨⟨t.rule?.getD "", t.text source, t.place⟩, t.nodes.length - 1⟩

mutual

theorem preorder_eq_map_nodes (source : Option (Array Char)) (t : Tree) :
    t.preorder source = t.nodes.map (entry source) := by
  cases t with
  | token leaf => rfl
  | node rule region? children =>
    have hbelow := preorderOf_eq_map_nodesOf source children
    simp [preorder, site, entry, rule?, hbelow]

theorem preorderOf_eq_map_nodesOf (source : Option (Array Char)) (ts : List Tree) :
    preorderOf source ts = (nodesOf ts).map (entry source) := by
  cases ts with
  | nil => rfl
  | cons t ts =>
    simp [preorderOf, preorder_eq_map_nodes source t, preorderOf_eq_map_nodesOf source ts]

end

theorem length_nodes_pos {t u : Tree} (hu : u ∈ t.nodes) : 0 < u.nodes.length := by
  have hnode : u.isNode = true := (List.mem_filter.mp hu).2
  cases u with
  | token leaf => cases hnode
  | node rule region? children => simp

end Tree

/-! ### Segments of a queue -/

namespace Item

/-- The nodes of a piece of a queue that begins at the index `n`. -/
def ofPiece (n : Nat) (piece : List Entry) : List Item :=
  (piece.zipIdx n).map fun p => ⟨p.2, p.2, p.1⟩

theorem ofQueue_eq (queue : List Entry) : ofQueue queue = ofPiece 0 queue := rfl

theorem ofPiece_cons (n : Nat) (e : Entry) (piece : List Entry) :
    ofPiece n (e :: piece) = ⟨n, n, e⟩ :: ofPiece (n + 1) piece := rfl

theorem ofPiece_append (n : Nat) (front behind : List Entry) :
    ofPiece n (front ++ behind) = ofPiece n front ++ ofPiece (n + front.length) behind := by
  rw [ofPiece, List.zipIdx_append, List.map_append]
  rfl

/-- The segment of a node is within the indices from `n` to `stop`. -/
def Within (n stop : Nat) (i : Item) : Prop := n ≤ i.slot ∧ i.slot < i.stop ∧ i.stop ≤ stop

theorem Within.mono {n n' stop stop' : Nat} {i : Item} (h : i.Within n stop) (hn : n' ≤ n)
    (hstop : stop ≤ stop') : i.Within n' stop' :=
  ⟨Nat.le_trans hn h.1, h.2.1, Nat.le_trans h.2.2 hstop⟩

/-- The first node stands before the second, which is behind all that is below the first or is below
it with everything that it has itself. -/
def Nested (i j : Item) : Prop := i.slot < j.slot ∧ (i.stop ≤ j.slot ∨ j.stop ≤ i.stop)

end Item

namespace Tree

open Item

mutual

theorem within_preorder (source : Option (Array Char)) (t : Tree) (n : Nat) :
    ∀ i ∈ ofPiece n (t.preorder source), i.Within n (n + (t.preorder source).length) := by
  cases t with
  | token leaf => simp [preorder, ofPiece]
  | node rule region? children =>
    have hbelow := within_preorderOf source children (n + 1)
    intro i hi
    rw [preorder, ofPiece_cons, List.mem_cons] at hi
    rw [preorder, List.length_cons]
    rcases hi with rfl | hi
    · simp only [Within, stop]
      omega
    · exact (hbelow i hi).mono (by omega) (by omega)

theorem within_preorderOf (source : Option (Array Char)) (ts : List Tree) (n : Nat) :
    ∀ i ∈ ofPiece n (preorderOf source ts), i.Within n (n + (preorderOf source ts).length) := by
  cases ts with
  | nil => simp [preorderOf, ofPiece]
  | cons t ts =>
    have hfirst := within_preorder source t n
    have hbehind := within_preorderOf source ts (n + (t.preorder source).length)
    intro i hi
    rw [preorderOf, ofPiece_append, List.mem_append] at hi
    rw [preorderOf, List.length_append]
    rcases hi with hi | hi
    · exact (hfirst i hi).mono (by omega) (by omega)
    · exact (hbehind i hi).mono (by omega) (by omega)

end

mutual

theorem nested_preorder (source : Option (Array Char)) (t : Tree) (n : Nat) :
    (ofPiece n (t.preorder source)).Pairwise Item.Nested := by
  cases t with
  | token leaf => exact List.Pairwise.nil
  | node rule region? children =>
    rw [preorder, ofPiece_cons, List.pairwise_cons]
    refine ⟨?_, nested_preorderOf source children (n + 1)⟩
    intro j hj
    obtain ⟨hslot, -, hstop⟩ := within_preorderOf source children (n + 1) j hj
    exact ⟨hslot, .inr hstop⟩

theorem nested_preorderOf (source : Option (Array Char)) (ts : List Tree) (n : Nat) :
    (ofPiece n (preorderOf source ts)).Pairwise Item.Nested := by
  cases ts with
  | nil => exact List.Pairwise.nil
  | cons t ts =>
    rw [preorderOf, ofPiece_append, List.pairwise_append]
    refine ⟨nested_preorder source t n, nested_preorderOf source ts _, ?_⟩
    intro i hi j hj
    obtain ⟨-, hi, hstop⟩ := within_preorder source t n i hi
    obtain ⟨hslot, -⟩ := within_preorderOf source ts _ j hj
    exact ⟨by omega, .inl (by omega)⟩

end

/-! ### The tree of a queue -/

mutual

/-- The rules of a tree: what is left of it without tokens and regions. Nothing is left of a
token. -/
def skeletons : Tree → List Tree
  | token _ => []
  | node rule _ children => [node rule none (skeletonsOf children)]

def skeletonsOf : List Tree → List Tree
  | [] => []
  | t :: ts => t.skeletons ++ skeletonsOf ts

end

/-- Builds trees from rules and the indices behind their last descendants, where the first rule
stands at the index `n`. -/
def regrow (n : Nat) : List (String × Nat) → List Tree
  | [] => []
  | (rule, stop) :: rows =>
    node rule none (regrow (n + 1) (rows.take (stop - (n + 1))))
      :: regrow stop (rows.drop (stop - (n + 1)))
termination_by rows => rows.length

/-- The rule of a node in a queue and the index behind its last descendant. -/
def row (i : Item) : String × Nat := (i.rule, i.stop)

mutual

theorem regrow_preorder (source : Option (Array Char)) (t : Tree) (n : Nat)
    (rows : List (String × Nat)) :
    regrow n ((ofPiece n (t.preorder source)).map row ++ rows) =
      t.skeletons ++ regrow (n + (t.preorder source).length) rows := by
  cases t with
  | token leaf => simp [preorder, ofPiece, skeletons]
  | node rule region? children =>
    have hbelow := regrow_preorderOf source children (n + 1) []
    have hlength : n + 1 + (preorderOf source children).length - (n + 1) =
        ((ofPiece (n + 1) (preorderOf source children)).map row).length := by
      simp [ofPiece]
    rw [List.append_nil, regrow, List.append_nil] at hbelow
    rw [preorder, ofPiece_cons, List.map_cons, List.cons_append, row, regrow, stop, hlength,
      List.take_left, List.drop_left, hbelow, List.length_cons, skeletons, Nat.add_right_comm]
    rfl

theorem regrow_preorderOf (source : Option (Array Char)) (ts : List Tree) (n : Nat)
    (rows : List (String × Nat)) :
    regrow n ((ofPiece n (preorderOf source ts)).map row ++ rows) =
      skeletonsOf ts ++ regrow (n + (preorderOf source ts).length) rows := by
  cases ts with
  | nil => rfl
  | cons t ts =>
    rw [preorderOf, ofPiece_append, List.map_append, List.append_assoc,
      regrow_preorder source t n, regrow_preorderOf source ts, skeletonsOf, List.append_assoc,
      List.length_append, Nat.add_assoc]

end

theorem rows_preorder (source : Option (Array Char)) (t : Tree) :
    (ofQueue (t.preorder source)).map (fun i => (i.slot, some i.rule, i.entry.site.text,
        i.entry.site.place, i.stop)) =
      t.nodes.zipIdx.map (fun (u, i) => (i, u.rule?, u.text source, u.place,
        i + u.nodes.length)) := by
  rw [ofQueue_eq, preorder_eq_map_nodes, ofPiece, List.zipIdx_map, List.map_map, List.map_map]
  refine List.map_congr_left ?_
  rintro ⟨u, i⟩ hu
  have hmem : u ∈ t.nodes := (List.mem_zipIdx' hu).2 ▸ List.getElem_mem _
  have hpos := length_nodes_pos hmem
  have hnode : u.isNode = true := (List.mem_filter.mp hmem).2
  have hrule : some (u.rule?.getD "") = u.rule? := by
    cases u with
    | token leaf => cases hnode
    | node rule region? children => rfl
  have hstop : i + 1 + (u.nodes.length - 1) = i + u.nodes.length := by omega
  simp [entry, Item.rule, Item.stop, hrule, hstop]

theorem bounds_preorder (source : Option (Array Char)) (t : Tree) :
    ∀ i ∈ ofQueue (t.preorder source), i.slot < i.stop ∧ i.stop ≤ t.nodes.length := by
  intro i hi
  have hwithin := within_preorder source t 0 i hi
  rw [Nat.zero_add, preorder_eq_map_nodes, List.length_map] at hwithin
  exact hwithin.2

theorem regrow_queue (source : Option (Array Char)) (t : Tree) :
    regrow 0 ((ofQueue (t.preorder source)).map row) = t.skeletons := by
  have h := regrow_preorder source t 0 []
  rwa [List.append_nil, regrow, List.append_nil] at h

end Tree

end RuleTree
