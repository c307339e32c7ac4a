import RuleTree.Queue.Entry

/-!
# Flattening a tree

* `Tree.preorder` is the queue of a tree by definition: the root, then the queues of its children.
* `Tree.flatten` gives the same queue without descending into the tree. A stack holds the nodes that
  are still to be visited, and a pass back over the visited nodes adds the size of each subtree to
  that of the node above it.
* `Tree.flattenUnder` does so with scans that may break off, and then gives no queue.
* `Visit.visitAll_eq`: the order in which the nodes are visited.
* `Tree.sizes_visits`: what the pass comes to on the nodes of a subtree.
-/

namespace RuleTree

namespace Tree

/-- What a queue knows of a node. -/
def site (source : Option (Array Char)) (rule : String) (region? : Option Region)
    (children : List Tree) : Site :=
  ⟨rule, (node rule region? children).text source, (node rule region? children).place⟩

mutual

/-- The nodes of a tree, each before those below it. -/
def preorder (source : Option (Array Char)) : Tree → List Entry
  | token _ => []
  | node rule region? children =>
    ⟨site source rule region? children, (preorderOf source children).length⟩
      :: preorderOf source children

/-- The nodes of some trees, tree after tree. -/
def preorderOf (source : Option (Array Char)) : List Tree → List Entry
  | [] => []
  | t :: ts => t.preorder source ++ preorderOf source ts

end

mutual

/-- The number of nodes and tokens of a tree. -/
def size : Tree → Nat
  | token _ => 1
  | node _ _ children => sizeOfAll children + 1

/-- The number of nodes and tokens of some trees. -/
def sizeOfAll : List Tree → Nat
  | [] => 0
  | t :: ts => t.size + sizeOfAll ts

end

theorem sizeOfAll_append (ts us : List Tree) :
    sizeOfAll (ts ++ us) = sizeOfAll ts + sizeOfAll us := by
  induction ts with
  | nil => simp [sizeOfAll]
  | cons t ts ih =>
    rw [List.cons_append, sizeOfAll, sizeOfAll, ih]
    omega

theorem sizeOfAll_subtrees_lt (t : Tree) : sizeOfAll t.subtrees < t.size := by
  cases t with
  | token leaf => simp [subtrees, sizeOfAll, size]
  | node rule region? children =>
    have hle : sizeOfAll (children.filter isNode) ≤ sizeOfAll children := by
      induction children with
      | nil => exact Nat.le_refl 0
      | cons t ts ih =>
        rw [List.filter_cons, sizeOfAll]
        split
        · rw [sizeOfAll]
          omega
        · omega
    rw [subtrees, size]
    omega

end Tree

/-- A visited node, with the index at which the node above it was visited. The root has none above
it and is visited at index zero. -/
structure Visit where
  node : Tree
  parent : Nat

namespace Visit

/-- Puts the nodes below a visited node on a stack, so that the first of them is on top. -/
def push (index : Nat) (children : List Tree) (stack : List Visit) : List Visit :=
  children.reverse.foldl (fun stack child => ⟨child, index⟩ :: stack) stack

theorem push_eq (index : Nat) (children : List Tree) (stack : List Visit) :
    push index children stack = children.map (⟨·, index⟩) ++ stack := by
  rw [push, List.foldl_reverse]
  induction children with
  | nil => rfl
  | cons child children ih => simp [ih]

/-- Visits what is on a stack and all nodes below. -/
@[semireducible]
def visitAll (visited : Array Visit) : List Visit → Array Visit
  | [] => visited
  | v :: stack => visitAll (visited.push v) (push visited.size v.node.subtrees stack)
termination_by stack => Tree.sizeOfAll (stack.map (·.node))
decreasing_by
  have hlt := v.node.sizeOfAll_subtrees_lt
  have hnodes : (v.node.subtrees.map (⟨·, visited.size⟩ : Tree → Visit)).map (·.node) =
      v.node.subtrees := by
    rw [List.map_map]
    exact List.map_id _
  rw [push_eq, List.map_append, hnodes, Tree.sizeOfAll_append, List.map_cons, Tree.sizeOfAll]
  omega

/-- Adds the size that is known for a visited node to that of the node above it. -/
def addSize (v : Visit × Nat) (sizes : Array Nat) : Array Nat :=
  let size := sizes.getD v.2 0
  sizes.modify v.1.parent (· + size)

/-- The numbers of nodes in the subtrees of visited nodes. All nodes below a node were visited after
it, so that its number is complete when the pass comes back to it. -/
def sizes (visited : List Visit) : Array Nat :=
  visited.zipIdx.tail.foldr addSize (Array.replicate visited.length 1)

/-- A visited node in a queue, where the size of its subtree is known. -/
def entry (source : Option (Array Char)) (v : Visit) (size : Nat) : Entry :=
  ⟨⟨v.node.rule?.getD "", v.node.text source, v.node.place⟩, size - 1⟩

/-- A visited node in a queue, if the scans for its place and its text do not break off. -/
def entryUnder (allowance : Nat) (source : Option (Array Char)) (v : Visit) (size : Nat) :
    Option Entry := do
  let place ← v.node.placeUnder allowance
  let text ← v.node.textUnder allowance source
  return ⟨⟨v.node.rule?.getD "", text, place⟩, size - 1⟩

end Visit

/-- The queue of a tree, however deep the tree is. -/
def Tree.flatten (source : Option (Array Char)) (t : Tree) : List Entry :=
  let visited := (Visit.visitAll #[] (([t].filter isNode).map (⟨·, 0⟩))).toList
  visited.zipWith (Visit.entry source) (Visit.sizes visited).toList

/-- The queue of a tree, if no scan in it breaks off. The walk itself is not limited. -/
def Tree.flattenUnder (allowance : Nat) (source : Option (Array Char)) (t : Tree) :
    Option (List Entry) :=
  let visited := (Visit.visitAll #[] (([t].filter isNode).map (⟨·, 0⟩))).toList
  (visited.zip (Visit.sizes visited).toList).mapM fun v => v.1.entryUnder allowance source v.2

/-! ### The order of the visits -/

namespace Tree

mutual

/-- The visits of a tree whose root is visited at the index `n`, where `p` is that of the node
above. -/
def visits (n p : Nat) : Tree → List Visit
  | token _ => []
  | node rule region? children => ⟨node rule region? children, p⟩ :: visitsOf (n + 1) n children

/-- The visits of some trees below one node, tree after tree. -/
def visitsOf (n p : Nat) : List Tree → List Visit
  | [] => []
  | t :: ts => t.visits n p ++ visitsOf (n + (t.visits n p).length) p ts

end

theorem visitsOf_filter_isNode (n p : Nat) (ts : List Tree) :
    visitsOf n p (ts.filter isNode) = visitsOf n p ts := by
  induction ts generalizing n with
  | nil => rfl
  | cons t ts ih =>
    cases t with
    | token leaf => simp [isNode, visitsOf, visits, ih]
    | node rule region? children =>
      rw [List.filter_cons_of_pos rfl, visitsOf, visitsOf, ih]

theorem visits_eq_cons {t : Tree} (ht : t.isNode = true) (n p : Nat) :
    t.visits n p = ⟨t, p⟩ :: visitsOf (n + 1) n t.subtrees := by
  cases t with
  | token leaf => cases ht
  | node rule region? children => rw [visits, subtrees, visitsOf_filter_isNode]

end Tree

namespace Visit

/-- The visits of what is on a stack, where the next of them is at the index `n`. -/
def ofStack (n : Nat) : List Visit → List Visit
  | [] => []
  | v :: stack => v.node.visits n v.parent ++ ofStack (n + (v.node.visits n v.parent).length) stack

theorem ofStack_append (n p : Nat) (ts : List Tree) (stack : List Visit) :
    ofStack n (ts.map (⟨·, p⟩) ++ stack) =
      Tree.visitsOf n p ts ++ ofStack (n + (Tree.visitsOf n p ts).length) stack := by
  induction ts generalizing n with
  | nil => rfl
  | cons t ts ih =>
    simp only [List.map_cons, List.cons_append, ofStack, ih, Tree.visitsOf, List.append_assoc,
      List.length_append, Nat.add_assoc]

theorem visitAll_eq (visited : Array Visit) {stack : List Visit}
    (h : ∀ v ∈ stack, v.node.isNode = true) :
    (visitAll visited stack).toList = visited.toList ++ ofStack visited.size stack := by
  fun_induction visitAll visited stack with
  | case1 visited => simp [ofStack]
  | case2 visited v stack ih =>
    obtain ⟨hv, hstack⟩ := List.forall_mem_cons.mp h
    have hpushed : ∀ w ∈ push visited.size v.node.subtrees stack, w.node.isNode = true := by
      intro w hw
      rw [push_eq, List.mem_append, List.mem_map] at hw
      rcases hw with ⟨t, ht, rfl⟩ | hw
      · cases hnode : v.node with
        | token leaf => simp [hnode, Tree.subtrees] at ht
        | node rule region? children =>
          rw [hnode] at ht
          exact (List.mem_filter.mp ht).2
      · exact hstack w hw
    rw [ih hpushed, push_eq, ofStack_append, ofStack, Tree.visits_eq_cons hv]
    simp [Nat.add_assoc, Nat.add_comm 1]

end Visit

namespace Tree

mutual

theorem map_visits (source : Option (Array Char)) (n p : Nat) (t : Tree) :
    (t.visits n p).map (fun v => (v.entry source 0).site) = (t.preorder source).map (·.site) := by
  cases t with
  | token leaf => rfl
  | node rule region? children =>
    rw [visits, List.map_cons, map_visitsOf source (n + 1) n children, preorder, List.map_cons]
    rfl

theorem map_visitsOf (source : Option (Array Char)) (n p : Nat) (ts : List Tree) :
    (visitsOf n p ts).map (fun v => (v.entry source 0).site) =
      (preorderOf source ts).map (·.site) := by
  cases ts with
  | nil => rfl
  | cons t ts =>
    rw [visitsOf, List.map_append, map_visits source n p t, map_visitsOf source _ p ts, preorderOf,
      List.map_append]

end

theorem length_visits (source : Option (Array Char)) (n p : Nat) (t : Tree) :
    (t.visits n p).length = (t.preorder source).length := by
  have h := congrArg List.length (map_visits source n p t)
  simpa using h

theorem length_visitsOf (source : Option (Array Char)) (n p : Nat) (ts : List Tree) :
    (visitsOf n p ts).length = (preorderOf source ts).length := by
  have h := congrArg List.length (map_visitsOf source n p ts)
  simpa using h

/-! ### The sizes of the subtrees -/

/-- The numbers of nodes in the subtrees of a queue. -/
def sizesOf (entries : List Entry) : List Nat := entries.map (·.descendants + 1)

theorem modify_append {α : Type} (f : α → α) {n : Nat} {front : List α} (hn : n < front.length)
    (behind : List α) : (front ++ behind).modify n f = front.modify n f ++ behind := by
  induction front generalizing n with
  | nil => cases hn
  | cons a front ih =>
    cases n with
    | zero => rfl
    | succ n =>
      simp only [List.cons_append, List.modify_succ_cons, ih (Nat.lt_of_succ_lt_succ hn)]

theorem modify_concat {α : Type} (f : α → α) (front : List α) (a : α) :
    (front ++ [a]).modify front.length f = front ++ [f a] := by
  induction front with
  | nil => rfl
  | cons b front ih => simp only [List.cons_append, List.length_cons, List.modify_succ_cons, ih]

theorem toList_addSize {front behind : List Nat} {size : Nat} {sizes : Array Nat} {v : Visit}
    (hsizes : sizes.toList = front ++ size :: behind) (hv : v.parent < front.length) :
    (Visit.addSize (v, front.length) sizes).toList =
      front.modify v.parent (· + size) ++ size :: behind := by
  have hsize : sizes.getD front.length 0 = size := by
    rw [Array.getD_eq_getD_getElem?, ← Array.getElem?_toList, hsizes]
    simp
  rw [Visit.addSize, hsize, Array.toList_modify, hsizes]
  exact modify_append _ hv _

mutual

/-- On the nodes of a subtree, which are counted as one each before, the pass leaves the numbers of
nodes that are below them, and adds all of them to the node above the subtree. -/
theorem sizes_visits (source : Option (Array Char)) (t : Tree) (p : Nat) (front behind : List Nat)
    (sizes : Array Nat) (hp : p < front.length)
    (hsizes : sizes.toList =
      front ++ (List.replicate (t.preorder source).length 1 ++ behind)) :
    (((t.visits front.length p).zipIdx front.length).foldr Visit.addSize sizes).toList =
      front.modify p (· + (t.preorder source).length) ++
        (sizesOf (t.preorder source) ++ behind) := by
  cases t with
  | token leaf =>
    rw [visits, List.zipIdx_nil, List.foldr_nil, hsizes]
    exact congrArg (· ++ behind) (List.modify_id p front).symm
  | node rule region? children =>
    have hbelow := sizes_visitsOf source children front.length (front ++ [1]) behind sizes (by simp)
      (by simpa [preorder, List.replicate_succ] using hsizes)
    rw [modify_concat, List.append_assoc, List.length_append, List.length_singleton] at hbelow
    have hstep := toList_addSize hbelow (v := ⟨node rule region? children, p⟩) hp
    rw [visits, List.zipIdx_cons, List.foldr_cons, hstep]
    simp [preorder, sizesOf, Nat.add_comm]

theorem sizes_visitsOf (source : Option (Array Char)) (ts : List Tree) (p : Nat)
    (front behind : List Nat) (sizes : Array Nat) (hp : p < front.length)
    (hsizes : sizes.toList =
      front ++ (List.replicate (preorderOf source ts).length 1 ++ behind)) :
    (((visitsOf front.length p ts).zipIdx front.length).foldr Visit.addSize sizes).toList =
      front.modify p (· + (preorderOf source ts).length) ++
        (sizesOf (preorderOf source ts) ++ behind) := by
  cases ts with
  | nil =>
    rw [visitsOf, List.zipIdx_nil, List.foldr_nil, hsizes]
    exact congrArg (· ++ behind) (List.modify_id p front).symm
  | cons t ts =>
    -- the pass comes to the trees behind the first one before
    have hbehind := sizes_visitsOf source ts p
      (front ++ List.replicate (t.preorder source).length 1) behind sizes (by simp; omega)
      (by simpa [preorderOf, ← List.replicate_append_replicate] using hsizes)
    rw [modify_append _ hp, List.append_assoc, List.length_append, List.length_replicate] at hbehind
    have hfirst := sizes_visits source t p (front.modify p (· + (preorderOf source ts).length)) _ _
      (by simpa using hp) hbehind
    rw [List.length_modify, List.modify_modify_eq] at hfirst
    rw [visitsOf, List.zipIdx_append, List.foldr_append, length_visits source, hfirst]
    simp [preorderOf, sizesOf, Function.comp_def, Nat.add_comm, Nat.add_left_comm]

end

theorem sizes_visits_root (source : Option (Array Char)) {t : Tree} (ht : t.isNode = true) :
    (Visit.sizes (t.visits 0 0)).toList = sizesOf (t.preorder source) := by
  cases t with
  | token leaf => cases ht
  | node rule region? children =>
    have hbelow := sizes_visitsOf source children 0 [1] []
      (Array.replicate ((node rule region? children).visits 0 0).length 1) (by simp)
      (by simp [visits, length_visitsOf source, List.replicate_succ])
    rw [Visit.sizes, visits, List.zipIdx_cons, List.tail_cons]
    rw [visits] at hbelow
    refine hbelow.trans ?_
    simp [preorder, sizesOf, Nat.add_comm]

theorem visitAll_root (t : Tree) :
    (Visit.visitAll #[] (([t].filter isNode).map (⟨·, 0⟩))).toList = t.visits 0 0 := by
  cases ht : t.isNode with
  | false =>
    cases t with
    | token leaf => simp [ht, Visit.visitAll, visits]
    | node rule region? children => cases ht
  | true =>
    rw [List.filter_cons_of_pos ht, Visit.visitAll_eq _ (by simp [ht])]
    simp [Visit.ofStack]

theorem flatten_eq_preorder (source : Option (Array Char)) (t : Tree) :
    t.flatten source = t.preorder source := by
  cases ht : t.isNode with
  | false =>
    cases t with
    | token leaf => simp [flatten, ht, Visit.visitAll, preorder]
    | node rule region? children => cases ht
  | true =>
    have hvisits := map_visits source 0 0 t
    have hsizes := sizes_visits_root source ht
    calc t.flatten source
      _ = (t.visits 0 0).zipWith (Visit.entry source) (sizesOf (t.preorder source)) := by
        rw [flatten, visitAll_root, hsizes]
      _ = List.zipWith (fun site size => ⟨site, size - 1⟩)
          ((t.visits 0 0).map fun v => (v.entry source 0).site) (sizesOf (t.preorder source)) := by
        rw [List.zipWith_map_left]
        rfl
      _ = t.preorder source := by
        rw [hvisits, sizesOf, List.zipWith_map, List.zipWith_self]
        simp

end Tree

end RuleTree
