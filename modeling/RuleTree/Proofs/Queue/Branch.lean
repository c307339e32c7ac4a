import RuleTree.Queue.Cursor

/-!
# What a cursor is over

The nodes of a tree without its tokens are a branch, and the queue of a tree is its branch in
pre-order. A cursor that was moved along a queue from its front is always over whole branches:
one for each sibling that is still ahead.

* `Cursor.Over`: the segment of a cursor holds certain branches.
* `Cursor.Over.exists_item`: what it finds there, and what it is over behind and inside of it.
* `Cursor.Reaches`: where a cursor can be moved to.
* `Cursor.Over.of_peek?`: each of the moves leads to whole branches again.
-/

namespace RuleTree

/-- A node and the nodes below it, as they are known after flattening. -/
structure Branch where
  site : Site
  children : List Branch

namespace Branch

def rule (b : Branch) : String := b.site.rule

mutual

/-- The queue of a branch. -/
def entries : Branch → List Entry
  | ⟨site, children⟩ => ⟨site, (entriesOf children).length⟩ :: entriesOf children

/-- The queue of some branches. -/
def entriesOf : List Branch → List Entry
  | [] => []
  | b :: bs => b.entries ++ entriesOf bs

end

end Branch

namespace Tree

mutual

/-- The branch of a node; a token has none. -/
def branches (source : Option (Array Char)) : Tree → List Branch
  | token _ => []
  | node rule region? children => [⟨site source rule region? children, branchesOf source children⟩]

/-- The branches of some trees. -/
def branchesOf (source : Option (Array Char)) : List Tree → List Branch
  | [] => []
  | t :: ts => t.branches source ++ branchesOf source ts

end

end Tree

namespace Branch

theorem entriesOf_append (bs cs : List Branch) :
    entriesOf (bs ++ cs) = entriesOf bs ++ entriesOf cs := by
  induction bs with
  | nil => rfl
  | cons b bs ih => rw [List.cons_append, entriesOf, ih, entriesOf, List.append_assoc]

mutual

theorem entriesOf_branches (source : Option (Array Char)) (t : Tree) :
    entriesOf (t.branches source) = t.preorder source := by
  cases t with
  | token leaf => rfl
  | node rule region? children =>
    simp only [Tree.branches, Tree.preorder, entriesOf, entries, List.append_nil]
    rw [entriesOf_branchesOf source children]

theorem entriesOf_branchesOf (source : Option (Array Char)) (ts : List Tree) :
    entriesOf (Tree.branchesOf source ts) = Tree.preorderOf source ts := by
  cases ts with
  | nil => rfl
  | cons t ts =>
    rw [Tree.branchesOf, Tree.preorderOf, entriesOf_append, entriesOf_branches source t,
      entriesOf_branchesOf source ts]

end

end Branch

namespace Cursor

@[simp] theorem behind_queue (c : Cursor) (i : Item) : (c.behind i).queue = c.queue := rfl
@[simp] theorem inside_queue (c : Cursor) (i : Item) : (c.inside i).queue = c.queue := rfl

/-- The segment of the queue that the cursor is over holds the branches `bs`. -/
def Over (c : Cursor) (bs : List Branch) : Prop :=
  ∃ front back, c.queue.toList = front ++ Branch.entriesOf bs ++ back ∧ c.pos = front.length ∧
    c.stop = c.pos + (Branch.entriesOf bs).length

theorem Over.ahead_nil {c : Cursor} (h : c.Over []) : c.ahead = .ending := by
  obtain ⟨front, back, -, -, hstop⟩ := h
  have hend : c.stop = c.pos := by
    rw [hstop]
    simp [Branch.entriesOf]
  unfold ahead
  rw [if_neg (by omega)]

/-- A cursor over branches finds the first of them, is over those below it inside of it and over
the others behind it. -/
theorem Over.exists_item {c : Cursor} {b : Branch} {bs : List Branch} (h : c.Over (b :: bs)) :
    ∃ i, c.ahead = .item i ∧ i.entry.site = b.site ∧ (c.inside i).Over b.children ∧
      (c.behind i).Over bs := by
  obtain ⟨site, children⟩ := b
  obtain ⟨front, back, hqueue, hpos, hstop⟩ := h
  simp only [Branch.entriesOf, Branch.entries, List.cons_append, List.length_cons,
    List.length_append] at hqueue hstop
  let entry : Entry := ⟨site, (Branch.entriesOf children).length⟩
  have hget : c.queue[front.length]? = some entry := by
    rw [← Array.getElem?_toList, hqueue]
    simp [entry]
  have hat : Item.at? c.queue c.pos = some ⟨c.pos, front.length, entry⟩ := by
    rw [hpos, Item.at?_natCast, hget]
    rfl
  refine ⟨⟨c.pos, front.length, entry⟩, ?_, rfl, ?_, ?_⟩
  · unfold ahead
    rw [if_pos (by omega), hat]
  · refine ⟨front ++ [entry], Branch.entriesOf bs ++ back, ?_, ?_, ?_⟩
    · rw [inside_queue, hqueue]
      simp [entry]
    · simp only [inside, List.length_append, List.length_singleton]
      omega
    · simp only [inside, Item.stop, entry]
      omega
  · refine ⟨front ++ entry :: Branch.entriesOf children, back, ?_, ?_, ?_⟩
    · rw [behind_queue, hqueue]
      simp [entry]
    · simp only [behind, Item.stop, entry, List.length_append, List.length_cons]
      omega
    · simp only [behind, Item.stop, entry]
      omega

theorem over_ofTree (settings : Settings) (source : Option (Array Char)) (t : Tree) :
    (ofTree settings source t).Over (t.branches source) := by
  refine ⟨[], [], ?_, rfl, ?_⟩
  · simp [ofTree, ofQueue, Tree.flatten_eq_preorder, Branch.entriesOf_branches]
  · simp [ofTree, ofQueue, Tree.flatten_eq_preorder, Branch.entriesOf_branches]

/-- The cursors that are reached from a cursor by going past siblings and inside of them. -/
inductive Reaches (root : Cursor) : Cursor → Prop
  | start : Reaches root root
  | behind {c : Cursor} {i : Item} : Reaches root c → c.peek? = some i → Reaches root (c.behind i)
  | inside {c : Cursor} {i : Item} : Reaches root c → c.peek? = some i → Reaches root (c.inside i)

theorem Over.of_peek? {c : Cursor} {bs : List Branch} {i : Item} (h : c.Over bs)
    (hi : c.peek? = some i) :
    ∃ b rest, bs = b :: rest ∧ i.entry.site = b.site ∧ (c.inside i).Over b.children ∧
      (c.behind i).Over rest := by
  rw [peek?_eq_some_iff] at hi
  cases bs with
  | nil =>
    simp [h.ahead_nil] at hi
  | cons b bs =>
    obtain ⟨j, hj, hsite, hinside, hbehind⟩ := h.exists_item
    rw [hj] at hi
    cases hi
    exact ⟨b, bs, rfl, hsite, hinside, hbehind⟩

theorem Over.ahead_ne_outside {c : Cursor} {bs : List Branch} (h : c.Over bs) :
    c.ahead ≠ .outside := by
  cases bs with
  | nil =>
    rw [h.ahead_nil]
    nofun
  | cons b bs =>
    obtain ⟨i, hi, -⟩ := h.exists_item
    rw [hi]
    nofun

theorem Over.rule? {c : Cursor} {bs : List Branch} (h : c.Over bs) :
    c.rule? = bs.head?.map Branch.rule := by
  cases bs with
  | nil => simp [Cursor.rule?, peek?, h.ahead_nil]
  | cons b bs =>
    obtain ⟨i, hi, hsite, -⟩ := h.exists_item
    simp [Cursor.rule?, peek?, hi, Item.rule, hsite, Branch.rule]

end Cursor

end RuleTree
