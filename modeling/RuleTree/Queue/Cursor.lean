import RuleTree.Queue.Flatten
import RuleTree.Settings

/-!
# Cursors over a queue

A cursor stands before one of the siblings at some level of a tree, in the flat queue of its nodes.
Going past a sibling skips its descendants, and going inside it bounds the cursor by them.

The bounds of a cursor may be any integers. `Cursor.ahead` tells what it finds at its place: a node,
its end, or, where the bounds promise more than there is, nothing in the queue.
-/

namespace RuleTree

/-- A node as a cursor finds it in a queue. -/
structure Item where
  /-- The index that it is found at. -/
  index : Int
  /-- Its place in the queue, counted from the front. -/
  slot : Nat
  entry : Entry
  deriving DecidableEq, Repr

namespace Item

/-- The index behind the last descendant. -/
def stop (i : Item) : Nat := i.slot + 1 + i.entry.descendants

def rule (i : Item) : String := i.entry.site.rule

/-- All nodes of a queue at their indices. -/
def ofQueue (queue : List Entry) : List Item :=
  queue.zipIdx.map fun p => ⟨p.2, p.2, p.1⟩

/-- The node at an index. A negative index counts from the end of the queue. -/
def at? (queue : Array Entry) (index : Int) : Option Item :=
  match if index < 0 then index + queue.size else index with
  | .ofNat slot => (queue[slot]?).map (⟨index, slot, ·⟩)
  | .negSucc _ => none

theorem at?_natCast (queue : Array Entry) (n : Nat) :
    at? queue n = (queue[n]?).map (⟨n, n, ·⟩) := by
  unfold at?
  rw [if_neg (by omega)]

theorem index_of_at? {queue : Array Entry} {index : Int} {i : Item} (h : at? queue index = some i) :
    i.index = index ∧ index ≤ i.slot := by
  unfold at? at h
  split at h
  · rename_i slot hslot
    obtain ⟨e, -, rfl⟩ := Option.map_eq_some_iff.1 h
    refine ⟨rfl, ?_⟩
    change (if index < 0 then index + queue.size else index) = (slot : Int) at hslot
    change index ≤ (slot : Int)
    split at hslot <;> omega
  · cases h

end Item

/-- What a cursor finds at its place. -/
inductive Ahead
  | item (i : Item)
  /-- The cursor is at its end. -/
  | ending
  /-- The cursor is before its end, but outside the queue. -/
  | outside
  deriving DecidableEq, Repr

/-- A cursor over the siblings in a segment of a queue. -/
structure Cursor where
  queue : Array Entry
  pos : Int
  stop : Int
  settings : Settings
  deriving DecidableEq, Repr

namespace Cursor

/-- The cursor over a whole queue. -/
def ofQueue (settings : Settings) (queue : List Entry) : Cursor :=
  ⟨queue.toArray, 0, queue.length, settings⟩

/-- The cursor before the root of a tree, however deep the tree is. -/
def ofTree (settings : Settings) (source : Option (Array Char)) (t : Tree) : Cursor :=
  ofQueue settings (t.flatten source)

/-- The cursor before the root of a tree, if the tree has a queue. -/
def ofTree? (settings : Settings) (source : Option (Array Char)) (t : Tree) : Option Cursor :=
  (t.flattenUnder scanAllowance source).map (ofQueue settings)

/-- The cursor over another segment of the same queue, up to its end where no end is given. -/
def segment (c : Cursor) (pos : Int) (stop : Option Int) : Cursor :=
  { c with pos := pos, stop := stop.getD c.queue.size }

/-- What stands at the place of the cursor. -/
def ahead (c : Cursor) : Ahead :=
  if c.pos < c.stop then
    match Item.at? c.queue c.pos with
    | some i => .item i
    | none => .outside
  else .ending

/-- The next sibling, if there is one. -/
def peek? (c : Cursor) : Option Item :=
  match c.ahead with
  | .item i => some i
  | _ => none

theorem peek?_eq_some_iff {c : Cursor} {i : Item} : c.peek? = some i ↔ c.ahead = .item i := by
  unfold peek?
  split <;> simp_all

/-- The rule of the next sibling. -/
def rule? (c : Cursor) : Option String := c.peek?.map (·.rule)

/-- The cursor behind a node. -/
def behind (c : Cursor) (i : Item) : Cursor := { c with pos := i.stop }

/-- The cursor over the children of a node. -/
def inside (c : Cursor) (i : Item) : Cursor := { c with pos := i.index + 1, stop := i.stop }

/-- The next sibling together with the cursor behind it. -/
def advance? (c : Cursor) : Option (Item × Cursor) :=
  c.peek?.map fun i => (i, c.behind i)

/-- Whether the next sibling has one of the rules. -/
def check (c : Cursor) (rules : List String) : Bool :=
  c.rule?.any rules.contains

theorem index_of_peek? {c : Cursor} {i : Item} (h : c.peek? = some i) :
    i.index = c.pos ∧ c.pos < c.stop ∧ c.pos < i.stop := by
  rw [peek?_eq_some_iff] at h
  unfold ahead at h
  split at h
  · split at h
    · rename_i hlt _ _ hat
      cases h
      obtain ⟨h₁, h₂⟩ := Item.index_of_at? hat
      refine ⟨h₁, hlt, ?_⟩
      simp only [Item.stop]
      omega
    · cases h
  · cases h

/-- The siblings that are still ahead. -/
def siblings (c : Cursor) : List Item :=
  match _h : c.peek? with
  | none => []
  | some i => i :: (c.behind i).siblings
termination_by (c.stop - c.pos).toNat
decreasing_by
  obtain ⟨-, h₁, h₂⟩ := index_of_peek? _h
  simp only [behind]
  omega

theorem siblings_of_none {c : Cursor} (h : c.peek? = none) : c.siblings = [] := by
  rw [siblings]
  split <;> simp_all

theorem siblings_of_some {c : Cursor} {i : Item} (h : c.peek? = some i) :
    c.siblings = i :: (c.behind i).siblings := by
  rw [siblings]
  split <;> simp_all

/-- The number of siblings that are still ahead. -/
def remaining (c : Cursor) : Nat := c.siblings.length

/-- The rules of the siblings that are still ahead, as they are shown to a person. -/
def render (c : Cursor) : String :=
  "Pairs(" ++ quotedList (c.siblings.map (·.rule)) ++ ")"

/-- Goes past up to `n` siblings and gives them. -/
def take : Nat → Cursor → List Item × Cursor
  | 0, c => ([], c)
  | n + 1, c =>
    match c.advance? with
    | none => ([], c)
    | some (i, c') =>
      let (items, last) := take n c'
      (i :: items, last)

/-- Goes past all siblings and gives them. -/
def takeAll (c : Cursor) : List Item × Cursor := take c.remaining c

/-- The cursor behind all siblings. It is at its end, unless they lead outside the queue. -/
def last (c : Cursor) : Cursor := c.takeAll.2

end Cursor

end RuleTree
