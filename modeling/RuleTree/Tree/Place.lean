import RuleTree.Text.Slice
import RuleTree.Tree.Basic

/-!
# Text and position of a tree

A node that knows its region takes its text from the source, if there is one, and its position from
the region. Any other node is known by its tokens, and a scan of the tree looks for them.

* `Tree.text`, `Tree.place`: the text and the place of a tree, however deep it is.
* `Tree.sweep`: a scan that may be inside of so many nodes at a time. In a deeper tree it breaks off.
* `Tree.textUnder`, `Tree.placeUnder`: the text and the place as far as such scans find them.
-/

namespace RuleTree

/-- A line and a column, as far as they are known. -/
structure Place where
  line : Option Int := none
  column : Option Int := none
  deriving DecidableEq, Repr

namespace Leaf

/-- The place of a token. -/
def place (l : Leaf) : Place := ⟨l.region.line, l.region.column⟩

/-- The place of the first token that knows its line. -/
def firstPlace (leaves : List Leaf) : Place :=
  ((leaves.find? (·.region.line.isSome)).map place).getD {}

end Leaf

namespace Region

/-- What a region covers of a source. -/
def cut (r : Region) (source : Array Char) : String :=
  String.ofList (slice source r.start r.stop)

/-- The place where a region begins. -/
def place (r : Region) : Place := ⟨r.line, r.column⟩

end Region

namespace Tree

/-- The text that a tree covers. -/
def text (source : Option (Array Char)) : Tree → String
  | token leaf => leaf.text
  | node rule region? children =>
    match source, region? with
    | some source, some region => region.cut source
    | _, _ => String.join ((node rule region? children).leaves.map (·.text))

/-- The place where a tree begins. -/
def place : Tree → Place
  | token leaf => leaf.place
  | node _ (some region) _ => region.place
  | node _ none children => Leaf.firstPlace (leavesOf children)

end Tree

/-! ### Scans for tokens -/

/-- What a scan for tokens comes to: those that it finds, and whether it gets to the end. -/
structure Sweep where
  leaves : List Leaf
  complete : Bool
  deriving DecidableEq, Repr

/-- A scan with another behind it, which is not begun if the first one breaks off. -/
def Sweep.append (s s' : Sweep) : Sweep :=
  if s.complete then ⟨s.leaves ++ s'.leaves, s'.complete⟩ else s

/-- How many nodes a scan may be inside of at a time. -/
def scanAllowance : Nat := 980

namespace Tree

mutual

/-- Scans a tree for its tokens, from left to right. Each node that the scan is inside of takes one
of the allowance, and a node for which nothing is left breaks it off. -/
def sweep : Nat → Tree → Sweep
  | _, token leaf => ⟨[leaf], true⟩
  | 0, node .. => ⟨[], false⟩
  | n + 1, node _ _ children => sweepOf n children

/-- Scans some trees, tree after tree. -/
def sweepOf : Nat → List Tree → Sweep
  | _, [] => ⟨[], true⟩
  | n, t :: ts => (t.sweep n).append (sweepOf n ts)

end

/-- The text that a tree covers. There is none if it has to be put together from the tokens and the
scan for them breaks off. -/
def textUnder (allowance : Nat) (source : Option (Array Char)) : Tree → Option String
  | token leaf => some leaf.text
  | node rule region? children =>
    match source, region? with
    | some source, some region => some (region.cut source)
    | _, _ =>
      let found := (node rule region? children).sweep allowance
      if found.complete then some (String.join (found.leaves.map (·.text))) else none

/-- The place where a tree begins. There is none if it has to be that of a token and the scan breaks
off before one that knows its line. -/
def placeUnder (allowance : Nat) : Tree → Option Place
  | token leaf => some leaf.place
  | node _ (some region) _ => some region.place
  | node rule none children =>
    let found := (node rule none children).sweep allowance
    match found.leaves.find? (·.region.line.isSome) with
    | some leaf => some leaf.place
    | none => if found.complete then some {} else none

end Tree

end RuleTree
