/-!
# Rule trees

A rule tree has a rule name at each node and tokens among its children. Nodes and tokens may know
the stretch of the source that they cover.
-/

namespace RuleTree

/-- What is known of the stretch of a source that a node or a token covers. -/
structure Region where
  line : Option Int := none
  column : Option Int := none
  start : Option Int := none
  stop : Option Int := none
  endLine : Option Int := none
  endColumn : Option Int := none
  deriving DecidableEq, Repr

/-- A token in a tree: the name of its kind, its text and where it stands. -/
structure Leaf where
  kind : String
  text : String
  region : Region := {}
  deriving DecidableEq, Repr

/-- A tree of rules and tokens. -/
inductive Tree
  | token (leaf : Leaf)
  | node (rule : String) (region? : Option Region) (children : List Tree)
  deriving Repr

namespace Tree

/-- The rule of a node. -/
def rule? : Tree → Option String
  | token _ => none
  | node rule _ _ => some rule

/-- `t.isNode` tells a node from a token. -/
def isNode : Tree → Bool
  | token _ => false
  | node .. => true

/-- The children that are nodes, in order. -/
def subtrees : Tree → List Tree
  | token _ => []
  | node _ _ children => children.filter isNode

/-- The region of a node that has one. -/
def region? : Tree → Option Region
  | token _ => none
  | node _ region? _ => region?

mutual

/-- The tokens of a tree, from left to right. -/
def leaves : Tree → List Leaf
  | token leaf => [leaf]
  | node _ _ children => leavesOf children

/-- The tokens of a list of trees, from left to right. -/
def leavesOf : List Tree → List Leaf
  | [] => []
  | t :: ts => t.leaves ++ leavesOf ts

end

end Tree

end RuleTree
