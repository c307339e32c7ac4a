import RuleTree.Text.Column
import RuleTree.Text.Quoted
import RuleTree.Tree.Place

/-!
# Entries of a queue

The nodes of a tree in pre-order, each with the number of its descendants, so that the entries of a
subtree are a segment of the queue that begins with its root.
-/

namespace RuleTree

/-- A node as it is known after flattening: its rule, its text and its place. -/
structure Site where
  rule : String
  text : String
  place : Place
  deriving DecidableEq, Repr

namespace Site

/-- The place of a node as it is written in the log. -/
def location (s : Site) : String :=
  match s.place.line with
  | none => "?"
  | some line => toString line ++ ":" ++ showColumn s.place.column

/-- The node as it is shown to a person. -/
def render (s : Site) : String :=
  "Pair(" ++ quoted s.rule ++ ", " ++ quoted s.text ++ ")"

end Site

/-- A node in a queue. -/
structure Entry where
  site : Site
  /-- The number of nodes below it, which stand directly behind it in the queue. -/
  descendants : Nat
  deriving DecidableEq, Repr

end RuleTree
