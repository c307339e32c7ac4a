import RuleTree.Source.Reading
import RuleTree.Tree.Basic

/-!
# The tree of a phrase

How a phrase is shown as a rule tree. Punctuation and operators leave no token in the tree, but
count for the region of the node that they belong to, and the items of an enclosed list stand
directly below the node of the list.
-/

namespace RuleTree

def Region.ofSpan (s : Span) : Region where
  line := some s.start.line
  column := some s.start.column
  start := some s.start.offset
  stop := some s.stop.offset
  endLine := some s.stop.line
  endColumn := some s.stop.column

/-- A node over a span. -/
def Tree.over (span : Span) (rule : String) (children : List Tree) : Tree :=
  .node rule (some (.ofSpan span)) children

/-- Nodes with one child each over the same span, the outermost rule first. -/
def Tree.chain (span : Span) (rules : List String) (child : Tree) : Tree :=
  rules.foldr (fun rule below => .over span rule [below]) child

/-- The rules above a literal token, below the rule of terms. -/
def LiteralKind.rules : LiteralKind → List String
  | .float => ["value", "primitive_value", "float"]
  | .hexInt => ["value", "primitive_value", "integer", "integer_hex"]
  | .binInt => ["value", "primitive_value", "integer", "integer_bin"]
  | .octInt => ["value", "primitive_value", "integer", "integer_oct"]
  | .decInt => ["value", "primitive_value", "integer", "integer_dec"]
  | .char => ["value", "primitive_value", "char"]
  | .string => ["value", "string"]

/-- The rule of an operator. -/
def Operator.rule : Operator → String
  | .add => "op_add"
  | .sub => "op_sub"
  | .mul => "op_mul"
  | .div => "op_div"
  | .pow => "op_pow"

namespace Phrase

/-- The tree of a term that encloses items with the trees `below`. A single item without a comma in
round brackets is a group and stands directly below the term. -/
def enclosedTree (span : Span) (below : List Tree) : Bracket → Items → Tree
  | .round, .last _ => .over span "term" below
  | .round, _ => .chain span ["term", "value"] (.over span "tuple" below)
  | .square, _ => .chain span ["term", "value"] (.over span "array" below)

mutual

def Expr.tree : Expr → Tree
  | .single t => .over t.span "expr" [t.tree]
  | .binary l o m r =>
    .over (l.span.through r.span) "expr"
      [l.tree, .over m "operator" [.over m o.rule []], r.tree]

def Term.tree : Term → Tree
  | .literal k s p => .chain p ("term" :: k.rules) (.token ⟨k.name, s, .ofSpan p⟩)
  | .enclosed b p is q => enclosedTree (p.through q) is.trees b is

def Items.trees : Items → List Tree
  | .nil => []
  | .last e => [e.tree]
  | .cons e _ is => e.tree :: is.trees

end

def Stmt.tree (s : Stmt) : Tree := .over s.span "stmt" [s.expr.tree]

/-- The tree of a sentence. An empty program covers nothing. -/
def Sentence.tree : Sentence → Tree
  | .program stmts => .node "main" ((spanOf? stmts).map .ofSpan) (stmts.map Stmt.tree)
  | .expr e => e.tree

end Phrase

end RuleTree
