import RuleTree.Ast.Kind

/-!
# Nodes of any kind

What a builder yields when the kind is chosen at run time.
-/

namespace RuleTree

/-- A typed node of any kind that has nodes. -/
inductive Node
  | program (p : Program)
  | statement (s : Statement)
  | expression (e : Expression)
  | params (items : List Expression)
  | array (items : List Expression)
  | tuple (items : List Expression)
  | term (t : Term)
  | value (v : Value)
  | primitive (p : Primitive)
  | operator (o : Operator)
  | marker (o : Operator)
  | integer (radix : Radix) (value : Int)
  | numeral (radix : Radix) (value : Int)
  | float (value : Binary64)
  | char (value : Char)
  | string (text : String)
  | anySequence (items : List Expression)
  | anyMarker
  | anyNumeral (value : Int)

namespace Node

def kind : Node → Kind
  | program _ => .program
  | statement _ => .statement
  | expression _ => .expression
  | params _ => .params
  | array _ => .array
  | tuple _ => .tuple
  | term _ => .term
  | value _ => .value
  | primitive _ => .primitive
  | operator _ => .operator
  | marker o => .marker o
  | integer .. => .integer
  | numeral r _ => .numeral r
  | float _ => .float
  | char _ => .char
  | string _ => .string
  | anySequence _ => .anySequence
  | anyMarker => .anyMarker
  | anyNumeral _ => .anyNumeral

/-- Nodes are the same if they are of one kind and hold the same. -/
def same : Node → Node → Bool
  | program p, program q => p == q
  | statement s, statement t => s == t
  | expression e, expression f => e.same f
  | params es, params fs => sameItems es fs
  | array es, array fs => sameItems es fs
  | tuple es, tuple fs => sameItems es fs
  | term t, term u => t.same u
  | value v, value w => v.same w
  | primitive p, primitive q => p.same q
  | operator o, operator p => o == p
  | marker o, marker p => o == p
  | integer r m, integer s n => r == s && m == n
  | numeral r m, numeral s n => r == s && m == n
  | float x, float y => x.same y
  | char c, char d => c == d
  | string s, string t => s == t
  | anySequence es, anySequence fs => sameItems es fs
  | anyMarker, anyMarker => true
  | anyNumeral m, anyNumeral n => m == n
  | _, _ => false

end Node

end RuleTree
