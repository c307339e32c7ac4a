import RuleTree.Ast.Basic
import RuleTree.Tree.OfPhrase

/-!
# Kinds of nodes

The kinds of typed nodes, each with its name, the rule that it is built from and the more general
kinds above it. The kinds that are called general have kinds below them and are not the kind of any
node in the tree of a source.
-/

namespace RuleTree

/-- A kind of typed node. -/
inductive Kind
  | program
  | statement
  | expression
  | params
  | array
  | tuple
  | term
  | value
  | primitive
  | operator
  | marker (o : Operator)
  | integer
  | numeral (r : Radix)
  | float
  | char
  | string
  | anyNode
  | anyChoice
  | anySequence
  | anyMarker
  | anyNumeral
  deriving DecidableEq, Repr

namespace Kind

def name : Kind → String
  | program => "Program"
  | statement => "Statement"
  | expression => "Expression"
  | params => "Params"
  | array => "ArrayLiteral"
  | tuple => "TupleLiteral"
  | term => "Term"
  | value => "Value"
  | primitive => "PrimitiveValue"
  | operator => "Operator"
  | marker .add => "Add"
  | marker .sub => "Sub"
  | marker .mul => "Mul"
  | marker .div => "Div"
  | marker .pow => "Pow"
  | integer => "Integer"
  | numeral .binary => "IntegerBin"
  | numeral .octal => "IntegerOct"
  | numeral .decimal => "IntegerDec"
  | numeral .hexadecimal => "IntegerHex"
  | float => "Float"
  | char => "Char"
  | string => "StringLiteral"
  | anyNode => "AstNode"
  | anyChoice => "Choice"
  | anySequence => "SequenceLiteral"
  | anyMarker => "Marker"
  | anyNumeral => "RadixInteger"

def all : List Kind :=
  [program, statement, expression, params, array, tuple, term, value, primitive, operator]
    ++ Operator.all.map marker ++ [integer]
    ++ [numeral .decimal, numeral .binary, numeral .octal, numeral .hexadecimal]
    ++ [float, char, string, anyNode, anyChoice, anySequence, anyMarker, anyNumeral]

/-- The kind of a given name. -/
def ofName? (name : String) : Option Kind :=
  all.find? (·.name == name)

theorem mem_all (k : Kind) : k ∈ all := by
  cases k with
  | marker o => cases o <;> decide
  | numeral r => cases r <;> decide
  | _ => decide

/-- The rule of the nodes in a tree that a kind is built from. Parameters and the general kinds have
none of their own. -/
def rule : Kind → String
  | program => "main"
  | statement => "stmt"
  | expression => "expr"
  | array => "array"
  | tuple => "tuple"
  | term => "term"
  | value => "value"
  | primitive => "primitive_value"
  | operator => "operator"
  | marker o => o.rule
  | integer => "integer"
  | numeral .binary => "integer_bin"
  | numeral .octal => "integer_oct"
  | numeral .decimal => "integer_dec"
  | numeral .hexadecimal => "integer_hex"
  | float => "float"
  | char => "char"
  | string => "string"
  | params | anyNode | anyChoice | anySequence | anyMarker | anyNumeral => ""

/-- The general kinds above a kind, the nearest first. -/
def ancestors : Kind → List Kind
  | anyNode => []
  | array | tuple => [anySequence, anyNode]
  | term | value | primitive | operator | integer => [anyChoice, anyNode]
  | marker _ => [anyMarker, anyNode]
  | numeral _ => [anyNumeral, anyNode]
  | _ => [anyNode]

/-- The symbol of a kind of markers. -/
def symbol? : Kind → Option String
  | marker o => some o.symbol
  | anyMarker => some ""
  | _ => none

/-- The radix of a kind of numerals. -/
def radix? : Kind → Option Radix
  | numeral r => some r
  | anyNumeral => some .decimal
  | _ => none

/-- The kinds that a choice is between, in the order in which they are tried. -/
def variants? : Kind → Option (List Kind)
  | term => some [value, expression]
  | value => some [primitive, string, array, tuple]
  | primitive => some [integer, float, char]
  | operator => some (Operator.all.map marker)
  | integer => some [numeral .decimal, numeral .binary, numeral .octal, numeral .hexadecimal]
  | _ => none

/-- What is known of a kind. -/
structure Profile where
  rule : String
  ancestors : List Kind
  symbol? : Option String
  radix? : Option Radix
  variants? : Option (List Kind)

/-- What is known of a kind; nothing of choices in general, because their variants are open. -/
def profile? (k : Kind) : Option Profile :=
  if k = anyChoice then none
  else some ⟨k.rule, k.ancestors, k.symbol?, k.radix?, k.variants?⟩

end Kind

end RuleTree
