import RuleTree.Number.Radix
import RuleTree.Tree.OfPhrase

/-!
# The grammar and its derivations

The rules of the packaged grammar, each with its right-hand side, and the derivations that they
allow. A derivation knows every choice that was made on the way: which alternative was taken, how
often a part was repeated and whether an optional part is there.

* `Rule.body` is the right-hand side of a rule.
* `Derivation p` holds the derivations of a pattern, and `Derivation.tokens` gives the tokens that
  one of them derives.
* `Derivation.trees` shapes a derivation: a rule becomes a node over the trees of its parts, a named
  terminal stays as a token, a fixed one leaves nothing, and a rule whose name begins with an
  underscore hands its trees to the rule above it.
-/

namespace RuleTree.Grammar

/-- The rules of the grammar. -/
inductive Rule
  | main
  | stmt
  | expr
  | term
  | value
  | primitiveValue
  | array
  | tuple
  | exprs
  | operator
  | op (o : Operator)
  | integer
  | integerIn (r : Radix)
  | float
  | char
  | string
  deriving DecidableEq, Repr

/-- What can stand on the right-hand side of a rule. -/
inductive Pattern
  | named (kind : LiteralKind)
  | fixed (lexeme : Lexeme)
  | rule (r : Rule)
  /-- One pattern after the other. -/
  | both (p q : Pattern)
  | either (p q : Pattern)
  | optional (p : Pattern)
  | many (p : Pattern)

namespace Pattern

/-- The patterns one after another, the last of which is `p`. -/
@[reducible]
def inOrder : List Pattern → Pattern → Pattern
  | [], p => p
  | q :: qs, p => both q (inOrder qs p)

/-- One of the patterns, the last of which is `p`. -/
@[reducible]
def oneOf : List Pattern → Pattern → Pattern
  | [], p => p
  | q :: qs, p => either q (oneOf qs p)

end Pattern

namespace Rule

open Pattern

def name : Rule → String
  | main => "main"
  | stmt => "stmt"
  | expr => "expr"
  | term => "term"
  | value => "value"
  | primitiveValue => "primitive_value"
  | array => "array"
  | tuple => "tuple"
  | exprs => "_exprs"
  | operator => "operator"
  | op .add => "op_add"
  | op .sub => "op_sub"
  | op .mul => "op_mul"
  | op .div => "op_div"
  | op .pow => "op_pow"
  | integer => "integer"
  | integerIn .decimal => "integer_dec"
  | integerIn .binary => "integer_bin"
  | integerIn .octal => "integer_oct"
  | integerIn .hexadecimal => "integer_hex"
  | float => "float"
  | char => "char"
  | string => "string"

/-- The right-hand side of a rule. -/
@[reducible]
def body : Rule → Pattern
  | main => many (rule stmt)
  | stmt => both (rule expr) (fixed .semicolon)
  | expr => both (rule term) (optional (both (rule operator) (rule term)))
  | term =>
    either (rule value)
      (inOrder [fixed (.opening .round), rule expr] (fixed (.closing .round)))
  | value => oneOf [rule primitiveValue, rule string, rule array] (rule tuple)
  | primitiveValue => oneOf [rule integer, rule float] (rule char)
  | array =>
    inOrder [fixed (.opening .square), optional (rule exprs)] (fixed (.closing .square))
  | tuple =>
    either (both (fixed (.opening .round)) (fixed (.closing .round)))
      (inOrder [fixed (.opening .round), rule expr, fixed .comma, optional (rule exprs)]
        (fixed (.closing .round)))
  | exprs =>
    inOrder [rule expr, many (both (fixed .comma) (rule expr))] (optional (fixed .comma))
  | operator =>
    oneOf [rule (op .add), rule (op .sub), rule (op .mul), rule (op .div)] (rule (op .pow))
  | op o => fixed (.operator o)
  | integer =>
    oneOf [rule (integerIn .decimal), rule (integerIn .binary), rule (integerIn .octal)]
      (rule (integerIn .hexadecimal))
  | integerIn .decimal => named .decInt
  | integerIn .binary => named .binInt
  | integerIn .octal => named .octInt
  | integerIn .hexadecimal => named .hexInt
  | float => named .float
  | char => named .char
  | string => named .string

/-- A rule whose name begins with an underscore makes no node of its own. -/
def isInlined (r : Rule) : Bool := r.name.toList.head? = some '_'

end Rule

/-- The derivations of a pattern. -/
inductive Derivation : Pattern → Type
  | named (kind : LiteralKind) (text : String) (span : Span) : Derivation (.named kind)
  | fixed (lexeme : Lexeme) (span : Span) : Derivation (.fixed lexeme)
  | rule (r : Rule) (d : Derivation r.body) : Derivation (.rule r)
  | both {p q : Pattern} (d : Derivation p) (e : Derivation q) : Derivation (.both p q)
  | left {p q : Pattern} (d : Derivation p) : Derivation (.either p q)
  | right {p q : Pattern} (d : Derivation q) : Derivation (.either p q)
  | absent {p : Pattern} : Derivation (.optional p)
  | present {p : Pattern} (d : Derivation p) : Derivation (.optional p)
  | done {p : Pattern} : Derivation (.many p)
  | more {p : Pattern} (d : Derivation p) (ds : Derivation (.many p)) : Derivation (.many p)

/-- From the first to the last of some tokens, if there are any. -/
def spanOfTokens? (ts : List Token) : Option Span :=
  match ts.head?, ts.getLast? with
  | some first, some last => some (first.span.through last.span)
  | _, _ => none

namespace Derivation

/-- The tokens that are derived, in order. -/
def tokens {p : Pattern} : Derivation p → List Token
  | named kind text span => [⟨.literal kind text, span⟩]
  | fixed lexeme span => [⟨lexeme, span⟩]
  | rule _ d => d.tokens
  | both d e => d.tokens ++ e.tokens
  | left d => d.tokens
  | right d => d.tokens
  | absent => []
  | present d => d.tokens
  | done => []
  | more d ds => d.tokens ++ ds.tokens

/-- The number of steps of a derivation. -/
def size {p : Pattern} : Derivation p → Nat
  | named .. => 1
  | fixed .. => 1
  | rule _ d => d.size + 1
  | both d e => d.size + e.size + 1
  | left d => d.size + 1
  | right d => d.size + 1
  | absent => 1
  | present d => d.size + 1
  | done => 1
  | more d ds => d.size + ds.size + 1

/-- The trees that a derivation leaves in the node of the rule around it. -/
def trees {p : Pattern} : Derivation p → List Tree
  | named kind text span => [.token ⟨kind.name, text, .ofSpan span⟩]
  | fixed _ _ => []
  | rule r d =>
    if r.isInlined then d.trees
    else [.node r.name ((spanOfTokens? d.tokens).map .ofSpan) d.trees]
  | both d e => d.trees ++ e.trees
  | left d => d.trees
  | right d => d.trees
  | absent => []
  | present d => d.trees
  | done => []
  | more d ds => d.trees ++ ds.trees

end Derivation

end RuleTree.Grammar
