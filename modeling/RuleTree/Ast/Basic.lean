import RuleTree.Number.Binary64
import RuleTree.Number.Radix
import RuleTree.Source.Token

/-!
# The typed syntax

Programs and their parts as values of their own types. An expression has at most one operator;
longer chains only arise through groups.
-/

namespace RuleTree

/-- A number or a character. -/
inductive Primitive
  | integer (radix : Radix) (value : Int)
  | float (value : Binary64)
  | char (value : Char)
  deriving DecidableEq

mutual

/-- A term, or two terms with an operator between them. -/
inductive Expression
  | single (term : Term)
  | binary (left : Term) (operator : Operator) (right : Term)

/-- A value, or an expression in round brackets. -/
inductive Term
  | value (v : Value)
  | group (e : Expression)

/-- A value. -/
inductive Value
  | primitive (p : Primitive)
  | string (text : String)
  | array (items : List Expression)
  | tuple (items : List Expression)

end

/-- A statement, of which nothing is kept. -/
structure Statement where
  deriving DecidableEq

/-- A program. -/
structure Program where
  statements : List Statement
  deriving DecidableEq

/-! ## Comparison

Two pieces of syntax are the same if they are built alike from the same values, where floats are
compared as numbers. -/

namespace Primitive

def same : Primitive → Primitive → Bool
  | integer r₁ n₁, integer r₂ n₂ => r₁ == r₂ && n₁ == n₂
  | float x, float y => x.same y
  | char c, char d => c == d
  | _, _ => false

end Primitive

mutual

def Expression.same : Expression → Expression → Bool
  | .single t, .single u => t.same u
  | .binary l₁ o₁ r₁, .binary l₂ o₂ r₂ => l₁.same l₂ && o₁ == o₂ && r₁.same r₂
  | _, _ => false

def Term.same : Term → Term → Bool
  | .value v, .value w => v.same w
  | .group e, .group f => e.same f
  | _, _ => false

def Value.same : Value → Value → Bool
  | .primitive p, .primitive q => p.same q
  | .string s, .string t => s == t
  | .array es, .array fs => sameItems es fs
  | .tuple es, .tuple fs => sameItems es fs
  | _, _ => false

def sameItems : List Expression → List Expression → Bool
  | [], [] => true
  | e :: es, f :: fs => e.same f && sameItems es fs
  | _, _ => false

end

end RuleTree
