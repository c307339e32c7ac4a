import RuleTree.Ast.Node
import RuleTree.Builder.Basic
import RuleTree.Literal.Float
import RuleTree.Literal.Quotation

/-!
# The builders of all kinds

Expressions contain expressions in groups, arrays and tuples. How deep they may do so is limited by
an allowance, of which each enclosing group, array or tuple takes its share. The builders of parts
are given what is left as a `Nested`, and `expression` ties the knot by recursion on the
allowance.
-/

namespace RuleTree

/-- What a group takes of the nesting allowance. -/
def groupCost : Nat := 4

/-- What an array or a tuple takes of the nesting allowance. -/
def sequenceCost : Nat := 9

/-- The nesting allowance of a conversion. -/
def defaultAllowance : Nat := 900

/-- The builders of the expressions one level further inside, as far as the allowance suffices. -/
structure Nested where
  group? : Option (Builder Expression)
  item? : Option (Builder Expression)

/-- What an allowance leaves, with `build` for the builders under smaller allowances. -/
def Nested.under (allowance : Nat) (build : (a : Nat) → a < allowance → Builder Expression) :
    Nested where
  group? :=
    if h : groupCost ≤ allowance then
      some (build (allowance - groupCost) (Nat.sub_lt_self (by decide) h))
    else none
  item? :=
    if h : sequenceCost ≤ allowance then
      some (build (allowance - sequenceCost) (Nat.sub_lt_self (by decide) h))
    else none

namespace Builder

variable {α : Type}

/-- Runs a builder for nodes with a rule that the allowance may not suffice for. -/
def allowed (rule : String) : Option (Builder α) → Builder α
  | some b => b
  | none => do
    let _ ← expect rule
    fail .tooDeep

/-- A node that is nothing but its rule. -/
def marker (kind : Kind) (a : α) : Builder α :=
  tagged kind.rule fun _ => pure a

/-- A node whose value is decoded from its text. -/
def leaf (kind : Kind) (decoder : Settings → String → Except Fault α) : Builder α :=
  tagged kind.rule fun site => do
    decode site (decoder (← settings))

def numeral (kind : Kind) (r : Radix) : Builder Int :=
  leaf kind fun _ => decodeRadixInteger r

def float : Builder Binary64 :=
  leaf .float fun s => if s.radixFloats then decodeRadixFloat else decodeFloat

def char : Builder Char :=
  leaf .char fun _ => decodeChar

def string : Builder String :=
  leaf .string fun _ text => .ok (decodeString text)

def operator : Builder Operator :=
  choice Kind.operator.rule
    (Operator.all.map fun o => ((Kind.marker o).rule, marker (.marker o) o))

/-- The radix and the value of an integer. -/
def integer : Builder (Radix × Int) :=
  choice Kind.integer.rule
    ([Radix.decimal, .binary, .octal, .hexadecimal].map fun r =>
      ((Kind.numeral r).rule, (r, ·) <$> numeral (.numeral r) r))

def primitive : Builder Primitive :=
  choice Kind.primitive.rule
    [(Kind.integer.rule, (fun n => .integer n.1 n.2) <$> integer),
      (Kind.float.rule, .float <$> float),
      (Kind.char.rule, .char <$> char)]

/-- A node over expressions. -/
def sequence (kind : Kind) (n : Nested) : Builder (List Expression) :=
  allowed kind.rule (n.item?.map fun item => tagged kind.rule fun _ => many item)

def value (n : Nested) : Builder Value :=
  choice Kind.value.rule
    [(Kind.primitive.rule, .primitive <$> primitive),
      (Kind.string.rule, .string <$> string),
      (Kind.array.rule, .array <$> sequence .array n),
      (Kind.tuple.rule, .tuple <$> sequence .tuple n)]

def term (n : Nested) : Builder Term :=
  choice Kind.term.rule
    [(Kind.value.rule, .value <$> value n),
      (Kind.expression.rule, .group <$> allowed Kind.expression.rule n.group?)]

/-- An expression whose parts are built with what is left of the allowance. -/
def expressionWith (n : Nested) : Builder Expression :=
  tagged Kind.expression.rule fun site => do
    let left ← required site "left operand" (term n)
    match ← optional operator with
    | none => return .single left
    | some o => return .binary left o (← required site "right operand" (term n))

/-- An expression under a nesting allowance. -/
def expression (allowance : Nat) (c : Cursor) : Outcome Expression :=
  expressionWith (.under allowance fun a _ => expression a) c
termination_by allowance

/-- What an allowance leaves for the expressions one level further inside. -/
def nested (allowance : Nat) : Nested := .under allowance fun a _ => expression a

theorem expression_eq (allowance : Nat) :
    expression allowance = expressionWith (nested allowance) := by
  funext c
  rw [expression, nested]

def statement (allowance : Nat) : Builder Statement :=
  tagged Kind.statement.rule fun _ => do
    let _ ← many (expression allowance)
    return {}

def program (allowance : Nat) : Builder Program :=
  tagged Kind.program.rule fun _ => Program.mk <$> many (statement allowance)

/-- The builder of a kind. Parameters are the expressions ahead, of which there may be none. -/
def node (allowance : Nat) : Kind → Builder Node
  | .program => .program <$> program allowance
  | .statement => .statement <$> statement allowance
  | .expression => .expression <$> expression allowance
  | .params => .params <$> many (expression allowance)
  | .array => .array <$> sequence .array (nested allowance)
  | .tuple => .tuple <$> sequence .tuple (nested allowance)
  | .term => .term <$> term (nested allowance)
  | .value => .value <$> value (nested allowance)
  | .primitive => .primitive <$> primitive
  | .operator => .operator <$> operator
  | .marker o => .marker <$> marker (.marker o) o
  | .integer => (fun n => .integer n.1 n.2) <$> integer
  | .numeral r => .numeral r <$> numeral (.numeral r) r
  | .float => .float <$> float
  | .char => .char <$> char
  | .string => .string <$> string
  | .anyNode => fail .noBuilder
  | .anyChoice => do
    let _ ← expect Kind.anyChoice.rule
    fail .noBuilder
  | .anySequence => .anySequence <$> sequence .anySequence (nested allowance)
  | .anyMarker => marker .anyMarker .anyMarker
  | .anyNumeral => .anyNumeral <$> numeral .anyNumeral .decimal

end Builder

end RuleTree
