import RuleTree.Builder.Nodes

/-!
# Building by recursion on the tree

What is built of a tree without a queue and a cursor: each function looks at the rule of its node
and at the list of the nodes directly below it, and calls itself on those. There is no limit to how
deep a tree may be.

* `Descent.under`: the rule of a node decides whether a function is for it.
* `Descent.expression` with `operands`, `term`, `value` and `items`: the recursion.
* `Descent.node`: what is built of a tree for each kind.
-/

namespace RuleTree

namespace Tree

theorem sizeOf_subtrees_lt (t : Tree) : sizeOf t.subtrees < sizeOf t := by
  cases t with
  | token leaf =>
    cases leaf
    simp only [subtrees, List.nil.sizeOf_spec, token.sizeOf_spec, Leaf.mk.sizeOf_spec]
    omega
  | node rule region? children =>
    have h : sizeOf (children.filter isNode) ≤ sizeOf children := by
      induction children with
      | nil => exact Nat.le_refl _
      | cons t ts ih =>
        rw [List.filter_cons]
        split <;> simp only [List.cons.sizeOf_spec] <;> omega
    simp only [subtrees, node.sizeOf_spec]
    omega

end Tree

/-- What a descent through a tree is given besides the tree. -/
structure Descent where
  source : Option (Array Char)
  settings : Settings

/-- The rules of the variants of a choice. -/
def Kind.variantRules (k : Kind) : List String := (k.variants?.getD []).map rule

namespace Descent

variable {α : Type} (d : Descent)

/-- What is known of the root of a tree. -/
def site (t : Tree) : Site := ⟨t.rule?.getD "", t.text d.source, t.place⟩

/-! ### Single nodes -/

/-- What is wrong with a node. -/
def reject (site : Site) (cause : FatalCause) : Except Failure α :=
  .error (.fatal ⟨some site, cause⟩)

/-- Nothing is built of what has none of the rules. -/
def decline (expected : List String) (found : Option String) : Except Failure α :=
  .error (.noMatch ⟨expected, found⟩)

/-- What is built of the parts of a node, if it has the rule of the kind. -/
def under (k : Kind) (t : Tree) (parts : Except Failure α) : Except Failure α :=
  if t.rule? = some k.rule then parts else decline [k.rule] t.rule?

/-- A value that is made of a node, of which no child may be left over. -/
def close (site : Site) (a : α) : List Tree → Except Failure α
  | [] => .ok a
  | extra :: _ => reject site (.extraneous (d.site extra))

/-- A part that a node cannot do without. -/
def need (site : Site) (what : String) : Except Failure α → Except Failure α
  | .error (.noMatch m) => reject site (.missingChild what m.found)
  | part => part

/-- A part that may be of another rule. -/
def maybe : Except Failure α → Except Failure (Option α)
  | .ok a => .ok (some a)
  | .error (.noMatch _) => .ok none
  | .error e => .error e

theorem need_of_ne {part : Except Failure α} (h : ∀ m, part ≠ .error (.noMatch m)) (site : Site)
    (what : String) : need site what part = part := by
  unfold need
  split
  · exact absurd rfl (h _)
  · rfl

theorem maybe_of_ne {part : Except Failure α} (h : ∀ m, part ≠ .error (.noMatch m)) :
    maybe part = part.map some := by
  unfold maybe
  split
  · rfl
  · exact absurd rfl (h _)
  · rfl

/-- A choice declines with the rules of all its variants what one of them declines. -/
def declineAs (rules : List String) (found : Option String) : Except Failure α → Except Failure α
  | .error (.noMatch _) => decline rules found
  | part => part

theorem declineAs_of_ne {part : Except Failure α} (h : ∀ m, part ≠ .error (.noMatch m))
    (rules : List String) (found : Option String) : declineAs rules found part = part := by
  unfold declineAs
  split
  · exact absurd rfl (h _)
  · rfl

/-- What the variant for the rule of a node makes of it. `rules` are those of all variants. -/
def selectFrom (rules : List String) (t : Tree) :
    List (Kind × Except Failure α) → Except Failure α
  | [] => decline rules t.rule?
  | (k, part) :: variants =>
    if t.rule? = some k.rule then declineAs rules t.rule? part else selectFrom rules t variants

/-- What the variant of a choice that is for the rule of a node makes of it. -/
def select (t : Tree) (variants : List (Kind × Except Failure α)) : Except Failure α :=
  selectFrom (variants.map (·.1.rule)) t variants

/-- What a choice makes of its node, where no variant contains expressions. -/
def choice (k : Kind) (variants : List (Kind × (Tree → Except Failure α))) (t : Tree) :
    Except Failure α :=
  under k t <|
    match t.subtrees with
    | [] => decline (variants.map (·.1.rule)) none
    | first :: others => do
      let a ← select first (variants.map fun v => (v.1, v.2 first))
      d.close (d.site t) a others

/-- Values of all nodes of a list, which have to be of one kind. -/
def each (k : Kind) (f : Tree → Except Failure α) (site : Site) :
    List Tree → Except Failure (List α)
  | [] => .ok []
  | t :: ts =>
    if t.rule? = some k.rule then do
      let a ← f t
      let as ← each k f site ts
      return a :: as
    else reject site (.extraneous (d.site t))

/-! ### Leaves -/

def marker (k : Kind) (a : α) (t : Tree) : Except Failure α :=
  under k t (d.close (d.site t) a t.subtrees)

/-- The value that the decoder gives the text of a node. -/
def decode (site : Site) (decoder : String → Except Fault α) : Except Failure α :=
  match decoder site.text with
  | .ok a => .ok a
  | .error (.malformed literal) => reject site (.badLiteral literal)
  | .error fault => .error (.limit fault)

def leaf (k : Kind) (decoder : String → Except Fault α) (t : Tree) : Except Failure α :=
  under k t do
    let a ← decode (d.site t) decoder
    d.close (d.site t) a t.subtrees

def numeral (k : Kind) (r : Radix) : Tree → Except Failure Int := d.leaf k (decodeRadixInteger r)

def float : Tree → Except Failure Binary64 :=
  d.leaf .float (if d.settings.radixFloats then decodeRadixFloat else decodeFloat)

def char : Tree → Except Failure Char := d.leaf .char decodeChar

def string : Tree → Except Failure String := d.leaf .string fun text => .ok (decodeString text)

/-! ### Choices between leaves -/

def operator : Tree → Except Failure Operator :=
  d.choice .operator (Operator.all.map fun o => (.marker o, d.marker (.marker o) o))

def integer : Tree → Except Failure (Radix × Int) :=
  d.choice .integer
    ([Radix.decimal, .binary, .octal, .hexadecimal].map fun r =>
      (.numeral r, fun t => (d.numeral (.numeral r) r t).map (r, ·)))

def primitive : Tree → Except Failure Primitive :=
  d.choice .primitive
    [(.integer, fun t => (d.integer t).map fun n => .integer n.1 n.2),
      (.float, fun t => (d.float t).map .float),
      (.char, fun t => (d.char t).map .char)]

/-! ### Expressions -/

mutual

def expression (t : Tree) : Except Failure Expression :=
  under .expression t (operands (d.site t) t.subtrees)
termination_by sizeOf t
decreasing_by exact t.sizeOf_subtrees_lt

/-- An expression of the nodes below it: a term, and perhaps an operator and another term. -/
def operands (site : Site) : List Tree → Except Failure Expression
  | [] => reject site (.missingChild "left operand" none)
  | l :: rest => do
    let left ← need site "left operand" (term l)
    match rest with
    | [] => return .single left
    | o :: rest =>
      match ← maybe (d.operator o) with
      | none => reject site (.extraneous (d.site o))
      | some op =>
        match rest with
        | [] => reject site (.missingChild "right operand" none)
        | r :: rest => do
          let right ← need site "right operand" (term r)
          d.close site (.binary left op right) rest
termination_by ts => sizeOf ts

def term (t : Tree) : Except Failure Term := under .term t (termOf (d.site t) t.subtrees)
termination_by sizeOf t
decreasing_by exact t.sizeOf_subtrees_lt

/-- A term of the nodes below it: a value, or an expression that is a group. -/
def termOf (site : Site) : List Tree → Except Failure Term
  | [] => decline Kind.term.variantRules none
  | t :: rest => do
    let a ← select t
      [(.value, (value t).map .value), (.expression, (expression t).map .group)]
    d.close site a rest
termination_by ts => sizeOf ts

def value (t : Tree) : Except Failure Value := under .value t (valueOf (d.site t) t.subtrees)
termination_by sizeOf t
decreasing_by exact t.sizeOf_subtrees_lt

/-- A value of the nodes below it. -/
def valueOf (site : Site) : List Tree → Except Failure Value
  | [] => decline Kind.value.variantRules none
  | t :: rest => do
    let a ← select t
      [(.primitive, (d.primitive t).map .primitive), (.string, (d.string t).map .string),
        (.array, (sequence .array t).map .array), (.tuple, (sequence .tuple t).map .tuple)]
    d.close site a rest
termination_by ts => sizeOf ts

/-- The items of an array or a tuple. -/
def sequence (k : Kind) (t : Tree) : Except Failure (List Expression) :=
  under k t (items (d.site t) t.subtrees)
termination_by sizeOf t
decreasing_by exact t.sizeOf_subtrees_lt

/-- The nodes below an array or a tuple as expressions. -/
def items (site : Site) : List Tree → Except Failure (List Expression)
  | [] => .ok []
  | t :: ts =>
    if t.rule? = some Kind.expression.rule then do
      let e ← expression t
      let es ← items site ts
      return e :: es
    else reject site (.extraneous (d.site t))
termination_by ts => sizeOf ts

end

/-! ### Statements and programs -/

def statement (t : Tree) : Except Failure Statement :=
  under .statement t ((d.items (d.site t) t.subtrees).map fun _ => {})

def program (t : Tree) : Except Failure Program :=
  under .program t ((d.each .statement d.statement (d.site t) t.subtrees).map .mk)

/-- The expression that a tree is, as the only parameter; none if it is something else. -/
def params (t : Tree) : Except Failure (List Expression) :=
  if t.rule? = some Kind.expression.rule then (d.expression t).map ([·]) else .ok []

/-! ### All kinds -/

/-- What is built of a tree for a kind. -/
def node : Kind → Tree → Except Failure Node
  | .program, t => (d.program t).map .program
  | .statement, t => (d.statement t).map .statement
  | .expression, t => (d.expression t).map .expression
  | .params, t => (d.params t).map .params
  | .array, t => (d.sequence .array t).map .array
  | .tuple, t => (d.sequence .tuple t).map .tuple
  | .term, t => (d.term t).map .term
  | .value, t => (d.value t).map .value
  | .primitive, t => (d.primitive t).map .primitive
  | .operator, t => (d.operator t).map .operator
  | .marker o, t => (d.marker (.marker o) o t).map .marker
  | .integer, t => (d.integer t).map fun n => .integer n.1 n.2
  | .numeral r, t => (d.numeral (.numeral r) r t).map (.numeral r)
  | .float, t => (d.float t).map .float
  | .char, t => (d.char t).map .char
  | .string, t => (d.string t).map .string
  | .anyNode, _ => .error .noBuilder
  | .anyChoice, t => under .anyChoice t (.error .noBuilder)
  | .anySequence, t => (d.sequence .anySequence t).map .anySequence
  | .anyMarker, t => d.marker .anyMarker .anyMarker t
  | .anyNumeral, t => (d.numeral .anyNumeral .decimal t).map .anyNumeral

end Descent

end RuleTree
