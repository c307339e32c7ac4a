import RuleTree.Literal.Fault

/-!
# Integer literals

An integer literal is the prefix of its radix (none for decimal), an optional sign and one or more
digits, and its value has to fit in a signed word of 64 bits.

* `integerOfChars` decodes the characters of such a literal and reports the first check that fails.
* `decodeInteger` does it for a text, under a radix that is given by its base.
-/

namespace RuleTree

/-- Whether a text begins with a minus sign, and the text without its sign. -/
def splitSign : List Char → Bool × List Char
  | '-' :: cs => (true, cs)
  | '+' :: cs => (false, cs)
  | cs => (false, cs)

namespace Radix

/-- The text after the prefix of the radix, if it begins with that prefix. -/
def dropPrefix? (r : Radix) (cs : List Char) : Option (List Char) :=
  match r.marks? with
  | none => some cs
  | some (lower, upper) =>
    match cs with
    | '0' :: mark :: rest => if mark = lower ∨ mark = upper then some rest else none
    | _ => none

end Radix

/-- The least integer of a signed word of 64 bits. -/
def minWord : Int := -0x8000000000000000

/-- The greatest integer of a signed word of 64 bits. -/
def maxWord : Int := 0x7fffffffffffffff

/-- What can be wrong with an integer literal: a reason, or more decimal digits than allowed. -/
abbrev IntegerFault := Reason ⊕ Nat

/-- The integer that `cs` writes in the radix `r`. -/
def integerOfChars (r : Radix) (cs : List Char) : Except IntegerFault Int :=
  match r.dropPrefix? cs with
  | none => .error (.inl (.noPrefix r))
  | some body =>
    let (negative, digits) := splitSign body
    if digits = [] then .error (.inl .noDigits)
    else if digits.all r.isDigit = false then .error (.inl (.badDigit r))
    else if r = .decimal ∧ maxDecimalDigits < digits.length then .error (.inr digits.length)
    else
      let value : Int := if negative then -(r.value digits) else r.value digits
      if maxWord < value then .error (.inl .tooLarge)
      else if value < minWord then .error (.inl .tooSmall)
      else .ok value

/-- The integer that a text writes in a radix. -/
def decodeRadixInteger (r : Radix) (text : String) : Except Fault Int :=
  match integerOfChars r text.toList with
  | .ok value => .ok value
  | .error (.inl reason) => .error (.malformed ⟨text, reason, false⟩)
  | .error (.inr count) => .error (.tooManyDigits count)

/-- The integer that a text writes in the radix with the given base. -/
def decodeInteger (base : Int) (text : String) : Except Fault Int :=
  match Radix.ofBase? base with
  | none => .error (.unsupportedBase base)
  | some r => decodeRadixInteger r text

theorem decodeInteger_base (r : Radix) (text : String) :
    decodeInteger r.base text = decodeRadixInteger r text := by
  simp [decodeInteger, Radix.ofBase?_base]

end RuleTree
