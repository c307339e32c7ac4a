import RuleTree.Number.Radix
import RuleTree.Text.Quoted

/-!
# Faults of literals

Why the text of a literal has no value. A malformed literal is reported with its text and a reason;
the other faults are limits of the decoders and carry a message of their own.
-/

namespace RuleTree

/-- What is wrong with the text of a literal. -/
inductive Reason
  /-- The text does not begin with the zero and the letter that announce the radix. -/
  | noPrefix (radix : Radix)
  | noDigits
  | badDigit (radix : Radix)
  | tooLarge
  | tooSmall
  | notFloat
  | noPoint
  | emptyChar
  /-- A reason in the words of whoever reports it. -/
  | stated (words : String)
  deriving DecidableEq, Repr

namespace Reason

def message : Reason → String
  | noPrefix radix =>
    match radix.marks? with
    | some (lower, upper) =>
      String.ofList ("expected a 0".toList ++ lower :: " or 0".toList ++ upper :: " prefix".toList)
    | none => "expected no prefix"
  | noDigits => "cannot parse integer from empty string"
  | badDigit radix => "invalid digit found in base " ++ toString radix.base ++ " literal"
  | tooLarge => "number too large to fit in a signed 64-bit integer"
  | tooSmall => "number too small to fit in a signed 64-bit integer"
  | notFloat => "invalid float literal"
  | noPoint => "missing decimal point"
  | emptyChar => "empty character literal"
  | stated words => words

end Reason

/-- A literal whose text is not of the form that its kind asks for. -/
structure Malformed where
  /-- The whole text of the literal. -/
  text : String
  reason : Reason
  /-- Whether the reason was found in a text that was derived from the literal. -/
  derived : Bool := false
  deriving DecidableEq, Repr

/-- The most digits that a decimal integer may have, leading zeros included. -/
def maxDecimalDigits : Nat := 4300

/-- Why a decoder gives no value. -/
inductive Fault
  | malformed (literal : Malformed)
  /-- No radix has this base. -/
  | unsupportedBase (base : Int)
  /-- A decimal integer has more than `maxDecimalDigits` digits. -/
  | tooManyDigits (count : Nat)
  /-- The text has the form of a float but names none. -/
  | unreadable (text : String)
  deriving DecidableEq, Repr

namespace Fault

def message : Fault → String
  | malformed literal => literal.reason.message
  | unsupportedBase base => "unsupported radix " ++ toString base
  | tooManyDigits count =>
    "Exceeds the limit (" ++ toString maxDecimalDigits
      ++ " digits) for integer string conversion: value has " ++ toString count
      ++ " digits; use sys.set_int_max_str_digits() to increase the limit"
  | unreadable text => "could not convert string to float: " ++ quoted text

end Fault

end RuleTree
