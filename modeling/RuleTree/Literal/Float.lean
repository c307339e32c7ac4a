import RuleTree.Literal.Integer
import RuleTree.Number.Binary64

/-!
# Float literals

A float literal is an optional sign before one of the words for infinity and NaN or before a decimal
number in scientific notation, and it means the binary64 number nearest to what is written.

* `FloatForm.ofChars?` recognises the literals.
* `decodeFloat` decodes a text.
* `decodeRadixFloat` decodes a text whose integer part may carry the prefix of a radix.
-/

namespace RuleTree

/-- What a float literal writes. -/
inductive FloatForm
  /-- The number `coefficient * 10 ^ exponent`, with a sign. -/
  | scientific (negative : Bool) (coefficient : Nat) (exponent : Int)
  | infinity (negative : Bool)
  | nan
  /-- A word for infinity that has a dotless or dotted variant of the letter i. -/
  | strangeWord
  deriving DecidableEq, Repr

namespace FloatForm

/-- The variants of the letter i that differ from it by more than their case. -/
def isStrangeLetter (c : Char) : Bool :=
  c = '\u0131' || c = '\u0130'

/-- `c` is the small letter `letter` in either case, where i has two more variants. -/
def matchesLetter (letter c : Char) : Bool :=
  c.toLower = letter || (letter = 'i' && isStrangeLetter c)

/-- `cs` is `word` letter by letter. -/
def matchesWord : List Char → List Char → Bool
  | [], [] => true
  | letter :: word, c :: cs => matchesLetter letter c && matchesWord word cs
  | _, _ => false

/-- The words for infinity. -/
def infinityWords : List (List Char) :=
  ["inf".toList, "infinity".toList]

/-- The exponent part of a number: nothing, or a letter e, an optional sign and digits. -/
def exponentOfChars? : List Char → Option Int
  | [] => some 0
  | mark :: cs =>
    let (negative, digits) := splitSign cs
    if (mark = 'e' ∨ mark = 'E') ∧ digits ≠ [] ∧ digits.all isDecimalDigit then
      some (if negative then -(Radix.decimal.value digits) else Radix.decimal.value digits)
    else none

/-- The digits after a point, and what follows them; no digits where no point stands. -/
def splitFraction : List Char → List Char × List Char
  | '.' :: cs => (cs.takeWhile isDecimalDigit, cs.dropWhile isDecimalDigit)
  | cs => ([], cs)

/-- A number without sign, as its coefficient and its exponent. -/
def numberOfChars? (cs : List Char) : Option (Nat × Int) :=
  let whole := cs.takeWhile isDecimalDigit
  let (fraction, rest) := splitFraction (cs.dropWhile isDecimalDigit)
  if whole ++ fraction = [] then none
  else (exponentOfChars? rest).map fun exponent =>
    (Radix.decimal.value (whole ++ fraction), exponent - fraction.length)

/-- What `cs` writes, if it has the form of a float literal. -/
def ofChars? (cs : List Char) : Option FloatForm :=
  let (negative, body) := splitSign cs
  if infinityWords.any (matchesWord · body) then
    some (if body.any isStrangeLetter then strangeWord else infinity negative)
  else if matchesWord "nan".toList body then some nan
  else (numberOfChars? body).map fun number => scientific negative number.1 number.2

end FloatForm

/-- The binary64 number that a text writes. -/
def decodeFloat (text : String) : Except Fault Binary64 :=
  match FloatForm.ofChars? text.toList with
  | none => .error (.malformed ⟨text, .notFloat, false⟩)
  | some .strangeWord => .error (.unreadable text)
  | some .nan => .ok .nan
  | some (.infinity negative) => .ok (.signed negative .infinity)
  | some (.scientific negative coefficient exponent) =>
    .ok (.signed negative (.ofDecimal coefficient exponent))

/-- The radix whose prefix the text begins with. -/
def prefixRadix? (cs : List Char) : Option Radix :=
  [Radix.binary, .octal, .hexadecimal].find? fun r => (r.dropPrefix? cs).isSome

/-- The integer part of a float, in decimal where it carries the prefix of a radix. -/
def decimalPart (integer : List Char) : Except Fault (List Char) :=
  match prefixRadix? integer with
  | none => .ok integer
  | some r => (decodeRadixInteger r (String.ofList integer)).map decimalNumeral

/-- A fault found in a text that was derived from `text`, as a fault of `text`. -/
def Fault.derivedFrom (text : String) : Fault → Fault
  | .malformed literal => .malformed ⟨text, literal.reason, true⟩
  | fault => fault

/-- The binary64 number that a text writes, where the part before the point may be an integer with
the prefix of its radix. -/
def decodeRadixFloat (text : String) : Except Fault Binary64 :=
  match text.toList.dropWhile (· ≠ '.') with
  | [] => .error (.malformed ⟨text, .noPoint, false⟩)
  | point :: fraction =>
    (do
      let integer ← decimalPart (text.toList.takeWhile (· ≠ '.'))
      decodeFloat (String.ofList (integer ++ point :: fraction))).mapError (Fault.derivedFrom text)

end RuleTree
