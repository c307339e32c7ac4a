/-!
# Digits and radices

The four radices of integer literals, the value of a digit, and the numeral of an integer.

* `Radix.value` reads a run of digits as a number, the most significant digit first.
* `decimalNumeral` writes an integer in decimal.
-/

namespace RuleTree

/-- A radix in which integers are written. -/
inductive Radix
  | binary
  | octal
  | decimal
  | hexadecimal
  deriving DecidableEq, Repr

namespace Radix

/-- The number of digits of the radix. -/
def base : Radix → Nat
  | binary => 2
  | octal => 8
  | decimal => 10
  | hexadecimal => 16

/-- The radix with a given base. -/
def ofBase? (base : Int) : Option Radix :=
  [binary, octal, decimal, hexadecimal].find? fun r => (r.base : Int) == base

/-- The letter after the zero that announces the radix, in its lower-case and upper-case form;
decimal has none. -/
def marks? : Radix → Option (Char × Char)
  | binary => some ('b', 'B')
  | octal => some ('o', 'O')
  | decimal => none
  | hexadecimal => some ('x', 'X')

theorem base_pos (r : Radix) : 0 < r.base := by cases r <;> decide

theorem ofBase?_base (r : Radix) : ofBase? r.base = some r := by cases r <;> decide

end Radix

/-- The value of a decimal digit or of one of the letters from a to f in either case. -/
def digitValue? (c : Char) : Option Nat :=
  if '0' ≤ c ∧ c ≤ '9' then some (c.toNat - '0'.toNat)
  else if 'a' ≤ c ∧ c ≤ 'f' then some (c.toNat - 'a'.toNat + 10)
  else if 'A' ≤ c ∧ c ≤ 'F' then some (c.toNat - 'A'.toNat + 10)
  else none

namespace Radix

/-- `r.isDigit c` says whether `c` is a digit of the radix. -/
def isDigit (r : Radix) (c : Char) : Bool :=
  (digitValue? c).any (· < r.base)

/-- The number written by a run of digits. -/
def value (r : Radix) (digits : List Char) : Nat :=
  digits.foldl (fun n c => n * r.base + (digitValue? c).getD 0) 0

theorem value_nil (r : Radix) : r.value [] = 0 := rfl

theorem value_append (r : Radix) (ds es : List Char) :
    r.value (ds ++ es) = r.value ds * Nat.pow r.base es.length + r.value es := by
  unfold value
  rw [List.foldl_append]
  generalize List.foldl _ 0 ds = n
  induction es generalizing n with
  | nil => simp
  | cons c es ih =>
    rw [List.foldl_cons, ih, List.foldl_cons, ih (0 * _ + _), List.length_cons,
      show Nat.pow r.base (es.length + 1) = Nat.pow r.base es.length * r.base from rfl]
    grind

end Radix

/-- `isDecimalDigit c` says whether `c` is one of the ten digits. -/
def isDecimalDigit (c : Char) : Bool :=
  Radix.decimal.isDigit c

/-- The numeral of an integer in decimal, after a minus sign when it is negative. -/
def decimalNumeral (n : Int) : List Char :=
  if n < 0 then '-' :: Nat.toDigits 10 n.natAbs else Nat.toDigits 10 n.natAbs

end RuleTree
