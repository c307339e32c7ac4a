/-!
# Binary64 numbers

A binary floating-point number of 64 bits, as its sign and the pattern of the 63 bits below it. Read
as a natural number the pattern grows with the magnitude that it stands for, so that rounding to the
nearest number is rounding to a natural number.

* `Magnitude.ofQuotient` is the magnitude nearest to a quotient, a tie going to the even pattern.
* `Magnitude.ofDecimal` is the magnitude nearest to a number in scientific notation.
-/

namespace RuleTree

/-- The quotient of `a` by `b` rounded to the nearest natural number, a tie to the even one. -/
def divRound (a b : Nat) : Nat :=
  let q := a / b
  let r := a % b
  if 2 * r < b then q
  else if b < 2 * r then q + 1
  else q + q % 2

theorem divRound_bounds (a b : Nat) (hb : 0 < b) :
    2 * a ≤ (2 * divRound a b + 1) * b ∧ 2 * divRound a b * b ≤ 2 * a + b := by
  have h := Nat.div_add_mod a b
  have h' := Nat.mod_lt a hb
  unfold divRound
  generalize a / b = q at *
  generalize a % b = r at *
  subst h
  simp only
  split
  · grind
  · split
    · grind
    · rcases Nat.mod_two_eq_zero_or_one q with hq | hq <;> rw [hq] <;> grind

/-- The number of fractions that share an exponent: the fraction has 52 bits. -/
def fractionCount : Nat := Nat.pow 2 52

/-- The pattern of infinity: an exponent of eleven one bits and the fraction zero. -/
def infinityPattern : Nat := 2047 * fractionCount

/-- The exponent bits and the fraction bits of a number that is not a NaN. -/
structure Magnitude where
  /-- The 63 bits below the sign. -/
  pattern : Nat
  /-- Beyond infinity lie only patterns of NaNs. -/
  le_infinity : pattern ≤ infinityPattern
  deriving DecidableEq

namespace Magnitude

def zero : Magnitude := ⟨0, Nat.zero_le _⟩

def infinity : Magnitude := ⟨infinityPattern, Nat.le_refl _⟩

/-- The magnitude with a given pattern, or infinity where that would be exceeded. -/
def clamp (pattern : Nat) : Magnitude :=
  ⟨min pattern infinityPattern, Nat.min_le_right _ _⟩

/-- How many units of `2 ^ (-1074)` a finite magnitude is worth. The fraction counts units up to the
second exponent, and from there on each exponent doubles what a step of the fraction is worth. -/
def units (m : Magnitude) : Nat :=
  let exponent := m.pattern / fractionCount
  let fraction := m.pattern % fractionCount
  if exponent = 0 then fraction else (fractionCount + fraction) * Nat.pow 2 (exponent - 1)

/-- The magnitude nearest to `num / den`, a tie going to the even pattern.

With `n` the quotient in units of `2 ^ (-1074)`, the magnitudes around it lie `2 ^ k` units apart,
where `n` has `k` bits more than the 53 that a significand holds. The pattern that stands for `m`
such steps is `k * fractionCount + m`, also when `m` is rounded up to the next power of two. -/
def ofQuotient (num den : Nat) : Magnitude :=
  let n := num * Nat.pow 2 1074
  let k := (n / den).log2 - 52
  clamp (k * fractionCount + divRound n (den * Nat.pow 2 k))

/-- The magnitude nearest to `coefficient * 10 ^ exponent`, a tie going to the even pattern.

Numbers that are certain to lie beyond the largest finite one or below half of the least one are
told by their size, so that no power of ten grows out of hand. -/
def ofDecimal (coefficient : Nat) (exponent : Int) : Magnitude :=
  if coefficient = 0 then zero
  else if 310 ≤ exponent then infinity
  else if (coefficient.log2 + 1076 : Int) ≤ -3 * exponent then zero
  else ofQuotient (coefficient * Nat.pow 10 exponent.toNat) (Nat.pow 10 (-exponent).toNat)

end Magnitude

/-- A binary64 number, with one value for all NaNs. -/
inductive Binary64
  | nan
  | signed (negative : Bool) (magnitude : Magnitude)
  deriving DecidableEq

namespace Binary64

/-- The 64 bits of a number that is not a NaN. -/
def bits? : Binary64 → Option Nat
  | nan => none
  | signed negative m => some ((if negative then Nat.pow 2 63 else 0) + m.pattern)

/-- The comparison of numbers: a NaN equals nothing, and the two zeros are equal. -/
def same : Binary64 → Binary64 → Bool
  | signed n₁ m₁, signed n₂ m₂ => m₁ == m₂ && (n₁ == n₂ || m₁ == Magnitude.zero)
  | _, _ => false

/-- The number with the other sign. -/
def negate : Binary64 → Binary64
  | nan => nan
  | signed negative m => signed (!negative) m

theorem not_same_nan (x : Binary64) : nan.same x = false := by cases x <;> rfl

theorem same_comm (x y : Binary64) : x.same y = y.same x := by
  cases x <;> cases y <;> grind [same]

end Binary64

end RuleTree
