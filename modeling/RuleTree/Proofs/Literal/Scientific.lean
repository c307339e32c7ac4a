import Mathlib.Algebra.Field.Rat
import Mathlib.Algebra.Order.Ring.Rat
import Mathlib.Tactic.FieldSimp
import Mathlib.Tactic.Ring
import RuleTree.Literal.Float
import RuleTree.Proofs.Literal.Integer
import RuleTree.Proofs.Source.Taking

/-!
# Numbers in scientific notation

The texts of decimal numbers, with a sign, a point and an exponent, and the rational number that
each of them is. What a float is read as is the same number.

* `Mantissa`, `ExponentPart`: the two parts of a number without its sign.
* `Scientific`: the number that a text writes, with its sign apart.
* `exponentOfChars?_eq_some_iff`, `exists_numberOfChars?_iff`: the reader of numbers, part by part.
-/

namespace RuleTree

/-- Decimal digits with an optional point, and the number that they are: there is at least one
digit, before the point or behind it. -/
inductive Mantissa : List Char → ℚ → Prop
  | integer {whole : List Char} {n : Nat} (hne : whole ≠ [])
    (hwhole : Radix.decimal.Denotes whole n) : Mantissa whole n
  | pointed {whole fraction : List Char} {n m : Nat} (hne : whole ≠ [] ∨ fraction ≠ [])
    (hwhole : Radix.decimal.Denotes whole n) (hfraction : Radix.decimal.Denotes fraction m) :
    Mantissa (whole ++ '.' :: fraction) (n + m / 10 ^ fraction.length)

/-- Nothing, or a letter e in either case before an integer; and the power of ten that it is. -/
inductive ExponentPart : List Char → ℤ → Prop
  | absent : ExponentPart [] 0
  | present {mark : Char} {sign digits : List Char} {negative : Bool} {n : Nat}
    (hmark : mark = 'e' ∨ mark = 'E') (hsign : IsSign sign negative) (hne : digits ≠ [])
    (hdigits : Radix.decimal.Denotes digits n) :
    ExponentPart (mark :: (sign ++ digits)) (withSign negative n)

/-- The text is a sign, if any, before a number in scientific notation, and `x` is that number
without its sign. -/
def Scientific (text : List Char) (negative : Bool) (x : ℚ) : Prop :=
  ∃ (sign mantissa exponent : List Char) (q : ℚ) (e : ℤ),
    text = sign ++ (mantissa ++ exponent) ∧ IsSign sign negative ∧ Mantissa mantissa q ∧
      ExponentPart exponent e ∧ x = q * 10 ^ e

theorem denotes_decimal_iff {digits : List Char} {n : Nat} :
    Radix.decimal.Denotes digits n ↔
      (∀ c ∈ digits, isDecimalDigit c = true) ∧ Radix.decimal.value digits = n :=
  Radix.denotes_iff

theorem digits_append {digits rest : List Char} (hdigits : ∀ c ∈ digits, isDecimalDigit c = true)
    (hrest : ∀ c ∈ rest.head?, isDecimalDigit c = false) :
    (digits ++ rest).takeWhile isDecimalDigit = digits ∧
      (digits ++ rest).dropWhile isDecimalDigit = rest := by
  have htake := Terminal.takeWhile_append hdigits hrest
  have hsplit := List.takeWhile_append_dropWhile (p := isDecimalDigit) (l := digits ++ rest)
  rw [htake] at hsplit
  exact ⟨htake, List.append_cancel_left hsplit⟩

/-! ### Exponents -/

namespace ExponentPart

variable {text : List Char} {e : ℤ}

theorem head_eq (h : ExponentPart text e) : ∀ c ∈ text.head?, c = 'e' ∨ c = 'E' := by
  cases h with
  | absent => simp
  | present hmark => simpa using hmark

theorem isDecimalDigit_head (h : ExponentPart text e) :
    ∀ c ∈ text.head?, isDecimalDigit c = false := by
  intro c hc
  rcases h.head_eq c hc with rfl | rfl
  · decide
  · decide

theorem ne_point_head (h : ExponentPart text e) : ∀ c ∈ text.head?, c ≠ '.' := by
  intro c hc
  rcases h.head_eq c hc with rfl | rfl
  · decide
  · decide

end ExponentPart

theorem exponentOfChars?_cons (mark : Char) (cs : List Char) :
    FloatForm.exponentOfChars? (mark :: cs) =
      if (mark = 'e' ∨ mark = 'E') ∧ (splitSign cs).2 ≠ [] ∧
        (splitSign cs).2.all isDecimalDigit then
        some (withSign (splitSign cs).1 (Radix.decimal.value (splitSign cs).2))
      else none := rfl

theorem exponentOfChars?_eq_some_iff {text : List Char} {e : ℤ} :
    FloatForm.exponentOfChars? text = some e ↔ ExponentPart text e := by
  constructor
  · intro h
    cases text with
    | nil =>
      cases h
      exact .absent
    | cons mark cs =>
      rw [exponentOfChars?_cons, Option.ite_none_right_eq_some, Option.some.injEq] at h
      obtain ⟨⟨hmark, hne, hdigits⟩, rfl⟩ := h
      obtain ⟨sign, hsign, hcs⟩ := exists_sign cs
      have hdenotes := denotes_decimal_iff.mpr ⟨List.all_eq_true.mp hdigits, rfl⟩
      generalize splitSign cs = parts at *
      rw [hcs]
      exact .present hmark hsign hne hdenotes
  · intro h
    cases h with
    | absent => rfl
    | present hmark hsign hne hdigits =>
      obtain ⟨hall, rfl⟩ := denotes_decimal_iff.mp hdigits
      rw [exponentOfChars?_cons, splitSign_digits (r := .decimal) hsign hall]
      exact if_pos ⟨hmark, hne, List.all_eq_true.mpr hall⟩

/-! ### Mantissas -/

theorem Mantissa.head_cases {text : List Char} {q : ℚ} (h : Mantissa text q) :
    ∃ c cs, text = c :: cs ∧ (isDecimalDigit c = true ∨ c = '.') := by
  cases h with
  | integer hne hwhole =>
    cases text with
    | nil => exact absurd rfl hne
    | cons c cs =>
      exact ⟨c, cs, rfl, .inl ((denotes_decimal_iff.mp hwhole).1 c List.mem_cons_self)⟩
  | @pointed whole fraction _ _ _ hwhole _ =>
    cases whole with
    | nil => exact ⟨'.', fraction, rfl, .inr rfl⟩
    | cons c cs =>
      exact ⟨c, _, rfl, .inl ((denotes_decimal_iff.mp hwhole).1 c List.mem_cons_self)⟩

/-! ### Numbers -/

section

variable {whole fraction rest : List Char}

theorem numberOfChars?_integer (hwhole : ∀ c ∈ whole, isDecimalDigit c = true)
    (hdigit : ∀ c ∈ rest.head?, isDecimalDigit c = false) (hpoint : ∀ c ∈ rest.head?, c ≠ '.') :
    FloatForm.numberOfChars? (whole ++ rest) =
      if whole = [] then none
      else (FloatForm.exponentOfChars? rest).map fun e => (Radix.decimal.value whole, e) := by
  obtain ⟨htake, hdrop⟩ := digits_append hwhole hdigit
  have hsplit : FloatForm.splitFraction rest = ([], rest) := by
    cases rest with
    | nil => rfl
    | cons c cs => simp [FloatForm.splitFraction, hpoint c rfl]
  unfold FloatForm.numberOfChars?
  simp [htake, hdrop, hsplit]

theorem numberOfChars?_pointed (hwhole : ∀ c ∈ whole, isDecimalDigit c = true)
    (hfraction : ∀ c ∈ fraction, isDecimalDigit c = true)
    (hdigit : ∀ c ∈ rest.head?, isDecimalDigit c = false) :
    FloatForm.numberOfChars? (whole ++ '.' :: (fraction ++ rest)) =
      if whole = [] ∧ fraction = [] then none
      else (FloatForm.exponentOfChars? rest).map fun e =>
        (Radix.decimal.value (whole ++ fraction), e - (fraction.length : ℤ)) := by
  have hhead : ∀ c ∈ ('.' :: (fraction ++ rest)).head?, isDecimalDigit c = false := by
    intro c hc
    cases hc
    decide
  obtain ⟨htake, hdrop⟩ := digits_append hwhole hhead
  obtain ⟨htake', hdrop'⟩ := digits_append hfraction hdigit
  unfold FloatForm.numberOfChars?
  simp [htake, hdrop, FloatForm.splitFraction, htake', hdrop']

theorem pointed_value (whole fraction : List Char) (e : ℤ) :
    (Radix.decimal.value (whole ++ fraction) : ℚ) * 10 ^ (e - (fraction.length : ℤ)) =
      (Radix.decimal.value whole + Radix.decimal.value fraction / 10 ^ fraction.length) *
        10 ^ e := by
  have hten : (10 : ℚ) ≠ 0 := by norm_num
  rw [Radix.value_append, zpow_sub₀ hten, zpow_natCast, show Radix.decimal.base = 10 from rfl,
    Nat.pow_eq, Nat.cast_add, Nat.cast_mul, Nat.cast_pow, Nat.cast_ofNat]
  field_simp

end

theorem exists_digits (cs : List Char) :
    ∃ digits rest, cs = digits ++ rest ∧ (∀ c ∈ digits, isDecimalDigit c = true) ∧
      ∀ c ∈ rest.head?, isDecimalDigit c = false := by
  refine ⟨cs.takeWhile isDecimalDigit, cs.dropWhile isDecimalDigit,
    List.takeWhile_append_dropWhile.symm, fun c hc => Terminal.mem_takeWhile hc, fun c hc => ?_⟩
  have hhead := List.head?_dropWhile_not isDecimalDigit cs
  rw [hc] at hhead
  simpa using hhead

/-- A text without sign is read as a number if it is a mantissa with an exponent, and as the number
that they write. -/
theorem exists_numberOfChars?_iff {cs : List Char} {x : ℚ} :
    (∃ c e, FloatForm.numberOfChars? cs = some (c, e) ∧ x = c * 10 ^ e) ↔
      ∃ mantissa exponent q e, cs = mantissa ++ exponent ∧ Mantissa mantissa q ∧
        ExponentPart exponent e ∧ x = q * 10 ^ e := by
  constructor
  · rintro ⟨c, e, hnumber, rfl⟩
    obtain ⟨whole, rest, rfl, hwhole, hdigit⟩ := exists_digits cs
    by_cases hpoint : rest.head? = some '.'
    · obtain ⟨tail, rfl⟩ := List.head?_eq_some_iff.mp hpoint
      obtain ⟨fraction, rest, rfl, hfraction, hdigit⟩ := exists_digits tail
      rw [numberOfChars?_pointed hwhole hfraction hdigit] at hnumber
      split at hnumber
      · cases hnumber
      · rename_i hne
        obtain ⟨e, he, heq⟩ := Option.map_eq_some_iff.mp hnumber
        cases heq
        refine ⟨whole ++ '.' :: fraction, rest, _, e, by simp,
          .pointed (by rwa [not_and_or] at hne) (denotes_decimal_iff.mpr ⟨hwhole, rfl⟩)
            (denotes_decimal_iff.mpr ⟨hfraction, rfl⟩), exponentOfChars?_eq_some_iff.mp he,
          pointed_value whole fraction e⟩
    · rw [numberOfChars?_integer hwhole hdigit (by rintro c hc rfl; exact hpoint hc)] at hnumber
      split at hnumber
      · cases hnumber
      · rename_i hne
        obtain ⟨e, he, heq⟩ := Option.map_eq_some_iff.mp hnumber
        cases heq
        exact ⟨whole, rest, _, e, rfl, .integer hne (denotes_decimal_iff.mpr ⟨hwhole, rfl⟩),
          exponentOfChars?_eq_some_iff.mp he, rfl⟩
  · rintro ⟨mantissa, exponent, q, e, rfl, hmantissa, hexponent, rfl⟩
    have he := exponentOfChars?_eq_some_iff.mpr hexponent
    cases hmantissa with
    | integer hne hwhole =>
      obtain ⟨hall, rfl⟩ := denotes_decimal_iff.mp hwhole
      refine ⟨_, e, ?_, rfl⟩
      rw [numberOfChars?_integer hall hexponent.isDecimalDigit_head hexponent.ne_point_head,
        if_neg hne, he, Option.map_some]
    | @pointed whole fraction _ _ hne hwhole hfraction =>
      obtain ⟨hall, rfl⟩ := denotes_decimal_iff.mp hwhole
      obtain ⟨hall', rfl⟩ := denotes_decimal_iff.mp hfraction
      refine ⟨_, _, ?_, (pointed_value whole fraction e).symm⟩
      rw [List.append_assoc, List.cons_append,
        numberOfChars?_pointed hall hall' hexponent.isDecimalDigit_head,
        if_neg (not_and_or.mpr hne), he, Option.map_some]

theorem head_of_number {cs : List Char} {number : Nat × ℤ}
    (h : FloatForm.numberOfChars? cs = some number) :
    ∃ c rest, cs = c :: rest ∧ (isDecimalDigit c = true ∨ c = '.') := by
  obtain ⟨mantissa, exponent, _, _, rfl, hmantissa, -⟩ :=
    exists_numberOfChars?_iff.mp ⟨number.1, number.2, h, rfl⟩
  obtain ⟨c, rest, rfl, hc⟩ := hmantissa.head_cases
  exact ⟨c, rest ++ exponent, rfl, hc⟩

end RuleTree
