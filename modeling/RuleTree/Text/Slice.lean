/-!
# Slices of a text

A slice is given by two bounds that count characters. A bound that is absent lies at the end of the
text it bounds, a negative one counts from the end, and both are moved into the text.
-/

namespace RuleTree

/-- The characters of a text. -/
def charsOf (text : String) : Array Char := text.toList.toArray

/-- The place in a text of `length` characters that a bound means. -/
def sliceBound (length : Nat) (bound : Int) : Nat :=
  if bound < 0 then (bound + length).toNat else min bound.toNat length

/-- The part of `xs` from `start` up to `stop`; empty when they are out of order. -/
def slice {α : Type} (xs : Array α) (start stop : Option Int) : List α :=
  let first := (start.map (sliceBound xs.size)).getD 0
  let last := (stop.map (sliceBound xs.size)).getD xs.size
  (xs.extract first last).toList

theorem sliceBound_natCast {length n : Nat} (h : n ≤ length) : sliceBound length n = n := by
  unfold sliceBound
  rw [if_neg (by omega)]
  omega

theorem sliceBound_le (length : Nat) (bound : Int) : sliceBound length bound ≤ length := by
  unfold sliceBound
  split <;> omega

theorem slice_natCast {α : Type} (xs : Array α) {m n : Nat} (hm : m ≤ xs.size) (hn : n ≤ xs.size) :
    slice xs (some m) (some n) = (xs.toList.take n).drop m := by
  simp [slice, sliceBound_natCast hm, sliceBound_natCast hn, List.extract_eq_take_drop,
    List.drop_take]

end RuleTree
