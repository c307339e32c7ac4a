/-!
# Sets of characters as code point ranges

A property of characters is kept as the list of the closed code point ranges that have it.
-/

namespace RuleTree

/-- A set of characters: the first and last code point of each of its ranges, in rising order. -/
abbrev CodeRanges := List (Nat × Nat)

namespace CodeRanges

/-- `rs.contains c` says whether `c` lies in one of the ranges. -/
def contains (rs : CodeRanges) (c : Char) : Bool :=
  rs.any fun r => r.1 ≤ c.toNat && c.toNat ≤ r.2

theorem contains_iff {rs : CodeRanges} {c : Char} :
    rs.contains c = true ↔ ∃ r ∈ rs, r.1 ≤ c.toNat ∧ c.toNat ≤ r.2 := by
  simp [contains]

end CodeRanges

end RuleTree
