import RuleTree.Proofs.Literal.Defect

/-!
# Numerals

Every number has a numeral in every radix: its digits behind the prefix of the radix.

* `Radix.value_toDigits`: digits are worth the number that they are the digits of.
* `Radix.numeral`: the shortest numeral in lower-case letters, behind the prefix.
* `decodeRadixInteger_numeral`: the decoder reads it back as long as the number fits in a word.
-/

namespace RuleTree

theorem digitValue?_digitChar : ∀ d < 16, digitValue? (Nat.digitChar d) = some d := by decide

namespace Radix

variable {r : Radix}

theorem one_lt_base (r : Radix) : 1 < r.base := by cases r <;> decide

theorem base_le (r : Radix) : r.base ≤ 16 := by cases r <;> decide

theorem digitValue?_of_lt_base {d : Nat} (h : d < r.base) :
    digitValue? (Nat.digitChar d) = some d :=
  digitValue?_digitChar d (Nat.lt_of_lt_of_le h r.base_le)

theorem isDigit_digitChar {d : Nat} (h : d < r.base) : r.isDigit (Nat.digitChar d) = true := by
  rw [isDigit, digitValue?_of_lt_base h, Option.any_some, decide_eq_true_iff]
  exact h

theorem value_digitChar {d : Nat} (h : d < r.base) : r.value [Nat.digitChar d] = d := by
  rw [value, List.foldl_cons, List.foldl_nil, digitValue?_of_lt_base h, Nat.zero_mul, Nat.zero_add,
    Option.getD_some]

theorem div_base_lt {n : Nat} (h : ¬n < r.base) : n / r.base < n :=
  Nat.div_lt_self (Nat.lt_of_lt_of_le r.base_pos (Nat.le_of_not_lt h)) r.one_lt_base

theorem isDigit_of_mem_toDigits (n : Nat) : ∀ c ∈ Nat.toDigits r.base n, r.isDigit c = true := by
  induction n using Nat.strongRecOn with
  | ind n ih =>
    rw [Nat.toDigits_eq_if r.one_lt_base]
    by_cases hn : n < r.base
    · rw [if_pos hn]
      exact List.forall_mem_singleton.mpr (isDigit_digitChar hn)
    · rw [if_neg hn]
      exact List.forall_mem_append.mpr ⟨ih _ (div_base_lt hn),
        List.forall_mem_singleton.mpr (isDigit_digitChar (Nat.mod_lt n r.base_pos))⟩

theorem value_toDigits (n : Nat) : r.value (Nat.toDigits r.base n) = n := by
  induction n using Nat.strongRecOn with
  | ind n ih =>
    rw [Nat.toDigits_eq_if r.one_lt_base]
    by_cases hn : n < r.base
    · rw [if_pos hn, value_digitChar hn]
    · rw [if_neg hn]
      calc
        r.value (Nat.toDigits r.base (n / r.base) ++ [Nat.digitChar (n % r.base)])
          = n / r.base * Nat.pow r.base 1 + n % r.base := by
            rw [value_append, ih _ (div_base_lt hn), value_digitChar (Nat.mod_lt n r.base_pos),
              List.length_singleton]
        _ = n := by
            rw [Nat.mul_comm, Nat.pow_eq, Nat.pow_one]
            exact Nat.div_add_mod n r.base

/-- The digits of a number behind the prefix of the radix. -/
def numeral (r : Radix) (n : Nat) : List Char :=
  match r.marks? with
  | none => Nat.toDigits r.base n
  | some (mark, _) => '0' :: mark :: Nat.toDigits r.base n

theorem dropPrefix?_numeral (n : Nat) :
    r.dropPrefix? (r.numeral n) = some (Nat.toDigits r.base n) := by
  cases r <;> rfl

theorem spells_numeral (n : Nat) : r.Spells (r.numeral n) :=
  ⟨_, dropPrefix?_numeral n, Nat.toDigits_ne_nil, isDigit_of_mem_toDigits n⟩

theorem number_numeral (n : Nat) : r.number (r.numeral n) = n := by
  rw [number, dropPrefix?_numeral, Option.getD_some, value_toDigits]

end Radix

theorem decodeRadixInteger_numeral (r : Radix) {n : Nat} (h : (n : Int) ≤ maxWord) :
    decodeRadixInteger r (String.ofList (r.numeral n)) = .ok n := by
  have hspells : r.Spells (String.ofList (r.numeral n)).toList := by
    rw [String.toList_ofList]
    exact Radix.spells_numeral n
  rw [decodeRadixInteger_of_spells hspells, String.toList_ofList, Radix.number_numeral,
    if_neg (Int.not_lt.mpr h), if_neg]
  rintro ⟨rfl, hlong⟩
  -- nineteen digits are enough
  have hword : n < 10 ^ 19 := by
    unfold maxWord at h
    omega
  have hword : n < 10 ^ maxDecimalDigits :=
    Nat.lt_of_lt_of_le hword (Nat.pow_le_pow_right (by decide) (by decide))
  have hlength := (Nat.length_toDigits_le_iff (b := 10) (by decide) (by decide)).mpr hword
  rw [← String.length_toList, String.toList_ofList] at hlong
  exact Nat.lt_irrefl _ (Nat.lt_of_lt_of_le hlong hlength)

end RuleTree
