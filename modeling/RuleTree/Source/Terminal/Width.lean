import RuleTree.Source.Terminal

/-!
# Widths of terminals

No terminal is wider than what it is looked for in: `width_le_length`, and the same for each of the
widths that it is made of.
-/

namespace RuleTree

namespace Radix
theorem length_of_dropPrefix? {r : Radix} {cs rest : List Char} (h : r.dropPrefix? cs = some rest) :
    cs.length = rest.length + if r = .decimal then 0 else 2 := by
  cases r <;> simp only [dropPrefix?, marks?] at h <;> (try split at h) <;> grind
end Radix

namespace Terminal

theorem run_le_length (p : Char → Bool) (cs : List Char) : run p cs ≤ cs.length :=
  (List.takeWhile_sublist p).length_le

theorem prefixedWidth_le_length {r : Radix} (hr : r ≠ .decimal) (cs : List Char) :
    prefixedWidth r cs ≤ cs.length := by
  unfold prefixedWidth
  split
  · rename_i rest h
    have h₁ := Radix.length_of_dropPrefix? h
    have h₂ := run_le_length r.isDigit rest
    rw [if_neg hr] at h₁
    split <;> omega
  · exact Nat.zero_le _

theorem wholeWidth_le_length (cs : List Char) : wholeWidth cs ≤ cs.length := by
  unfold wholeWidth
  split
  · rename_i r h
    have hr : r ≠ .decimal := by
      have := List.mem_of_find?_eq_some h
      grind
    exact prefixedWidth_le_length hr cs
  · exact run_le_length _ cs

theorem floatWidth_le_length (cs : List Char) : floatWidth cs ≤ cs.length := by
  have h := wholeWidth_le_length cs
  simp only [floatWidth]
  split
  · rename_i rest hrest
    have h₁ := congrArg List.length hrest
    have h₂ := run_le_length isDecimalDigit rest
    rw [List.length_drop, List.length_cons] at h₁
    split <;> omega
  · exact Nat.zero_le _

theorem charWidth_le_length (cs : List Char) : charWidth cs ≤ cs.length := by
  unfold charWidth
  split
  · rename_i rest
    generalize hn : run (fun c => c ≠ '\'' && c ≠ '\n') rest = n
    simp only
    split
    · rename_i h
      have : n < rest.length := by
        by_cases hlt : n < rest.length
        · exact hlt
        · rw [List.drop_eq_nil_of_le (by omega)] at h
          cases h
      rw [List.length_cons]
      omega
    · exact Nat.zero_le _
  · exact Nat.zero_le _

theorem stringTail?_le_length {cs : List Char} {n : Nat} (h : stringTail? cs = some n) :
    n ≤ cs.length := by
  fun_induction stringTail? cs generalizing n with
  | case1 => cases h; simp
  | case2 => cases h
  | case3 c cs _ ih =>
    obtain ⟨m, hm, rfl⟩ := Option.map_eq_some_iff.1 h
    have := ih hm
    simp only [List.length_cons]
    omega
  | case4 => cases h
  | case5 c cs _ _ _ ih =>
    obtain ⟨m, hm, rfl⟩ := Option.map_eq_some_iff.1 h
    have := ih hm
    simp only [List.length_cons]
    omega
  | case6 => cases h

theorem stringWidth_le_length (cs : List Char) : stringWidth cs ≤ cs.length := by
  unfold stringWidth
  split
  · rename_i rest
    cases h : stringTail? rest with
    | none => exact Nat.zero_le _
    | some n =>
      have := stringTail?_le_length h
      simp only [Option.map_some, Option.getD_some, List.length_cons]
      omega
  · exact Nat.zero_le _

theorem commentWidth_le_length (cs : List Char) : commentWidth cs ≤ cs.length := by
  unfold commentWidth
  split
  · rename_i rest
    have := run_le_length (· ≠ '\n') rest
    simp only [List.length_cons]
    omega
  · exact Nat.zero_le _

theorem width_le_length (v : Vocabulary) (cs : List Char) (t : Terminal) :
    t.width v cs ≤ cs.length := by
  match t with
  | .literal .float => exact floatWidth_le_length cs
  | .literal .hexInt => exact prefixedWidth_le_length (by decide) cs
  | .literal .binInt => exact prefixedWidth_le_length (by decide) cs
  | .literal .octInt => exact prefixedWidth_le_length (by decide) cs
  | .literal .decInt => exact run_le_length _ cs
  | .literal .char => exact charWidth_le_length cs
  | .literal .string => exact stringWidth_le_length cs
  | .blank => exact run_le_length _ cs
  | .comment => exact commentWidth_le_length cs
  | .fixed lexeme =>
    simp only [width]
    split
    · rename_i h
      exact (List.isPrefixOf_iff_prefix.1 h).length_le
    · exact Nat.zero_le _

end Terminal

end RuleTree
