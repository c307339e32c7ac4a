import RuleTree.Proofs.Literal.RadixFloat

/-!
# Minus signs of floats

What a minus sign does to a float. In front of a float without a prefix it changes the sign and
nothing else. Behind a prefix it is the sign of the integer part, which is written in decimal before
the fraction is read: there it survives unless the integer part is zero.

* `Binary64.bits?_negate`: the other sign is the highest bit the other way round.
* `decodeFloat_minus`: a minus sign in front of a float.
* `decodeRadixFloat_eq_ok_iff`: a float is read behind its integer part in decimal.
* `decodeRadixFloat_minus`: a minus sign behind a prefix.
-/

namespace RuleTree

open FloatForm (infinityWords isStrangeLetter numberOfChars?)

theorem Binary64.bits?_negate (negative : Bool) (m : Magnitude) :
    ∃ bits, (Binary64.signed negative m).bits? = some bits ∧
      (Binary64.signed negative m).negate.bits? = some (bits ^^^ 2 ^ 63) := by
  obtain ⟨bits, hbits, hhigh, hlow⟩ := Binary64.exists_bits negative m
  obtain ⟨flipped, hflipped, hhigh', hlow'⟩ := Binary64.exists_bits (!negative) m
  refine ⟨bits, hbits, hflipped.trans (congrArg some ?_)⟩
  have hxorLow : (bits ^^^ 2 ^ 63) % 2 ^ 63 = bits % 2 ^ 63 := by
    rw [Nat.xor_mod_two_pow, Nat.mod_self, Nat.xor_zero]
  have hxorHigh : (bits ^^^ 2 ^ 63) / 2 ^ 63 = bits / 2 ^ 63 ^^^ 1 := by
    rw [Nat.xor_div_two_pow, Nat.div_self (Nat.two_pow_pos 63)]
  have hhighs : flipped / 2 ^ 63 = bits / 2 ^ 63 ^^^ 1 := by
    rw [hhigh, hhigh']
    cases negative <;> rfl
  omega

/-! ### In front of a float -/

theorem decodeFloat_minus {cs : List Char} {x : Binary64}
    (hhead : ∀ c ∈ cs.head?, c ≠ '+' ∧ c ≠ '-') (h : decodeFloat (String.ofList cs) = .ok x) :
    decodeFloat (String.ofList ('-' :: cs)) = .ok x.negate := by
  have hplain : splitSign cs = (false, cs) := splitSign_append .absent hhead
  have hminus : splitSign ('-' :: cs) = (true, cs) := rfl
  simp only [decodeFloat, String.toList_ofList, ofChars?_eq, hplain, hminus] at h ⊢
  by_cases hinfinity : cs.map foldLetter ∈ infinityWords
  · cases hstrange : cs.any isStrangeLetter with
    | true => simp [hinfinity, hstrange] at h
    | false =>
      simp only [hinfinity, hstrange, if_true, Bool.false_eq_true, if_false] at h ⊢
      cases h
      rfl
  · by_cases hnan : cs.map foldLetter = nanWord
    · rw [if_neg hinfinity, if_pos hnan] at h ⊢
      cases h
      rfl
    · cases hnumber : numberOfChars? cs with
      | none => simp [hinfinity, hnan, hnumber] at h
      | some number =>
        simp only [hinfinity, hnan, hnumber, if_false, Option.map_some] at h ⊢
        cases h
        rfl

theorem exists_magnitude_of_isDecimalDigit {c : Char} {cs : List Char} {x : Binary64}
    (hc : isDecimalDigit c = true) (h : decodeFloat (String.ofList (c :: cs)) = .ok x) :
    ∃ m, x = .signed false m := by
  unfold decodeFloat at h
  rw [String.toList_ofList, ofChars?_of_isDecimalDigit hc] at h
  cases hnumber : numberOfChars? (c :: cs) with
  | none => simp [hnumber] at h
  | some number =>
    simp only [hnumber, Option.map_some] at h
    cases h
    exact ⟨_, rfl⟩

/-! ### Behind a prefix -/

section

variable {r : Radix} {whole head digits fraction : List Char} {v : Int} {n : Nat} {x : Binary64}

theorem Radix.Writes.ne_point (h : r.Writes whole v) : ∀ c ∈ whole, c ≠ '.' := by
  obtain ⟨head, sign, digits, negative, n, rfl, hhead, hsign, hne, hdigits, -⟩ := h
  have hspelled := ne_point_of_spells (spells_of_denotes hhead hne hdigits).1
  obtain ⟨hpointHead, hpointDigits⟩ := List.forall_mem_append.mp hspelled
  refine List.forall_mem_append.mpr ⟨hpointHead, List.forall_mem_append.mpr ⟨?_, hpointDigits⟩⟩
  cases hsign <;> simp

/-- A float whose integer part writes an integer is read with this integer in decimal, if it fits in
a word. -/
theorem decodeRadixFloat_eq_ok_iff (hr : r ≠ .decimal) (hwrites : r.Writes whole v) :
    decodeRadixFloat (String.ofList (whole ++ '.' :: fraction)) = .ok x ↔
      (minWord ≤ v ∧ v ≤ maxWord) ∧
        decodeFloat (String.ofList (decimalNumeral v ++ '.' :: fraction)) = .ok x := by
  obtain ⟨head, hhead, hprefix⟩ := hwrites.exists_head
  have hinteger (w : Int) : decodeRadixInteger r (String.ofList whole) = .ok w ↔
      r.Writes whole w ∧ minWord ≤ w ∧ w ≤ maxWord := by
    have hiff := @decodeInteger_eq_ok_iff r (String.ofList whole) (fun h => absurd h hr) w
    rwa [decodeInteger_base, String.toList_ofList] at hiff
  rw [decodeRadixFloat_eq String.toList_ofList hwrites.ne_point,
    decimalPart_of_head hr hhead hprefix]
  cases hdecoded : decodeRadixInteger r (String.ofList whole) with
  | error fault =>
    have hout : ¬(minWord ≤ v ∧ v ≤ maxWord) := by
      intro hfits
      rw [(hinteger v).mpr ⟨hwrites, hfits⟩] at hdecoded
      cases hdecoded
    constructor
    · intro h
      cases h
    · intro h
      exact absurd h.1 hout
  | ok w =>
    obtain ⟨hw, hfits⟩ := (hinteger w).mp hdecoded
    rw [hwrites.unique hw, and_iff_right hfits]
    show (decodeFloat (String.ofList (decimalNumeral w ++ '.' :: fraction))).mapError _ = _ ↔ _
    cases decodeFloat (String.ofList (decimalNumeral w ++ '.' :: fraction)) with
    | error fault =>
      constructor
      · intro h
        cases h
      · intro h
        cases h
    | ok y => rfl

theorem decimalNumeral_neg (hn : 0 < n) : decimalNumeral (-n) = '-' :: decimalNumeral n := by
  unfold decimalNumeral
  rw [if_pos (by omega), if_neg (by omega), Int.natAbs_neg]

theorem decodeFloat_decimalNumeral_neg (hn : 0 < n)
    (h : decodeFloat (String.ofList (decimalNumeral n ++ '.' :: fraction)) = .ok x) :
    decodeFloat (String.ofList (decimalNumeral (-n) ++ '.' :: fraction)) = .ok x.negate := by
  obtain ⟨hne, hdigits⟩ := isDecimalDigit_decimalNumeral n
  rw [decimalNumeral_neg hn, List.cons_append]
  apply decodeFloat_minus _ h
  intro c hc
  rw [List.head?_append_of_ne_nil _ hne] at hc
  exact ne_sign_of_isDigit (r := .decimal) (hdigits c (List.mem_of_mem_head? hc))

/-- **A minus sign behind a prefix.** It gives a float the other sign, that is the highest bit the
other way round, if the integer part is not zero. The sign of a zero is lost: there the float is the
same with the minus sign and without. In front of a float without a prefix and a sign, a minus sign
always gives it the other sign. -/
theorem decodeRadixFloat_minus (hr : r ≠ .decimal) (hhead : head ∈ r.prefixes) (hne : digits ≠ [])
    (hdigits : r.Denotes digits n)
    (h : decodeRadixFloat (String.ofList (head ++ digits ++ '.' :: fraction)) = .ok x) :
    (∃ bits, x.bits? = some bits ∧ x.negate.bits? = some (bits ^^^ 2 ^ 63)) ∧
      (0 < n → decodeRadixFloat (String.ofList (head ++ '-' :: digits ++ '.' :: fraction)) =
        .ok x.negate) ∧
      (n = 0 → decodeRadixFloat (String.ofList (head ++ '-' :: digits ++ '.' :: fraction)) =
        .ok x) ∧
      ∀ (cs : List Char) (y : Binary64), (∀ c ∈ cs.head?, c ≠ '+' ∧ c ≠ '-') →
        decodeFloat (String.ofList cs) = .ok y →
        decodeFloat (String.ofList ('-' :: cs)) = .ok y.negate := by
  have hplain : r.Writes (head ++ digits) n :=
    ⟨head, [], digits, false, n, rfl, hhead, .absent, hne, hdigits, rfl⟩
  have hminus : r.Writes (head ++ '-' :: digits) (-n) :=
    ⟨head, ['-'], digits, true, n, rfl, hhead, .minus, hne, hdigits, rfl⟩
  obtain ⟨⟨-, hmax⟩, hfloat⟩ := (decodeRadixFloat_eq_ok_iff hr hplain).mp h
  have hfits : minWord ≤ -n ∧ -n ≤ maxWord := by
    unfold minWord maxWord at *
    omega
  obtain ⟨hnumeral, hall⟩ := isDecimalDigit_decimalNumeral n
  refine ⟨?_, ?_, ?_, fun cs y => decodeFloat_minus⟩
  · obtain ⟨c, cs, hcs⟩ := List.exists_cons_of_ne_nil hnumeral
    rw [hcs] at hfloat
    obtain ⟨m, rfl⟩ := exists_magnitude_of_isDecimalDigit (hall c (by simp [hcs])) hfloat
    exact Binary64.bits?_negate false m
  · intro hn
    exact (decodeRadixFloat_eq_ok_iff hr hminus).mpr
      ⟨hfits, decodeFloat_decimalNumeral_neg hn hfloat⟩
  · intro hn
    apply (decodeRadixFloat_eq_ok_iff hr hminus).mpr
    exact ⟨hfits, by simpa [hn] using hfloat⟩

end

/-- A minus sign in front of an integer part that is not zero, with an exponent behind the fraction,
and one in front of a zero. -/
theorem decodeRadixFloat_minus_hexadecimal :
    (∃ x, decodeRadixFloat "0x1F.5e3" = .ok x ∧ decodeRadixFloat "0x-1F.5e3" = .ok x.negate) ∧
      ∃ x, decodeRadixFloat "0x0.5" = .ok x ∧ decodeRadixFloat "0x-0.5" = .ok x := by
  have hdigits : Radix.hexadecimal.Denotes "1F".toList 31 :=
    Radix.denotes_iff.mpr ⟨List.all_eq_true.mp (by decide), rfl⟩
  have hzero : Radix.hexadecimal.Denotes "0".toList 0 :=
    Radix.denotes_iff.mpr ⟨List.all_eq_true.mp (by decide), rfl⟩
  have hvalue :
      decodeRadixFloat (String.ofList ("0x".toList ++ "1F".toList ++ '.' :: "5e3".toList)) =
        .ok (.signed false (.ofDecimal 315 2)) := rfl
  have hhalf : decodeRadixFloat (String.ofList ("0x".toList ++ "0".toList ++ '.' :: "5".toList)) =
      .ok (.signed false (.ofDecimal 5 (-1))) := rfl
  have hhead : "0x".toList ∈ Radix.hexadecimal.prefixes := by decide
  obtain ⟨-, hpos, -⟩ := decodeRadixFloat_minus (by decide) hhead (by decide) hdigits hvalue
  obtain ⟨-, -, hnull, -⟩ := decodeRadixFloat_minus (by decide) hhead (by decide) hzero hhalf
  exact ⟨⟨_, hvalue, hpos (by decide)⟩, _, hhalf, hnull rfl⟩

/-- Not every float behind a prefix gets the other sign by a minus sign. -/
theorem decodeRadixFloat_minus_zero :
    ¬∀ (r : Radix) (head digits fraction : List Char) (x : Binary64), r ≠ .decimal →
      head ∈ r.prefixes → digits ≠ [] → (∀ c ∈ digits, r.isDigit c = true) →
      decodeRadixFloat (String.ofList (head ++ digits ++ '.' :: fraction)) = .ok x →
      decodeRadixFloat (String.ofList (head ++ '-' :: digits ++ '.' :: fraction)) =
        .ok x.negate := by
  intro hall
  have hhalf : decodeRadixFloat "0x0.5" = .ok (.signed false (.ofDecimal 5 (-1))) := rfl
  have hminus := hall .hexadecimal "0x".toList "0".toList "5".toList _ (by decide) (by decide)
    (by decide) (List.all_eq_true.mp (by decide)) hhalf
  have hsame : decodeRadixFloat "0x-0.5" = .ok (.signed false (.ofDecimal 5 (-1))) := rfl
  cases hsame.symm.trans hminus

end RuleTree
