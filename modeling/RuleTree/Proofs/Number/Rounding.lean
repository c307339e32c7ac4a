import Mathlib.Algebra.Order.Field.Basic
import Mathlib.Algebra.Order.Field.Power
import Mathlib.Algebra.Order.Ring.Rat
import Mathlib.Algebra.Field.Rat
import Mathlib.Tactic.FieldSimp
import Mathlib.Tactic.Linarith
import Mathlib.Tactic.NormNum
import Mathlib.Tactic.Positivity
import Mathlib.Tactic.Ring
import RuleTree.Number.Binary64

/-!
# Rounding to binary64

The number that a pattern of bits stands for, which pattern is the nearest to a rational number, and
that the roundings of quotients and of decimal numbers find it.

* `Magnitude.toRat`: what a finite magnitude is worth.
* `Magnitude.Nearest`: rounding to nearest, a tie to the even pattern, with the threshold from which
  on a number is infinite.
* `Magnitude.Nearest.unique`: a number has one nearest magnitude.
* `Magnitude.nearest_ofQuotient`, `Magnitude.nearest_ofDecimal`: what the two functions compute.

The proofs measure everything in units of `2 ^ (-1074)`, where the patterns stand for the natural
numbers `unitsAt`. A number is rounded to a pattern when it lies between the midpoints to its two
neighbours (`InInterval`).
-/

namespace RuleTree

/-- The number of units that a pattern is worth. Patterns beyond infinity go on like those below. -/
def unitsAt (pattern : Nat) : Nat :=
  let exponent := pattern / fractionCount
  let fraction := pattern % fractionCount
  if exponent = 0 then fraction else (fractionCount + fraction) * Nat.pow 2 (exponent - 1)

theorem fractionCount_pos : 0 < fractionCount := by decide

theorem cast_fractionCount : (fractionCount : ℚ) = 2 ^ 52 := by
  norm_num [fractionCount]

theorem unitsAt_scale {k r : Nat} (hr : r ≤ 2 * fractionCount) (hk : k = 0 ∨ fractionCount ≤ r) :
    unitsAt (k * fractionCount + r) = r * 2 ^ k := by
  have hpos := fractionCount_pos
  unfold unitsAt
  simp only [Nat.pow_eq]
  generalize fractionCount = c at *
  rcases Nat.lt_or_ge r c with hlt | hge
  · obtain rfl : k = 0 := by omega
    rw [Nat.zero_mul, Nat.zero_add, Nat.div_eq_of_lt hlt, if_pos rfl, Nat.mod_eq_of_lt hlt,
      Nat.pow_zero, Nat.mul_one]
  · rcases Nat.lt_or_ge r (2 * c) with hlt | hge'
    · obtain ⟨f, rfl⟩ := Nat.exists_eq_add_of_le hge
      rw [show k * c + (c + f) = f + c * (k + 1) by ring, Nat.add_mul_div_left _ _ hpos,
        Nat.div_eq_of_lt (by omega : f < c), Nat.add_mul_mod_self_left,
        Nat.mod_eq_of_lt (by omega : f < c), if_neg (by omega), show 0 + (k + 1) - 1 = k by omega]
    · obtain rfl : r = 2 * c := by omega
      rw [show k * c + 2 * c = c * (k + 2) by ring, Nat.mul_div_cancel_left _ hpos,
        Nat.mul_mod_right, if_neg (by omega), show k + 2 - 1 = k + 1 by omega]
      ring

theorem unitsAt_succ (p : Nat) : unitsAt (p + 1) = unitsAt p + 2 ^ (p / fractionCount - 1) := by
  have hpos := fractionCount_pos
  have hdiv := Nat.div_add_mod p fractionCount
  have hmod := Nat.mod_lt p hpos
  generalize p / fractionCount = e at *
  generalize p % fractionCount = f at *
  cases e with
  | zero =>
    obtain rfl : p = f := by omega
    have h := unitsAt_scale (k := 0) (r := p) (by omega) (.inl rfl)
    have h' := unitsAt_scale (k := 0) (r := p + 1) (by omega) (.inl rfl)
    simp only [Nat.zero_mul, Nat.zero_add, Nat.pow_zero, Nat.mul_one] at h h'
    rw [h, h', Nat.zero_sub, Nat.pow_zero]
  | succ e =>
    obtain rfl : p = e * fractionCount + (fractionCount + f) := by rw [← hdiv]; ring
    rw [Nat.add_assoc, unitsAt_scale (by omega) (.inr (by omega)),
      unitsAt_scale (by omega) (.inr (by omega)), Nat.add_sub_cancel]
    ring

theorem unitsAt_strictMono : StrictMono unitsAt := by
  refine strictMono_nat_of_lt_succ fun p => ?_
  rw [unitsAt_succ]
  exact Nat.lt_add_of_pos_right (Nat.two_pow_pos _)

/-! ### Intervals of rounding -/

/-- `x` units are rounded to the pattern: they lie between its midpoints to the patterns before and
behind it, the midpoints included where the pattern is even. -/
structure InInterval (x : ℚ) (p : Nat) : Prop where
  lower : ∀ q, q + 1 = p → (unitsAt q + unitsAt p : ℚ) ≤ 2 * x
  upper : 2 * x ≤ unitsAt p + unitsAt (p + 1)
  even_of_lower : ∀ q, q + 1 = p → (unitsAt q + unitsAt p : ℚ) = 2 * x → p % 2 = 0
  even_of_upper : 2 * x = unitsAt p + unitsAt (p + 1) → p % 2 = 0

namespace InInterval

variable {x : ℚ} {p q : Nat}

theorem unitsAt_le (h : p ≤ q) : (unitsAt p : ℚ) ≤ unitsAt q := by
  exact_mod_cast unitsAt_strictMono.monotone h

theorem unitsAt_lt (h : p < q) : (unitsAt p : ℚ) < unitsAt q := by
  exact_mod_cast unitsAt_strictMono h

theorem closer_of_lt (h : InInterval x p) (hlt : p < q) :
    |x - unitsAt p| ≤ |x - unitsAt q| ∧
      (|x - unitsAt q| = |x - unitsAt p| → p % 2 = 0) := by
  have hnext := unitsAt_le (Nat.succ_le_of_lt hlt)
  have hq := unitsAt_lt hlt
  have hup := h.upper
  have heven := h.even_of_upper
  have hdist : |x - unitsAt q| = unitsAt q - x := by
    rw [abs_sub_comm, abs_of_nonneg (by linarith)]
  rw [hdist]
  rcases abs_cases (x - unitsAt p) with ⟨habs, -⟩ | ⟨habs, -⟩
  · rw [habs]
    exact ⟨by linarith, fun htie => heven (by linarith)⟩
  · rw [habs]
    exact ⟨by linarith, fun htie => absurd htie (by linarith)⟩

theorem closer_of_gt (h : InInterval x p) (hlt : q < p) :
    |x - unitsAt p| ≤ |x - unitsAt q| ∧
      (|x - unitsAt q| = |x - unitsAt p| → p % 2 = 0) := by
  obtain ⟨b, rfl⟩ : ∃ b, p = b + 1 := ⟨p - 1, by omega⟩
  have hbefore := unitsAt_le (Nat.le_of_lt_succ hlt)
  have hq := unitsAt_lt hlt
  have hlow := h.lower b rfl
  have heven := h.even_of_lower b rfl
  have hdist : |x - unitsAt q| = x - unitsAt q := abs_of_nonneg (by linarith)
  rw [hdist]
  rcases abs_cases (x - unitsAt (b + 1)) with ⟨habs, -⟩ | ⟨habs, -⟩
  · rw [habs]
    exact ⟨by linarith, fun htie => absurd htie (by linarith)⟩
  · rw [habs]
    exact ⟨by linarith, fun htie => heven (by linarith)⟩

theorem closest (h : InInterval x p) (q : Nat) :
    |x - unitsAt p| ≤ |x - unitsAt q| ∧
      (q ≠ p → |x - unitsAt q| = |x - unitsAt p| → p % 2 = 0) := by
  rcases Nat.lt_trichotomy p q with hlt | rfl | hlt
  · exact ⟨(h.closer_of_lt hlt).1, fun _ => (h.closer_of_lt hlt).2⟩
  · exact ⟨le_rfl, fun hne => absurd rfl hne⟩
  · exact ⟨(h.closer_of_gt hlt).1, fun _ => (h.closer_of_gt hlt).2⟩

end InInterval

/-! ### Magnitudes -/

namespace Magnitude

/-- The number that a finite magnitude stands for: an exponent, biased by 1023, of a significand
with 52 bits behind the point, whose leading one is left out unless the exponent bits are zero. -/
def toRat (m : Magnitude) : ℚ :=
  let exponent := m.pattern / fractionCount
  let fraction := m.pattern % fractionCount
  if exponent = 0 then (fraction / 2 ^ 52) * 2 ^ (-1022 : ℤ)
  else (1 + fraction / 2 ^ 52) * 2 ^ (exponent - 1023 : ℤ)

/-- The least number that is rounded to infinity, half a step beyond the greatest finite one. -/
def overflowThreshold : ℚ := 2 ^ 1024 - 2 ^ 970

/-- `m` is `x` rounded to the nearest magnitude, a tie to the even pattern, and infinity from the
threshold on. -/
structure Nearest (x : ℚ) (m : Magnitude) : Prop where
  infinite_iff : m = infinity ↔ overflowThreshold ≤ x
  closest : m ≠ infinity → ∀ n, n ≠ infinity → |x - m.toRat| ≤ |x - n.toRat|
  even : m ≠ infinity → ∀ n, n ≠ infinity → n ≠ m → |x - n.toRat| = |x - m.toRat| →
    m.pattern % 2 = 0

theorem ext_pattern {m n : Magnitude} (h : m.pattern = n.pattern) : m = n := by
  cases m
  cases n
  cases h
  rfl

theorem eq_infinity_iff {m : Magnitude} : m = infinity ↔ infinityPattern ≤ m.pattern := by
  constructor
  · rintro rfl
    exact Nat.le_refl _
  · intro h
    exact ext_pattern (Nat.le_antisymm m.le_infinity h)

theorem units_eq (m : Magnitude) : m.units = unitsAt m.pattern := rfl

theorem toRat_eq (m : Magnitude) : m.toRat = m.units / 2 ^ 1074 := by
  have hsub : (2 : ℚ) ^ 52 ≠ 0 := by positivity
  have hunit : (2 : ℚ) ^ 1074 ≠ 0 := by positivity
  unfold toRat units
  simp only [Nat.pow_eq]
  generalize m.pattern % fractionCount = f
  rcases Nat.eq_zero_or_pos (m.pattern / fractionCount) with he | he
  · have hexponent : (2 : ℚ) ^ (-1022 : ℤ) = 2 ^ 52 / 2 ^ 1074 := by
      rw [show (-1022 : ℤ) = 52 - 1074 by norm_num, zpow_sub₀ two_ne_zero, zpow_ofNat, zpow_ofNat]
    rw [if_pos he, if_pos he, hexponent, div_mul_div_cancel₀ hsub]
  · obtain ⟨e, he⟩ : ∃ e, m.pattern / fractionCount = e + 1 :=
      ⟨_, (Nat.succ_pred_eq_of_pos he).symm⟩
    have hexponent : (2 : ℚ) ^ ((e + 1 : ℕ) - 1023 : ℤ) = 2 ^ e * 2 ^ 52 / 2 ^ 1074 := by
      rw [show ((e + 1 : ℕ) - 1023 : ℤ) = e + 52 - 1074 by push_cast; ring,
        zpow_sub₀ two_ne_zero, zpow_add₀ two_ne_zero, zpow_natCast, zpow_ofNat, zpow_ofNat]
    rw [he, if_neg (by omega), if_neg (by omega), hexponent, Nat.add_sub_cancel, Nat.cast_mul,
      Nat.cast_add, cast_fractionCount, Nat.cast_pow, Nat.cast_ofNat]
    generalize (2 : ℚ) ^ 1074 = unit at *
    generalize (2 : ℚ) ^ 52 = sub at *
    field_simp

/-! ### The pattern of a magnitude -/

theorem overflowThreshold_eq :
    2 * (overflowThreshold * 2 ^ 1074) =
      unitsAt (infinityPattern - 1) + unitsAt infinityPattern := by
  have hinfinity : unitsAt infinityPattern = fractionCount * 2 ^ 2046 := by
    rw [show infinityPattern = 2046 * fractionCount + fractionCount from rfl]
    exact unitsAt_scale (by omega) (.inr (Nat.le_refl _))
  have hbefore : unitsAt (infinityPattern - 1) = (2 * fractionCount - 1) * 2 ^ 2045 := by
    rw [show infinityPattern - 1 = 2045 * fractionCount + (2 * fractionCount - 1) from rfl]
    exact unitsAt_scale (by omega) (.inr (by decide))
  have hbits : (2 : ℚ) ^ 1024 * 2 ^ 1074 = 2 ^ 53 * 2 ^ 2045 := by
    rw [← pow_add, ← pow_add]
  have hhalf : (2 : ℚ) ^ 970 * 2 ^ 1074 * 2 = 2 ^ 2045 := by
    rw [← pow_add, ← pow_succ]
  have hdouble : (2 : ℚ) ^ 2046 = 2 ^ 2045 * 2 := pow_succ 2 2045
  rw [hinfinity, hbefore, overflowThreshold, sub_mul, mul_sub, hbits, mul_comm 2 (_ * _),
    mul_comm 2 (_ * _), hhalf, Nat.cast_mul, Nat.cast_mul, Nat.cast_pow, Nat.cast_pow,
    Nat.cast_ofNat, hdouble, Nat.cast_sub (by decide), Nat.cast_mul, Nat.cast_ofNat,
    cast_fractionCount, Nat.cast_one]
  generalize (2 : ℚ) ^ 2045 = half
  ring

theorem pattern_clamp {p : Nat} (h : p < infinityPattern) : (clamp p).pattern = p :=
  Nat.min_eq_left (Nat.le_of_lt h)

theorem clamp_eq_infinity_iff {p : Nat} : clamp p = infinity ↔ infinityPattern ≤ p := by
  rw [eq_infinity_iff]
  show infinityPattern ≤ min p infinityPattern ↔ _
  omega

theorem abs_sub_toRat (x : ℚ) (m : Magnitude) :
    |x - m.toRat| = |x * 2 ^ 1074 - unitsAt m.pattern| / 2 ^ 1074 := by
  have hunit : (0 : ℚ) < 2 ^ 1074 := by positivity
  rw [toRat_eq, units_eq, ← abs_of_pos hunit, ← abs_div, abs_of_pos hunit, sub_div,
    mul_div_cancel_right₀ _ hunit.ne']

theorem infinityPattern_le_iff {x : ℚ} {p : Nat} (h : InInterval (x * 2 ^ 1074) p) :
    infinityPattern ≤ p ↔ overflowThreshold ≤ x := by
  have hunit : (0 : ℚ) < 2 ^ 1074 := by positivity
  have hthreshold := overflowThreshold_eq
  have hodd : (infinityPattern - 1) % 2 = 1 := by decide
  have hpos : 0 < infinityPattern := by decide
  rw [← mul_le_mul_iff_of_pos_right hunit]
  generalize x * 2 ^ 1074 = units at *
  generalize overflowThreshold * 2 ^ 1074 = threshold at *
  constructor
  · intro hp
    have hlow := h.lower (p - 1) (by omega)
    have h₁ := InInterval.unitsAt_le (show infinityPattern - 1 ≤ p - 1 by omega)
    have h₂ := InInterval.unitsAt_le hp
    linarith
  · intro hx
    by_contra hp
    have h₁ := InInterval.unitsAt_le (show p ≤ infinityPattern - 1 by omega)
    have h₂ := InInterval.unitsAt_le (show p + 1 ≤ infinityPattern by omega)
    have hup := h.upper
    have heven := h.even_of_upper (by linarith)
    -- the last finite pattern is odd, so that the midpoint behind it is not rounded to it
    have hlt : p < infinityPattern - 1 := by omega
    have h₃ := InInterval.unitsAt_lt hlt
    linarith

theorem nearest_clamp {x : ℚ} {p : Nat} (h : InInterval (x * 2 ^ 1074) p) :
    (clamp p).Nearest x := by
  have hunit : (0 : ℚ) < 2 ^ 1074 := by positivity
  have hpattern : clamp p ≠ infinity → (clamp p).pattern = p := fun hne =>
    pattern_clamp (Nat.lt_of_not_le fun hp => hne (clamp_eq_infinity_iff.mpr hp))
  refine ⟨clamp_eq_infinity_iff.trans (infinityPattern_le_iff h), ?_, ?_⟩
  · intro hne n _
    rw [abs_sub_toRat, abs_sub_toRat, hpattern hne]
    exact div_le_div_of_nonneg_right (h.closest n.pattern).1 hunit.le
  · intro hne n _ hn htie
    rw [abs_sub_toRat, abs_sub_toRat, hpattern hne, div_left_inj' hunit.ne'] at htie
    rw [hpattern hne]
    refine (h.closest n.pattern).2 (fun heq => hn (ext_pattern ?_)) htie
    rw [heq, hpattern hne]

/-! ### One nearest magnitude -/

theorem toRat_lt {m n : Magnitude} (h : m.pattern < n.pattern) : m.toRat < n.toRat := by
  have hunit : (0 : ℚ) < 2 ^ 1074 := by positivity
  rw [toRat_eq, toRat_eq, units_eq, units_eq]
  exact div_lt_div_of_pos_right (InInterval.unitsAt_lt h) hunit

theorem Nearest.not_lt {x : ℚ} {m n : Magnitude} (hm : m.Nearest x) (hn : n.Nearest x)
    (hmfin : m ≠ infinity) (hnfin : n ≠ infinity) : ¬m.pattern < n.pattern := by
  intro hlt
  have hne : n ≠ m := by
    rintro rfl
    exact Nat.lt_irrefl _ hlt
  have htie : |x - n.toRat| = |x - m.toRat| :=
    le_antisymm (hn.closest hnfin m hmfin) (hm.closest hmfin n hnfin)
  have hmeven := hm.even hmfin n hnfin hne htie
  have hneven := hn.even hnfin m hmfin hne.symm htie.symm
  -- two even patterns have one between them, which is closer to what lies midway
  obtain ⟨c, hc⟩ : ∃ c : Magnitude, c.pattern = m.pattern + 1 :=
    ⟨⟨m.pattern + 1, Nat.le_trans hlt n.le_infinity⟩, rfl⟩
  have hmc : m.toRat < c.toRat := toRat_lt (by omega)
  have hcn : c.toRat < n.toRat := toRat_lt (by omega)
  have hcfin : c ≠ infinity := by
    rw [Ne, eq_infinity_iff]
    have := n.le_infinity
    omega
  have hmid : 2 * x = m.toRat + n.toRat := by
    rcases abs_eq_abs.mp htie with h | h
    · linarith
    · linarith
  have hfar : |x - m.toRat| = x - m.toRat := abs_of_nonneg (by linarith)
  have hnear : |x - c.toRat| < x - m.toRat := abs_lt.mpr ⟨by linarith, by linarith⟩
  have hclosest := hm.closest hmfin c hcfin
  linarith

/-- A number is rounded to one magnitude. -/
theorem Nearest.unique {x : ℚ} {m n : Magnitude} (hm : m.Nearest x) (hn : n.Nearest x) :
    m = n := by
  by_cases hx : overflowThreshold ≤ x
  · rw [hm.infinite_iff.mpr hx, hn.infinite_iff.mpr hx]
  · have hmfin : m ≠ infinity := fun h => hx (hm.infinite_iff.mp h)
    have hnfin : n ≠ infinity := fun h => hx (hn.infinite_iff.mp h)
    have h₁ := hm.not_lt hn hmfin hnfin
    have h₂ := hn.not_lt hm hnfin hmfin
    exact ext_pattern (by omega)

end Magnitude

/-! ### Quotients -/

section

variable {n den k p : Nat}

theorem InInterval.of_quotient (hden : 0 < den)
    (hlower : ∀ q, q + 1 = p → (unitsAt q + unitsAt p) * den ≤ 2 * n ∧
      ((unitsAt q + unitsAt p) * den = 2 * n → p % 2 = 0))
    (hupper : 2 * n ≤ (unitsAt p + unitsAt (p + 1)) * den ∧
      (2 * n = (unitsAt p + unitsAt (p + 1)) * den → p % 2 = 0)) :
    InInterval (n / den) p := by
  have hpos : (0 : ℚ) < den := by exact_mod_cast hden
  refine ⟨fun q hq => ?_, ?_, fun q hq htie => (hlower q hq).2 ?_, fun htie => hupper.2 ?_⟩
  · rw [← mul_div_assoc, le_div_iff₀ hpos]
    exact_mod_cast (hlower q hq).1
  · rw [← mul_div_assoc, div_le_iff₀ hpos]
    exact_mod_cast hupper.1
  · rw [← mul_div_assoc, eq_div_iff hpos.ne'] at htie
    exact_mod_cast htie
  · rw [← mul_div_assoc, div_eq_iff hpos.ne'] at htie
    exact_mod_cast htie

theorem divRound_even {a b : Nat} (hb : 0 < b)
    (h : 2 * a = (2 * divRound a b + 1) * b ∨ 2 * divRound a b * b = 2 * a + b) :
    divRound a b % 2 = 0 := by
  have hdiv := Nat.div_add_mod a b
  have hmod := Nat.mod_lt a hb
  unfold divRound at h ⊢
  generalize a / b = q at *
  generalize a % b = r at *
  subst hdiv
  simp only at h ⊢
  split at h
  · exfalso
    rcases h with h | h <;> grind
  · rename_i hlow
    rw [if_neg hlow]
    split at h
    · exfalso
      rcases h with h | h <;> grind
    · rename_i hhigh
      rw [if_neg hhigh]
      omega

/-- The scale that a quotient is rounded at: it is less than the patterns of the next exponent, and
at least the patterns of its own unless it is subnormal. -/
theorem scale_bounds (n : Nat) (hden : 0 < den) (hk : k = (n / den).log2 - 52) :
    n < 2 * fractionCount * (den * 2 ^ k) ∧ (k = 0 ∨ fractionCount * (den * 2 ^ k) ≤ n) := by
  have hcount : fractionCount = 2 ^ 52 := rfl
  constructor
  · have hlt : n / den < 2 ^ (53 + k) :=
      Nat.lt_of_lt_of_le Nat.lt_log2_self (Nat.pow_le_pow_right (by decide) (by omega))
    calc n < 2 ^ (53 + k) * den := (Nat.div_lt_iff_lt_mul hden).mp hlt
      _ = 2 * fractionCount * (den * 2 ^ k) := by rw [hcount, Nat.pow_add]; ring
  · by_cases hzero : k = 0
    · exact .inl hzero
    · refine .inr ?_
      have hne : n / den ≠ 0 := by
        intro h
        rw [h, Nat.log2_zero] at hk
        omega
      have hle : 2 ^ (52 + k) ≤ n / den := by
        rw [show 52 + k = (n / den).log2 by omega]
        exact Nat.log2_self_le hne
      calc fractionCount * (den * 2 ^ k) = 2 ^ (52 + k) * den := by rw [hcount, Nat.pow_add]; ring
        _ ≤ n := (Nat.le_div_iff_mul_le hden).mp hle

theorem divRound_scale (hden : 0 < den) (hlt : n < 2 * fractionCount * (den * 2 ^ k))
    (hge : k = 0 ∨ fractionCount * (den * 2 ^ k) ≤ n) :
    divRound n (den * 2 ^ k) ≤ 2 * fractionCount ∧
      (k = 0 ∨ fractionCount ≤ divRound n (den * 2 ^ k)) := by
  have hb : 0 < den * 2 ^ k := Nat.mul_pos hden (Nat.two_pow_pos k)
  obtain ⟨hup, hlow⟩ := divRound_bounds n _ hb
  generalize divRound n (den * 2 ^ k) = r at *
  generalize den * 2 ^ k = b at *
  constructor
  · by_contra h
    have := Nat.mul_le_mul_right b (show 2 * (2 * fractionCount + 1) ≤ 2 * r by omega)
    linarith
  · refine hge.imp_right fun hge => ?_
    by_contra h
    have := Nat.mul_le_mul_right b (show 2 * r + 2 ≤ 2 * fractionCount by omega)
    linarith

theorem inInterval_divRound (hden : 0 < den) (hlt : n < 2 * fractionCount * (den * 2 ^ k))
    (hge : k = 0 ∨ fractionCount * (den * 2 ^ k) ≤ n) :
    InInterval (n / den) (k * fractionCount + divRound n (den * 2 ^ k)) := by
  have hb : 0 < den * 2 ^ k := Nat.mul_pos hden (Nat.two_pow_pos k)
  obtain ⟨hr, hr'⟩ := divRound_scale hden hlt hge
  obtain ⟨hup, hlow⟩ := divRound_bounds n _ hb
  have hround := divRound_even (a := n) hb
  generalize divRound n (den * 2 ^ k) = r at *
  have hunits {s : Nat} (hs : s ≤ 2 * fractionCount) (hs' : k = 0 ∨ fractionCount ≤ s) :
      unitsAt (k * fractionCount + s) * den = s * (den * 2 ^ k) := by
    rw [unitsAt_scale hs hs']
    ring
  have heven : r % 2 = 0 → (k * fractionCount + r) % 2 = 0 := by
    intro h
    rw [Nat.add_mod, Nat.mul_mod, show fractionCount % 2 = 0 by decide, h, Nat.mul_zero]
  have hmono {p q : Nat} (h : p < q) : unitsAt p * den < unitsAt q * den :=
    Nat.mul_lt_mul_of_pos_right (unitsAt_strictMono h) hden
  have hp := hunits hr hr'
  generalize den * 2 ^ k = b at *
  refine .of_quotient hden (fun q hq => ?_) ?_
  · rw [Nat.add_mul, hp]
    by_cases hfirst : k ≠ 0 ∧ r = fractionCount
    · -- the pattern begins an exponent, and the quotient is not less than what it is worth
      have hbefore := hmono (show q < k * fractionCount + r by omega)
      have hn := hge.resolve_left hfirst.1
      rw [hp] at hbefore
      rw [← hfirst.2] at hn
      exact ⟨by linarith, fun htie => False.elim (by linarith)⟩
    · have hpos : 0 < r := by
        have := fractionCount_pos
        by_contra h
        obtain rfl : k = 0 := by omega
        omega
      obtain ⟨s, rfl⟩ : ∃ s, r = s + 1 := ⟨r - 1, by omega⟩
      obtain rfl : q = k * fractionCount + s := by omega
      rw [hunits (by omega) (by omega)]
      exact ⟨by linarith, fun htie => heven (hround (.inr (by linarith)))⟩
  · rw [Nat.add_mul, hp]
    by_cases hlast : r = 2 * fractionCount
    · -- the pattern begins the next exponent, and the quotient is less than what it is worth
      have hbehind := hmono (Nat.lt_succ_self (k * fractionCount + r))
      rw [hp, hlast] at hbehind
      rw [hlast]
      exact ⟨by linarith, fun htie => False.elim (by linarith)⟩
    · rw [Nat.add_assoc, hunits (s := r + 1) (by omega) (by omega)]
      exact ⟨by linarith, fun htie => heven (hround (.inl (by linarith)))⟩

end

namespace Magnitude

theorem cast_two_pow (e : Nat) : (Nat.pow 2 e : ℚ) = 2 ^ e := by
  rw [Nat.pow_eq, Nat.cast_pow, Nat.cast_ofNat]

theorem nearest_ofQuotient (num : Nat) {den : Nat} (hden : 0 < den) :
    (ofQuotient num den).Nearest (num / den) := by
  unfold ofQuotient
  -- under a name the exponent keeps the power from being computed
  generalize he : 1074 = e
  have hunit : (2 : ℚ) ^ e = 2 ^ 1074 := congrArg _ he.symm
  obtain ⟨hlt, hge⟩ := scale_bounds (num * Nat.pow 2 e) hden rfl
  have h := inInterval_divRound hden hlt hge
  rw [Nat.cast_mul, cast_two_pow, hunit, mul_div_right_comm] at h
  exact nearest_clamp h

/-! ### Decimal numbers -/

theorem nearest_infinity {x : ℚ} (h : overflowThreshold ≤ x) : infinity.Nearest x :=
  ⟨⟨fun _ => h, fun _ => rfl⟩, fun hne => absurd rfl hne, fun hne => absurd rfl hne⟩

theorem nearest_zero {x : ℚ} (h₀ : 0 ≤ x) (h : 2 * (x * 2 ^ 1074) < 1) : zero.Nearest x := by
  have hzero : unitsAt 0 = 0 := by decide
  have hone : unitsAt (0 + 1) = 1 := by decide
  have hx : 0 ≤ x * 2 ^ 1074 := by positivity
  refine nearest_clamp (p := 0) ⟨fun q hq => absurd hq (Nat.succ_ne_zero q), ?_,
    fun q hq => absurd hq (Nat.succ_ne_zero q), fun _ => rfl⟩
  rw [hzero, hone, Nat.cast_zero, Nat.cast_one]
  generalize x * 2 ^ 1074 = units at *
  linarith

theorem overflowThreshold_le_pow : overflowThreshold ≤ 10 ^ 310 := by
  have hpos : (0 : ℚ) ≤ 2 ^ 970 := by positivity
  calc overflowThreshold ≤ 2 ^ 1024 := sub_le_self _ hpos
    _ ≤ 2 ^ 1025 := pow_le_pow_right₀ one_le_two (by norm_num)
    _ = (2 ^ 205) ^ 5 := by rw [← pow_mul]
    _ ≤ (10 ^ 62) ^ 5 := pow_le_pow_left₀ (by positivity) (by norm_num) 5
    _ = 10 ^ 310 := by rw [← pow_mul]

theorem mul_two_pow_lt {coefficient j k : Nat} (h : coefficient.log2 + 1 + j ≤ 3 * k) :
    coefficient * 2 ^ j < 10 ^ k := by
  calc coefficient * 2 ^ j
    _ < 2 ^ (coefficient.log2 + 1) * 2 ^ j :=
      Nat.mul_lt_mul_of_pos_right Nat.lt_log2_self (Nat.two_pow_pos _)
    _ = 2 ^ (coefficient.log2 + 1 + j) := (Nat.pow_add 2 _ j).symm
    _ ≤ 2 ^ (3 * k) := Nat.pow_le_pow_right (by decide) h
    _ = 8 ^ k := Nat.pow_mul 2 3 k
    _ ≤ 10 ^ k := Nat.pow_le_pow_left (by decide) k

theorem units_lt_half {coefficient k : Nat} (h : coefficient.log2 + 1076 ≤ 3 * k) :
    2 * (coefficient * (10 : ℚ) ^ (-k : ℤ) * 2 ^ 1074) < 1 := by
  have hpos : (0 : ℚ) < 10 ^ k := by positivity
  have hlt : (coefficient : ℚ) * 2 ^ 1075 < 10 ^ k := by
    exact_mod_cast mul_two_pow_lt (j := 1075) h
  calc 2 * (coefficient * (10 : ℚ) ^ (-k : ℤ) * 2 ^ 1074)
    _ = coefficient * 2 ^ 1075 / 10 ^ k := by
      rw [zpow_neg, zpow_natCast, pow_succ (2 : ℚ) 1074]
      generalize (2 : ℚ) ^ 1074 = unit
      ring
    _ < 1 := (div_lt_one hpos).mpr hlt

/-- A decimal number is rounded to the nearest magnitude, whatever its exponent. -/
theorem nearest_ofDecimal (coefficient : Nat) (exponent : ℤ) :
    (ofDecimal coefficient exponent).Nearest (coefficient * 10 ^ exponent) := by
  have hten : (10 : ℚ) ≠ 0 := by norm_num
  unfold ofDecimal
  by_cases hzero : coefficient = 0
  · rw [if_pos hzero, hzero, Nat.cast_zero, zero_mul]
    exact nearest_zero le_rfl (by norm_num)
  rw [if_neg hzero]
  by_cases hlarge : 310 ≤ exponent
  · rw [if_pos hlarge]
    refine nearest_infinity ?_
    have hone : (1 : ℚ) ≤ coefficient := by exact_mod_cast Nat.one_le_iff_ne_zero.mpr hzero
    calc overflowThreshold ≤ 10 ^ 310 := overflowThreshold_le_pow
      _ = (10 : ℚ) ^ (310 : ℤ) := (zpow_ofNat 10 310).symm
      _ ≤ 10 ^ exponent := zpow_le_zpow_right₀ (by norm_num) hlarge
      _ ≤ coefficient * 10 ^ exponent := le_mul_of_one_le_left (by positivity) hone
  rw [if_neg hlarge]
  by_cases hsmall : (coefficient.log2 + 1076 : ℤ) ≤ -3 * exponent
  · rw [if_pos hsmall]
    obtain ⟨k, rfl⟩ : ∃ k : ℕ, exponent = -k := ⟨(-exponent).toNat, by omega⟩
    exact nearest_zero (by positivity) (units_lt_half (by omega))
  · rw [if_neg hsmall]
    have hquotient : (coefficient * 10 ^ exponent : ℚ) =
        (coefficient * 10 ^ exponent.toNat : ℕ) / (10 ^ (-exponent).toNat : ℕ) := by
      rw [Nat.cast_mul, Nat.cast_pow, Nat.cast_pow, Nat.cast_ofNat, mul_div_assoc]
      obtain ⟨k, rfl | rfl⟩ := exponent.eq_nat_or_neg
      · simp
      · simp
    rw [hquotient]
    exact nearest_ofQuotient _ (Nat.pow_pos (by decide))

theorem pattern_lt (m : Magnitude) : m.pattern < 2 ^ 63 :=
  Nat.lt_of_le_of_lt m.le_infinity (by decide)

end Magnitude

theorem Binary64.exists_bits (negative : Bool) (m : Magnitude) :
    ∃ bits, (Binary64.signed negative m).bits? = some bits ∧
      bits / 2 ^ 63 = (if negative then 1 else 0) ∧ bits % 2 ^ 63 = m.pattern := by
  have hlt := m.pattern_lt
  refine ⟨_, rfl, ?_⟩
  cases negative with
  | false =>
    rw [if_neg Bool.false_ne_true, if_neg Bool.false_ne_true, Nat.zero_add]
    exact ⟨Nat.div_eq_of_lt hlt, Nat.mod_eq_of_lt hlt⟩
  | true =>
    rw [if_pos rfl, if_pos rfl, Nat.pow_eq]
    exact ⟨by omega, by omega⟩

end RuleTree
