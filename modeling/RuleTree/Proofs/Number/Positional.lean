import Mathlib.Data.List.Induction
import Mathlib.Data.Nat.Digits.Defs
import RuleTree.Number.Radix
import RuleTree.Proofs.List.Related

/-!
# Positional notation

What a run of digits denotes, said by the alphabet of the digits and the powers of the base, and not
by the fold that computes it.

* `IsDigitFor`: which characters are the digits of a value.
* `Radix.Denotes`: the number of a run of digits.
* `Radix.denotes_iff`: it is the number that the fold computes.
-/

namespace RuleTree

/-- `c` is the digit with the value `d`; a letter stands in either case. -/
def IsDigitFor (d : Nat) (c : Char) : Prop :=
  "0123456789abcdef".toList[d]? = some c ∨ "0123456789ABCDEF".toList[d]? = some c

theorem digitValue?_alphabet : ∀ d < 16,
    ("0123456789abcdef".toList[d]?.bind digitValue?) = some d ∧
      ("0123456789ABCDEF".toList[d]?.bind digitValue?) = some d := by decide

theorem alphabet_decimal :
    ∀ d < 10, "0123456789abcdef".toList[d]? = some (Char.ofNat (d + 48)) := by
  decide

theorem alphabet_letter : ∀ d < 6,
    "0123456789abcdef".toList[d + 10]? = some (Char.ofNat (d + 97)) ∧
      "0123456789ABCDEF".toList[d + 10]? = some (Char.ofNat (d + 65)) := by decide

theorem isDigitFor_iff {d : Nat} {c : Char} : IsDigitFor d c ↔ digitValue? c = some d := by
  have hle (a b : Char) : a ≤ b ↔ a.toNat ≤ b.toNat := Iff.rfl
  constructor
  · intro h
    have hd : d < 16 := by
      rcases h with h | h
      · exact (List.getElem?_eq_some_iff.mp h).1
      · exact (List.getElem?_eq_some_iff.mp h).1
    obtain ⟨hlower, hupper⟩ := digitValue?_alphabet d hd
    rcases h with h | h
    · rwa [h] at hlower
    · rwa [h] at hupper
  · intro h
    simp only [digitValue?, hle, show '0'.toNat = 48 from rfl, show '9'.toNat = 57 from rfl,
      show 'a'.toNat = 97 from rfl, show 'f'.toNat = 102 from rfl, show 'A'.toNat = 65 from rfl,
      show 'F'.toNat = 70 from rfl] at h
    split at h
    · cases h
      have := alphabet_decimal (c.toNat - 48) (by omega)
      rw [show c.toNat - 48 + 48 = c.toNat by omega, Char.ofNat_toNat] at this
      exact .inl this
    · split at h
      · cases h
        have := (alphabet_letter (c.toNat - 97) (by omega)).1
        rw [show c.toNat - 97 + 97 = c.toNat by omega, Char.ofNat_toNat] at this
        exact .inl this
      · split at h
        · cases h
          have := (alphabet_letter (c.toNat - 65) (by omega)).2
          rw [show c.toNat - 65 + 65 = c.toNat by omega, Char.ofNat_toNat] at this
          exact .inr this
        · cases h

namespace Radix

variable {r : Radix}

/-- The run of digits denotes `n` in the radix: read from the right, the digits count the powers of
the base. -/
def Denotes (r : Radix) (text : List Char) (n : Nat) : Prop :=
  ∃ ds : List Nat, List.Forall₂ IsDigitFor ds text ∧ (∀ d ∈ ds, d < r.base) ∧
    Nat.ofDigits r.base ds.reverse = n

theorem value_eq_ofDigits (r : Radix) (text : List Char) :
    r.value text = Nat.ofDigits r.base (text.map fun c => (digitValue? c).getD 0).reverse := by
  induction text using List.reverseRecOn with
  | nil => simp [value]
  | append_singleton text c ih =>
    have hlast : r.value [c] = (digitValue? c).getD 0 := by simp [value]
    rw [value_append, ih, hlast, List.map_append, List.reverse_append]
    simp [Nat.ofDigits_cons, Nat.mul_comm, Nat.add_comm]

theorem map_digitValue?_of_forall₂ {ds : List Nat} {text : List Char}
    (h : List.Forall₂ IsDigitFor ds text) : text.map (fun c => (digitValue? c).getD 0) = ds := by
  induction h with
  | nil => rfl
  | cons hdigit _ ih => rw [List.map_cons, isDigitFor_iff.mp hdigit, ih, Option.getD_some]

theorem isDigit_iff {c : Char} : r.isDigit c = true ↔ ∃ d < r.base, IsDigitFor d c := by
  simp only [isDigitFor_iff, isDigit, Option.any_eq_true, decide_eq_true_eq]
  constructor
  · rintro ⟨d, hd, hlt⟩
    exact ⟨d, hlt, hd⟩
  · rintro ⟨d, hlt, hd⟩
    exact ⟨d, hd, hlt⟩

theorem isDigit_of_forall₂ {ds : List Nat} {text : List Char}
    (h : List.Forall₂ IsDigitFor ds text) (hlt : ∀ d ∈ ds, d < r.base) :
    ∀ c ∈ text, r.isDigit c = true := by
  intro c hc
  obtain ⟨d, hd, hdigit⟩ := exists_mem_of_forall₂ (List.Forall₂.flip h) hc
  exact isDigit_iff.mpr ⟨d, hlt d hd, hdigit⟩

theorem denotes_iff {text : List Char} {n : Nat} :
    r.Denotes text n ↔ (∀ c ∈ text, r.isDigit c = true) ∧ r.value text = n := by
  constructor
  · rintro ⟨ds, hds, hlt, rfl⟩
    refine ⟨isDigit_of_forall₂ hds hlt, ?_⟩
    rw [value_eq_ofDigits, map_digitValue?_of_forall₂ hds]
  · rintro ⟨hdigits, rfl⟩
    obtain ⟨ds, hlt, htext⟩ := exists_forall₂ fun c hc => isDigit_iff.mp (hdigits c hc)
    have hds : List.Forall₂ IsDigitFor ds text := List.Forall₂.flip htext
    refine ⟨ds, hds, hlt, ?_⟩
    rw [value_eq_ofDigits, map_digitValue?_of_forall₂ hds]

end Radix

end RuleTree
