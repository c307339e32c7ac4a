import RuleTree.Proofs.Literal.Defect

/-!
# Literals with and without radix floats

Two decoders are for floats, and only one takes them with the prefix of a radix. On all other
literals it makes no difference which of them is in use.

* `LiteralKind.value_of_ok`: what has a value keeps it.
* `LiteralKind.fault?_of_ne`: what is not a float has the same fault.
* `LiteralKind.fault?_of_prefixed`: a float with a prefix is bad for one decoder, and for the other
  only if its integer part is too large.
-/

namespace RuleTree

/-- The part of a float before the point. -/
def integerPart (text : List Char) : List Char := text.takeWhile (· ≠ '.')

theorem decodeRadixFloat_of_ok {text : String} {x : Binary64}
    (h : LiteralKind.float.Spells text.toList) (hx : decodeFloat text = .ok x) :
    decodeRadixFloat text = .ok x := by
  obtain ⟨r, whole, fraction, htext, hwhole, -, hfraction⟩ := h
  have hnone : prefixRadix? text.toList = none := by
    have herror := errorOf?_decodeFloat htext hwhole hfraction
    rw [hx] at herror
    exact Option.map_eq_none_iff.mp herror.symm
  have hpart : decimalPart whole = .ok whole := by
    obtain ⟨digits, hdrop, hne, hdigits⟩ := id hwhole
    by_cases hr : r = .decimal
    · subst hr
      cases hdrop
      rw [decimalPart, (prefixRadix?_decimal hne hdigits fraction).1]
    · obtain ⟨mark, -, rfl, hmark⟩ := exists_mark hr hdrop
      rw [htext, List.cons_append, List.cons_append, hmark] at hnone
      cases hnone
  rw [decodeRadixFloat_eq htext (ne_point_of_spells hwhole), hpart]
  show (decodeFloat (String.ofList (whole ++ '.' :: fraction))).mapError _ = _
  rw [← htext, String.ofList_toList, hx]
  rfl

namespace LiteralKind

variable {k : LiteralKind} {text : String}

theorem value_of_ok (h : k.Spells text.toList) {v : Value} (hv : k.value false text = .ok v) :
    k.value true text = .ok v := by
  cases k with
  | float =>
    rw [value, if_neg Bool.false_ne_true] at hv
    rw [value, if_pos rfl]
    cases hx : decodeFloat text with
    | error fault =>
      rw [hx] at hv
      cases hv
    | ok x =>
      rw [hx] at hv
      rw [decodeRadixFloat_of_ok h hx]
      exact hv
  | _ => exact hv

theorem fault?_of_ne (hk : k ≠ .float) : k.fault? true text = k.fault? false text := by
  cases k with
  | float => exact absurd rfl hk
  | _ => rfl

theorem fault?_of_not_prefixed (hr : prefixRadix? text.toList = none) (radixFloats : Bool) :
    float.fault? radixFloats text = none := by
  rw [fault?, defect?, hr]
  rfl

/-- A float with a prefix is bad without radix floats, and with them if its integer part is too
large. -/
theorem fault?_of_prefixed {r : Radix} (hr : prefixRadix? text.toList = some r) :
    float.fault? false text = some (.malformed ⟨text, .notFloat, false⟩) ∧
      float.fault? true text = if maxWord < r.number (integerPart text.toList) then
        some (.malformed ⟨text, .tooLarge, true⟩) else none := by
  constructor
  · rw [fault?, defect?, hr]
    rfl
  · rw [fault?, defect?, hr]
    show ((if maxWord < r.number (integerPart text.toList) then some Reason.tooLarge else none).map
      fun reason => Fault.malformed ⟨text, reason, true⟩) = _
    split <;> rfl

end LiteralKind

end RuleTree
