import Mathlib.Data.List.TakeWhile
import RuleTree.Proofs.Literal.Float

/-!
# Floats whose integer part has a radix

A float whose part before the point is an integer with the prefix of its radix. The decoder writes
that integer in decimal and reads the whole again, so that its outcome is known from those of the
two decoders that it calls.

* `OnlyMalformed`: what is refused for nothing but the form of a literal.
* `malformed_of_decodeRadixFloat`: each refusal is of the whole text.
* `decodeRadixFloat_of_not_prefixed`: a float without a prefix is decoded as it is.
* `decodeRadixFloat_of_head`: a float with a prefix is the sum of its two parts.
-/

namespace RuleTree

/-! ### Parts that are refused -/

/-- Whatever is refused is refused as a malformed literal. -/
def OnlyMalformed {α : Type} (result : Except Fault α) : Prop :=
  ∀ fault, result = .error fault → ∃ literal, fault = .malformed literal

section

variable {α β : Type} {text : String}

theorem OnlyMalformed.map {result : Except Fault α} (h : OnlyMalformed result) (f : α → β) :
    OnlyMalformed (result.map f) := by
  intro fault hfault
  cases result with
  | ok x => cases hfault
  | error fault' =>
    cases hfault
    exact h _ rfl

theorem OnlyMalformed.bind {result : Except Fault α} (h : OnlyMalformed result)
    {f : α → Except Fault β} (hf : ∀ x, OnlyMalformed (f x)) : OnlyMalformed (result >>= f) := by
  intro fault hfault
  cases result with
  | ok x => exact hf x fault hfault
  | error fault' =>
    cases hfault
    exact h _ rfl

theorem OnlyMalformed.derivedFrom {result : Except Fault α} (h : OnlyMalformed result)
    {fault : Fault} (hfault : result.mapError (Fault.derivedFrom text) = .error fault) :
    ∃ reason, fault = .malformed ⟨text, reason, true⟩ := by
  cases result with
  | ok x => cases hfault
  | error fault' =>
    obtain ⟨literal, rfl⟩ := h _ rfl
    cases hfault
    exact ⟨literal.reason, rfl⟩

end

theorem onlyMalformed_decodeRadixInteger {r : Radix} (hr : r ≠ .decimal) (text : String) :
    OnlyMalformed (decodeRadixInteger r text) := by
  intro fault hfault
  have hspec := integerOfChars_explains r text.toList
  unfold decodeRadixInteger at hfault
  generalize integerOfChars r text.toList = outcome at *
  cases outcome with
  | ok v => cases hfault
  | error integerFault =>
    cases integerFault with
    | inl reason =>
      cases hfault
      exact ⟨_, rfl⟩
    | inr count => exact absurd hspec.1 hr

theorem StrangeWord.ne_point {cs : List Char} (h : StrangeWord cs) : '.' ∉ cs := by
  obtain ⟨sign, word, negative, rfl, hsign, hword, -⟩ := h
  rw [List.mem_append, not_or]
  constructor
  · cases hsign <;> decide
  · intro hmem
    have hfold := List.mem_map_of_mem (f := foldLetter) hmem
    simp only [List.mem_cons, List.not_mem_nil, or_false] at hword
    rcases hword with hword | hword
    · rw [hword] at hfold
      exact absurd hfold (by decide)
    · rw [hword] at hfold
      exact absurd hfold (by decide)

theorem decodeFloat_of_point {text : String} (h : '.' ∈ text.toList) :
    (∃ x, decodeFloat text = .ok x) ∨
      decodeFloat text = .error (.malformed ⟨text, .notFloat, false⟩) := by
  by_cases hfloat : IsFloat text.toList
  · exact .inl (exists_of_isFloat hfloat)
  · exact .inr (decodeFloat_of_not hfloat fun hstrange => hstrange.ne_point h)

theorem onlyMalformed_decodeFloat {text : String} (h : '.' ∈ text.toList) :
    OnlyMalformed (decodeFloat text) := by
  intro fault hfault
  rcases decodeFloat_of_point h with ⟨x, hx⟩ | hmalformed
  · rw [hx] at hfault
    cases hfault
  · rw [hmalformed] at hfault
    cases hfault
    exact ⟨_, rfl⟩

/-! ### The part before the point -/

/-- The text begins with the prefix of a radix. -/
def Prefixed (text : List Char) : Prop :=
  ∃ r ≠ Radix.decimal, ∃ head ∈ r.prefixes, head <+: text

theorem exists_parts {cs : List Char} (h : '.' ∈ cs) :
    ∃ whole fraction, cs = whole ++ '.' :: fraction ∧ ∀ c ∈ whole, c ≠ '.' := by
  obtain ⟨whole, fraction, rfl, hwhole⟩ := List.eq_append_cons_of_mem h
  refine ⟨whole, fraction, rfl, ?_⟩
  rintro c hc rfl
  exact hwhole hc

theorem prefixRadix?_eq_some_iff {cs : List Char} {r : Radix} :
    prefixRadix? cs = some r ↔ r ≠ .decimal ∧ ∃ head ∈ r.prefixes, head <+: cs := by
  constructor
  · intro h
    unfold prefixRadix? at h
    have hmem := List.mem_of_find?_eq_some h
    have hsome := List.find?_some h
    obtain ⟨body, hbody⟩ := Option.isSome_iff_exists.mp hsome
    obtain ⟨head, hhead, rfl⟩ := Radix.dropPrefix?_eq_some_iff.mp hbody
    refine ⟨?_, head, hhead, body, rfl⟩
    rintro rfl
    revert hmem
    decide
  · rintro ⟨hr, head, hhead, body, rfl⟩
    obtain ⟨mark, -, htext, hprefix⟩ :=
      exists_mark hr (Radix.dropPrefix?_eq_some_iff.mpr ⟨head, hhead, rfl⟩)
    rw [htext, hprefix]

theorem decimalPart_of_not_prefixed {whole : List Char} (h : ¬Prefixed whole) :
    decimalPart whole = .ok whole := by
  have hnone : prefixRadix? whole = none := by
    rw [Option.eq_none_iff_forall_ne_some]
    intro r hr
    obtain ⟨hne, hhead⟩ := prefixRadix?_eq_some_iff.mp hr
    exact h ⟨r, hne, hhead⟩
  rw [decimalPart, hnone]

theorem decimalPart_of_head {r : Radix} (hr : r ≠ .decimal) {head whole : List Char}
    (hhead : head ∈ r.prefixes) (hwhole : head <+: whole) :
    decimalPart whole = (decodeRadixInteger r (String.ofList whole)).map decimalNumeral := by
  rw [decimalPart, prefixRadix?_eq_some_iff.mpr ⟨hr, head, hhead, hwhole⟩]

theorem onlyMalformed_decimalPart (whole : List Char) : OnlyMalformed (decimalPart whole) := by
  by_cases h : Prefixed whole
  · obtain ⟨r, hr, head, hhead, hwhole⟩ := h
    rw [decimalPart_of_head hr hhead hwhole]
    exact (onlyMalformed_decodeRadixInteger hr _).map _
  · rw [decimalPart_of_not_prefixed h]
    intro fault hfault
    cases hfault

/-! ### The decoder -/

section

variable {text : String}

theorem malformed_of_decodeRadixFloat {fault : Fault} (h : decodeRadixFloat text = .error fault) :
    ∃ reason derived, fault = .malformed ⟨text, reason, derived⟩ := by
  by_cases hpoint : '.' ∈ text.toList
  · obtain ⟨whole, fraction, htext, hwhole⟩ := exists_parts hpoint
    rw [decodeRadixFloat_eq htext hwhole] at h
    have honly : OnlyMalformed (do
        let integer ← decimalPart whole
        decodeFloat (String.ofList (integer ++ '.' :: fraction))) :=
      (onlyMalformed_decimalPart whole).bind fun integer => onlyMalformed_decodeFloat (by simp)
    obtain ⟨reason, rfl⟩ := honly.derivedFrom h
    exact ⟨reason, true, rfl⟩
  · have hdrop : text.toList.dropWhile (· ≠ '.') = [] := by
      rw [List.dropWhile_eq_nil_iff]
      intro c hc
      refine decide_eq_true ?_
      rintro rfl
      exact hpoint hc
    rw [decodeRadixFloat, hdrop] at h
    cases h
    exact ⟨_, _, rfl⟩

theorem decodeRadixFloat_of_not_prefixed (hpoint : '.' ∈ text.toList)
    (h : ¬Prefixed text.toList) :
    decodeRadixFloat text = (decodeFloat text).mapError (Fault.derivedFrom text) := by
  obtain ⟨whole, fraction, htext, hwhole⟩ := exists_parts hpoint
  have hpart : ¬Prefixed whole := by
    rintro ⟨r, hr, head, hhead, hprefix⟩
    rw [htext] at h
    exact h ⟨r, hr, head, hhead, hprefix.trans (List.prefix_append _ _)⟩
  rw [decodeRadixFloat_eq htext hwhole, decimalPart_of_not_prefixed hpart]
  show (decodeFloat (String.ofList (whole ++ '.' :: fraction))).mapError _ = _
  rw [← htext, String.ofList_toList]

end

/-! ### Sums -/

theorem denotes_decimalNumeral (n : Nat) :
    decimalNumeral n ≠ [] ∧ Radix.decimal.Denotes (decimalNumeral n) n := by
  obtain ⟨hne, hdigits⟩ := isDecimalDigit_decimalNumeral n
  refine ⟨hne, denotes_decimal_iff.mpr ⟨hdigits, ?_⟩⟩
  unfold decimalNumeral
  rw [if_neg (by omega), Int.natAbs_natCast]
  exact Radix.value_toDigits n

section

variable {r : Radix} {text : String} {head digits fraction : List Char} {n m : Nat}

theorem spells_of_denotes (hhead : head ∈ r.prefixes) (hne : digits ≠ [])
    (hdigits : r.Denotes digits n) :
    r.Spells (head ++ digits) ∧ r.number (head ++ digits) = n := by
  have hdrop : r.dropPrefix? (head ++ digits) = some digits :=
    Radix.dropPrefix?_eq_some_iff.mpr ⟨head, hhead, rfl⟩
  obtain ⟨hall, rfl⟩ := Radix.denotes_iff.mp hdigits
  refine ⟨⟨digits, hdrop, hne, hall⟩, ?_⟩
  rw [Radix.number, hdrop, Option.getD_some]

theorem decodeRadixInteger_of_denotes (hr : r ≠ .decimal) (hhead : head ∈ r.prefixes)
    (hne : digits ≠ []) (hdigits : r.Denotes digits n) :
    decodeRadixInteger r (String.ofList (head ++ digits)) =
      if maxWord < n then .error (.malformed ⟨String.ofList (head ++ digits), .tooLarge, false⟩)
      else .ok n := by
  obtain ⟨hspells, hnumber⟩ := spells_of_denotes hhead hne hdigits
  have hspells : r.Spells (String.ofList (head ++ digits)).toList := by
    rwa [String.toList_ofList]
  rw [decodeRadixInteger_of_spells hspells, if_neg fun h => hr h.1, String.toList_ofList, hnumber]

/-- A float with a prefix is the sum of its two parts, rounded once. -/
theorem decodeRadixFloat_of_head (hr : r ≠ .decimal) (hhead : head ∈ r.prefixes)
    (hne : digits ≠ []) (hdigits : r.Denotes digits n)
    (hfraction : Radix.decimal.Denotes fraction m)
    (htext : text.toList = head ++ (digits ++ '.' :: fraction)) :
    (n ≤ maxWord → ∃ x, decodeRadixFloat text = .ok (.signed false x) ∧
        x.Nearest (n + m / 10 ^ fraction.length)) ∧
      (maxWord < n → decodeRadixFloat text = .error (.malformed ⟨text, .tooLarge, true⟩)) := by
  obtain ⟨hspells, -⟩ := spells_of_denotes hhead hne hdigits
  rw [← List.append_assoc] at htext
  rw [decodeRadixFloat_eq htext (ne_point_of_spells hspells),
    decimalPart_of_head hr hhead (List.prefix_append _ _),
    decodeRadixInteger_of_denotes hr hhead hne hdigits]
  constructor
  · intro hle
    obtain ⟨hnumeral, hdenotes⟩ := denotes_decimalNumeral n
    have hscientific : Scientific (String.ofList (decimalNumeral n ++ '.' :: fraction)).toList false
        (n + m / 10 ^ fraction.length) := by
      rw [String.toList_ofList]
      exact ⟨[], _, [], _, 0, by simp, .absent, .pointed (.inl hnumeral) hdenotes hfraction,
        .absent, by rw [zpow_zero, mul_one]⟩
    obtain ⟨x, hx, hnearest⟩ := exists_nearest hscientific
    refine ⟨x, ?_, hnearest⟩
    rw [if_neg (Int.not_lt.mpr hle)]
    show (decodeFloat (String.ofList (decimalNumeral n ++ '.' :: fraction))).mapError _ = _
    rw [hx]
    rfl
  · intro hlt
    rw [if_pos hlt]
    rfl

end

/-- **Floats with a radix.** Whatever is refused is refused as malformed and with the whole text. A
text with a point but without a prefix has the outcome that it has as a float. Digits behind a
prefix are taken together with the fraction: their sum is rounded once, or they are too large for a
word. -/
theorem decodeRadixFloat_outcome (text : String) :
    (∀ fault, decodeRadixFloat text = .error fault →
        ∃ reason derived, fault = .malformed ⟨text, reason, derived⟩) ∧
      ('.' ∈ text.toList → ¬Prefixed text.toList →
        (∃ x, decodeFloat text = .ok x ∧ decodeRadixFloat text = .ok x) ∨
          ∃ reason, decodeFloat text = .error (.malformed ⟨text, reason, false⟩) ∧
            decodeRadixFloat text = .error (.malformed ⟨text, reason, true⟩)) ∧
      ∀ r ≠ Radix.decimal, ∀ head ∈ r.prefixes, ∀ digits ≠ [], ∀ fraction ≠ [], ∀ n m : Nat,
        r.Denotes digits n → Radix.decimal.Denotes fraction m →
        text.toList = head ++ (digits ++ '.' :: fraction) →
        (n ≤ maxWord → ∃ x : Magnitude, decodeRadixFloat text = .ok (.signed false x) ∧
          x.Nearest (n + m / 10 ^ fraction.length)) ∧
        (maxWord < n → decodeRadixFloat text = .error (.malformed ⟨text, .tooLarge, true⟩)) := by
  refine ⟨fun fault => malformed_of_decodeRadixFloat, ?_, ?_⟩
  · intro hpoint hprefix
    rw [decodeRadixFloat_of_not_prefixed hpoint hprefix]
    rcases decodeFloat_of_point hpoint with ⟨x, hx⟩ | hmalformed
    · rw [hx]
      exact .inl ⟨x, rfl, rfl⟩
    · rw [hmalformed]
      exact .inr ⟨_, rfl, rfl⟩
  · intro r hr head hhead digits hne fraction _ n m hdigits hfraction htext
    exact decodeRadixFloat_of_head hr hhead hne hdigits hfraction htext

/-- A sum of two parts, a part that is too large, and a float without a prefix. -/
theorem decodeRadixFloat_outcome_parts :
    (∃ x : Magnitude, x.Nearest 26.5 ∧ decodeRadixFloat "0x1A.5" = .ok (.signed false x)) ∧
      decodeRadixFloat "0X8000000000000000.0" =
        .error (.malformed ⟨"0X8000000000000000.0", .tooLarge, true⟩) ∧
      ∃ x, decodeFloat "1.5e3" = .ok x ∧ decodeRadixFloat "1.5e3" = .ok x := by
  refine ⟨?_, ?_, ?_⟩
  · obtain ⟨-, -, hparts⟩ := decodeRadixFloat_outcome "0x1A.5"
    obtain ⟨x, hx, hnearest⟩ := (hparts .hexadecimal (by decide) "0x".toList (by decide)
      "1A".toList (by decide) "5".toList (by decide) 26 5
      (Radix.denotes_iff.mpr ⟨List.all_eq_true.mp (by decide), rfl⟩)
      (Radix.denotes_iff.mpr ⟨List.all_eq_true.mp (by decide), rfl⟩) rfl).1 (by decide)
    refine ⟨x, ?_, hx⟩
    convert hnearest using 1
    norm_num [show "5".toList.length = 1 from rfl]
  · obtain ⟨-, -, hparts⟩ := decodeRadixFloat_outcome "0X8000000000000000.0"
    exact (hparts .hexadecimal (by decide) "0X".toList (by decide) "8000000000000000".toList
      (by decide) "0".toList (by decide) 0x8000000000000000 0
      (Radix.denotes_iff.mpr ⟨List.all_eq_true.mp (by decide), rfl⟩)
      (Radix.denotes_iff.mpr ⟨List.all_eq_true.mp (by decide), rfl⟩) rfl).2 (by decide)
  · obtain ⟨-, hplain, -⟩ := decodeRadixFloat_outcome "1.5e3"
    have hnot : ¬Prefixed "1.5e3".toList := by
      rintro ⟨r, hr, hhead⟩
      have hsome := prefixRadix?_eq_some_iff.mpr ⟨hr, hhead⟩
      rw [show prefixRadix? "1.5e3".toList = none by decide] at hsome
      cases hsome
    have hvalue : decodeFloat "1.5e3" = .ok (.signed false (.ofDecimal 15 2)) := rfl
    rcases hplain (by decide) hnot with hfloat | ⟨reason, hreason, -⟩
    · exact hfloat
    · rw [hvalue] at hreason
      cases hreason

end RuleTree
