import Mathlib.Data.List.TakeWhile
import RuleTree.Ast.Kind
import RuleTree.Literal.Float
import RuleTree.Literal.Quotation
import RuleTree.Proofs.Literal.Text

/-!
# Bad literals

Which literal tokens have no value, and why. A token has the form that its kind asks for, so little
is left that can be wrong with it.

* `LiteralKind.defect?`: what makes a literal bad.
* `LiteralKind.fault?`: the same, with the one limit that decimal integers have.
* `errorOf?_value`: a literal has a value unless it has a fault.
-/

namespace RuleTree

/-- The error of a result, if it is one. -/
def errorOf? {ε α : Type} : Except ε α → Option ε
  | .ok _ => none
  | .error e => some e

@[simp] theorem errorOf?_map {ε α β : Type} (f : α → β) (r : Except ε α) :
    errorOf? (r.map f) = errorOf? r := by
  cases r <;> rfl

@[simp] theorem errorOf?_mapError {ε ε' α : Type} (f : ε → ε') (r : Except ε α) :
    errorOf? (r.mapError f) = (errorOf? r).map f := by
  cases r <;> rfl

/-- The number that the digits of a text are, behind the prefix of the radix. -/
def Radix.number (r : Radix) (text : List Char) : Nat :=
  r.value ((r.dropPrefix? text).getD [])

/-- What is wrong with an integer that does not fit in a signed word of 64 bits. -/
def Radix.excess? (r : Radix) (text : List Char) : Option Reason :=
  if maxWord < r.number text then some .tooLarge else none

namespace LiteralKind

/-- The kind of the node that a literal is built as. -/
def kind : LiteralKind → Kind
  | decInt => .numeral .decimal
  | binInt => .numeral .binary
  | octInt => .numeral .octal
  | hexInt => .numeral .hexadecimal
  | float => .float
  | char => .char
  | string => .string

/-- What makes a literal bad: an integer, or the integer part of a float with a prefix, that is too
large; a float with a prefix where none is allowed; a character literal with nothing in it. -/
def defect? (radixFloats : Bool) (text : List Char) : LiteralKind → Option Reason
  | decInt => Radix.decimal.excess? text
  | binInt => Radix.binary.excess? text
  | octInt => Radix.octal.excess? text
  | hexInt => Radix.hexadecimal.excess? text
  | float => (prefixRadix? text).bind fun r =>
    if radixFloats then r.excess? (text.takeWhile (· ≠ '.')) else some .notFloat
  | char => if text = "''".toList then some .emptyChar else none
  | string => none

/-- The fault that a bad literal is reported with. -/
def malformed (radixFloats : Bool) (text : String) (k : LiteralKind) (reason : Reason) : Malformed :=
  ⟨text, reason, radixFloats && k = .float⟩

/-- The fault of a literal: it has too many digits, or it is bad. -/
def fault? (radixFloats : Bool) (text : String) (k : LiteralKind) : Option Fault :=
  if k = .decInt ∧ maxDecimalDigits < text.length then some (.tooManyDigits text.length)
  else (k.defect? radixFloats text.toList).map fun reason =>
    .malformed (k.malformed radixFloats text reason)

/-- The value of a literal. -/
def value (radixFloats : Bool) (text : String) : LiteralKind → Except Fault Value
  | decInt => (decodeRadixInteger .decimal text).map fun n => .primitive (.integer .decimal n)
  | binInt => (decodeRadixInteger .binary text).map fun n => .primitive (.integer .binary n)
  | octInt => (decodeRadixInteger .octal text).map fun n => .primitive (.integer .octal n)
  | hexInt => (decodeRadixInteger .hexadecimal text).map fun n =>
    .primitive (.integer .hexadecimal n)
  | float => (if radixFloats then decodeRadixFloat text else decodeFloat text).map fun x =>
    .primitive (.float x)
  | char => (decodeChar text).map fun c => .primitive (.char c)
  | string => .ok (.string (decodeString text))

end LiteralKind

/-! ### Digits -/

theorem isDecimalDigit_iff {c : Char} : isDecimalDigit c = true ↔ 48 ≤ c.toNat ∧ c.toNat < 58 := by
  have hle (a b : Char) : a ≤ b ↔ a.toNat ≤ b.toNat := Iff.rfl
  unfold isDecimalDigit Radix.isDigit digitValue?
  simp only [hle, show '0'.toNat = 48 from rfl, show '9'.toNat = 57 from rfl,
    show 'a'.toNat = 97 from rfl, show 'f'.toNat = 102 from rfl, show 'A'.toNat = 65 from rfl,
    show 'F'.toNat = 70 from rfl]
  split
  · rw [Option.any_some, decide_eq_true_iff, show Radix.decimal.base = 10 from rfl]
    omega
  · split
    · rw [Option.any_some, decide_eq_true_iff, show Radix.decimal.base = 10 from rfl]
      omega
    · split
      · rw [Option.any_some, decide_eq_true_iff, show Radix.decimal.base = 10 from rfl]
        omega
      · simp only [Option.any_none, Bool.false_eq_true, false_iff]
        omega

theorem forall_isDecimalDigit {p : Char → Prop} (h : ∀ n < 10, p (Char.ofNat (48 + n))) {c : Char}
    (hc : isDecimalDigit c = true) : p c := by
  rw [isDecimalDigit_iff] at hc
  have := h (c.toNat - 48) (by omega)
  rwa [show 48 + (c.toNat - 48) = c.toNat by omega, Char.ofNat_toNat] at this

theorem splitSign_of_isDigit {r : Radix} {c : Char} (h : r.isDigit c = true) (cs : List Char) :
    splitSign (c :: cs) = (false, c :: cs) := by
  unfold splitSign
  split
  · rename_i heq
    cases heq
    cases r <;> exact absurd h (by decide)
  · rename_i heq
    cases heq
    cases r <;> exact absurd h (by decide)
  · rfl

/-! ### Integers -/

theorem integerOfChars_of_spells {r : Radix} {text : List Char} (h : r.Spells text) :
    integerOfChars r text =
      if r = .decimal ∧ maxDecimalDigits < text.length then .error (.inr text.length)
      else if maxWord < r.number text then .error (.inl .tooLarge) else .ok (r.number text) := by
  obtain ⟨digits, hdrop, hne, hdigits⟩ := h
  have hsign : splitSign digits = (false, digits) := by
    cases digits with
    | nil => rfl
    | cons c cs => exact splitSign_of_isDigit (hdigits c List.mem_cons_self) cs
  have hnumber : r.number text = r.value digits := by rw [Radix.number, hdrop]; rfl
  have hlength : r = .decimal → digits.length = text.length := by
    rintro rfl
    cases hdrop
    rfl
  have hsmall : ¬((r.value digits : Int) < minWord) := by
    unfold minWord
    omega
  rw [hnumber]
  simp only [integerOfChars, hdrop, hsign, if_neg hne,
    List.all_eq_true.mpr hdigits, Bool.true_eq_false, Bool.false_eq_true, if_false, if_neg hsmall]
  by_cases hr : r = .decimal
  · rw [hlength hr]
  · simp only [hr, false_and, if_false]

theorem decodeRadixInteger_of_spells {r : Radix} {text : String} (h : r.Spells text.toList) :
    decodeRadixInteger r text =
      if r = .decimal ∧ maxDecimalDigits < text.length then .error (.tooManyDigits text.length)
      else if maxWord < r.number text.toList then .error (.malformed ⟨text, .tooLarge, false⟩)
      else .ok (r.number text.toList) := by
  rw [decodeRadixInteger, integerOfChars_of_spells h, String.length_toList]
  by_cases hlong : r = .decimal ∧ maxDecimalDigits < text.length
  · rw [if_pos hlong, if_pos hlong]
  · rw [if_neg hlong, if_neg hlong]
    by_cases hlarge : maxWord < r.number text.toList
    · rw [if_pos hlarge, if_pos hlarge]
    · rw [if_neg hlarge, if_neg hlarge]

theorem errorOf?_decodeRadixInteger {r : Radix} {text : String} (h : r.Spells text.toList) :
    errorOf? (decodeRadixInteger r text) =
      if r = .decimal ∧ maxDecimalDigits < text.length then some (.tooManyDigits text.length)
      else (r.excess? text.toList).map fun reason => .malformed ⟨text, reason, false⟩ := by
  rw [decodeRadixInteger_of_spells h, Radix.excess?]
  by_cases hlong : r = .decimal ∧ maxDecimalDigits < text.length
  · rw [if_pos hlong, if_pos hlong]
    rfl
  · rw [if_neg hlong, if_neg hlong]
    by_cases hlarge : maxWord < r.number text.toList
    · rw [if_pos hlarge, if_pos hlarge]
      rfl
    · rw [if_neg hlarge, if_neg hlarge]
      rfl

/-! ### Prefixes -/

/-- The letters that announce a radix. -/
def radixMarks : List Char := ['b', 'B', 'o', 'O', 'x', 'X']

theorem of_mem_radixMarks {mark : Char} (h : mark ∈ radixMarks) :
    isDecimalDigit mark = false ∧ mark ≠ '.' ∧ ¬(mark = 'e' ∨ mark = 'E') := by
  simp only [radixMarks, List.mem_cons, List.not_mem_nil, or_false] at h
  rcases h with rfl | rfl | rfl | rfl | rfl | rfl <;> decide

theorem exists_mark {r : Radix} (hr : r ≠ .decimal) {cs digits : List Char}
    (h : r.dropPrefix? cs = some digits) :
    ∃ mark ∈ radixMarks, cs = '0' :: mark :: digits ∧
      ∀ ds, prefixRadix? ('0' :: mark :: ds) = some r := by
  obtain ⟨mark, rfl, -⟩ := Terminal.dropPrefix?_eq_some hr h
  refine ⟨mark, ?_⟩
  cases r with
  | decimal => exact absurd rfl hr
  | binary =>
    simp only [Radix.dropPrefix?, Radix.marks?, Option.ite_none_right_eq_some] at h
    rcases h.1 with rfl | rfl
    · exact ⟨by decide, rfl, fun _ => rfl⟩
    · exact ⟨by decide, rfl, fun _ => rfl⟩
  | octal =>
    simp only [Radix.dropPrefix?, Radix.marks?, Option.ite_none_right_eq_some] at h
    rcases h.1 with rfl | rfl
    · exact ⟨by decide, rfl, fun _ => rfl⟩
    · exact ⟨by decide, rfl, fun _ => rfl⟩
  | hexadecimal =>
    simp only [Radix.dropPrefix?, Radix.marks?, Option.ite_none_right_eq_some] at h
    rcases h.1 with rfl | rfl
    · exact ⟨by decide, rfl, fun _ => rfl⟩
    · exact ⟨by decide, rfl, fun _ => rfl⟩

theorem prefixRadix?_eq_none {cs : List Char} (h : ∀ c ∈ cs.tail.head?, c ∉ radixMarks) :
    prefixRadix? cs = none := by
  unfold prefixRadix?
  rw [List.find?_eq_none]
  intro r hr hsome
  have hne : r ≠ .decimal := by
    rintro rfl
    revert hr
    decide
  obtain ⟨digits, hdigits⟩ := Option.isSome_iff_exists.mp hsome
  obtain ⟨mark, hmark, rfl, -⟩ := exists_mark hne hdigits
  exact h mark rfl hmark

theorem not_mem_radixMarks {c : Char} (h : isDecimalDigit c = true) : c ∉ radixMarks := by
  intro hmem
  rw [(of_mem_radixMarks hmem).1] at h
  cases h

/-! ### Floats -/

theorem matchesLetter_of_isDecimalDigit {c : Char} (h : isDecimalDigit c = true) :
    FloatForm.matchesLetter 'i' c = false ∧ FloatForm.matchesLetter 'n' c = false :=
  forall_isDecimalDigit
    (p := fun c => FloatForm.matchesLetter 'i' c = false ∧ FloatForm.matchesLetter 'n' c = false)
    (by decide) h

theorem ofChars?_of_isDecimalDigit {c : Char} (h : isDecimalDigit c = true) (cs : List Char) :
    FloatForm.ofChars? (c :: cs) = (FloatForm.numberOfChars? (c :: cs)).map fun number =>
      .scientific false number.1 number.2 := by
  obtain ⟨hi, hn⟩ := matchesLetter_of_isDecimalDigit h
  have hsign : splitSign (c :: cs) = (false, c :: cs) :=
    splitSign_of_isDigit (r := .decimal) h cs
  simp [FloatForm.ofChars?, hsign, FloatForm.infinityWords, FloatForm.matchesWord, hi, hn]

theorem ofChars?_decimal {whole fraction : List Char} (hne : whole ≠ [])
    (hwhole : ∀ c ∈ whole, isDecimalDigit c = true)
    (hfraction : ∀ c ∈ fraction, isDecimalDigit c = true) :
    FloatForm.ofChars? (whole ++ '.' :: fraction) =
      some (.scientific false (Radix.decimal.value (whole ++ fraction)) (0 - fraction.length)) := by
  have htake : (whole ++ '.' :: fraction).takeWhile isDecimalDigit = whole := by
    rw [List.takeWhile_append_of_pos hwhole, List.takeWhile_cons_of_neg (by decide),
      List.append_nil]
  have hdrop : (whole ++ '.' :: fraction).dropWhile isDecimalDigit = '.' :: fraction := by
    rw [List.dropWhile_append_of_pos hwhole, List.dropWhile_cons_of_neg (by decide)]
  have hsplit : FloatForm.splitFraction ('.' :: fraction) = (fraction, []) := by
    have htake : fraction.takeWhile isDecimalDigit = fraction := by
      simpa using @List.takeWhile_append_of_pos _ isDecimalDigit fraction [] hfraction
    have hdrop : fraction.dropWhile isDecimalDigit = [] := by
      simpa using @List.dropWhile_append_of_pos _ isDecimalDigit fraction [] hfraction
    rw [FloatForm.splitFraction, htake, hdrop]
  have hnumber : FloatForm.numberOfChars? (whole ++ '.' :: fraction) =
      some (Radix.decimal.value (whole ++ fraction), (0 : Int) - fraction.length) := by
    unfold FloatForm.numberOfChars?
    simp only [htake, hdrop, hsplit, List.append_eq_nil_iff, hne, false_and, if_false]
    rfl
  cases whole with
  | nil => exact absurd rfl hne
  | cons c cs =>
    rw [List.cons_append, ofChars?_of_isDecimalDigit (hwhole c List.mem_cons_self),
      ← List.cons_append, hnumber]
    rfl

theorem ofChars?_of_mark {mark : Char} (hmark : mark ∈ radixMarks) (cs : List Char) :
    FloatForm.ofChars? ('0' :: mark :: cs) = none := by
  have hdigit : isDecimalDigit '0' = true := by decide
  obtain ⟨hmarkDigit, hpoint, hexponent⟩ := of_mem_radixMarks hmark
  rw [ofChars?_of_isDecimalDigit hdigit]
  simp [FloatForm.numberOfChars?, hdigit, hmarkDigit, FloatForm.splitFraction, hpoint,
    FloatForm.exponentOfChars?, hexponent]

theorem errorOf?_decodeFloat_decimal {text : String} {whole fraction : List Char}
    (htext : text.toList = whole ++ '.' :: fraction) (hne : whole ≠ [])
    (hwhole : ∀ c ∈ whole, isDecimalDigit c = true)
    (hfraction : ∀ c ∈ fraction, isDecimalDigit c = true) : errorOf? (decodeFloat text) = none := by
  rw [decodeFloat, htext, ofChars?_decimal hne hwhole hfraction]
  rfl

theorem decodeFloat_of_mark {text : String} {mark : Char} {cs : List Char}
    (htext : text.toList = '0' :: mark :: cs) (hmark : mark ∈ radixMarks) :
    decodeFloat text = .error (.malformed ⟨text, .notFloat, false⟩) := by
  rw [decodeFloat, htext, ofChars?_of_mark hmark]

theorem ne_point_of_isDigit {r : Radix} {c : Char} (h : r.isDigit c = true) : c ≠ '.' := by
  rintro rfl
  cases r <;> exact absurd h (by decide)

theorem ne_point_of_spells {r : Radix} {whole : List Char} (h : r.Spells whole) :
    ∀ c ∈ whole, c ≠ '.' := by
  obtain ⟨digits, hdrop, -, hdigits⟩ := h
  by_cases hr : r = .decimal
  · subst hr
    cases hdrop
    intro c hc
    exact ne_point_of_isDigit (hdigits c hc)
  · obtain ⟨mark, hmark, rfl, -⟩ := exists_mark hr hdrop
    simp only [List.forall_mem_cons]
    exact ⟨by decide, (of_mem_radixMarks hmark).2.1, fun c hc => ne_point_of_isDigit (hdigits c hc)⟩

theorem takeWhile_point {whole : List Char} (h : ∀ c ∈ whole, c ≠ '.') (fraction : List Char) :
    (whole ++ '.' :: fraction).takeWhile (· ≠ '.') = whole ∧
      (whole ++ '.' :: fraction).dropWhile (· ≠ '.') = '.' :: fraction := by
  have hall : ∀ c ∈ whole, decide (c ≠ '.') = true := fun c hc => decide_eq_true (h c hc)
  constructor
  · rw [List.takeWhile_append_of_pos hall, List.takeWhile_cons_of_neg (by decide), List.append_nil]
  · rw [List.dropWhile_append_of_pos hall, List.dropWhile_cons_of_neg (by decide)]

theorem decodeRadixFloat_eq {text : String} {whole fraction : List Char}
    (htext : text.toList = whole ++ '.' :: fraction) (hpoint : ∀ c ∈ whole, c ≠ '.') :
    decodeRadixFloat text = (do
      let integer ← decimalPart whole
      decodeFloat (String.ofList (integer ++ '.' :: fraction))).mapError (Fault.derivedFrom text) := by
  obtain ⟨htake, hdrop⟩ := takeWhile_point hpoint fraction
  unfold decodeRadixFloat
  rw [htext, hdrop, htake]

theorem isDecimalDigit_decimalNumeral (n : Nat) :
    decimalNumeral n ≠ [] ∧ ∀ c ∈ decimalNumeral n, isDecimalDigit c = true := by
  unfold decimalNumeral
  rw [if_neg (by omega), Int.natAbs_natCast]
  refine ⟨Nat.toDigits_ne_nil, fun c hc => ?_⟩
  have hdigit := Nat.isDigit_of_mem_toDigits (by decide) (by decide) hc
  simp only [Char.isDigit, Bool.and_eq_true, decide_eq_true_eq] at hdigit
  rw [isDecimalDigit_iff]
  exact ⟨hdigit.1, Nat.lt_succ_of_le hdigit.2⟩

theorem prefixRadix?_decimal {whole : List Char} (hne : whole ≠ [])
    (hwhole : ∀ c ∈ whole, isDecimalDigit c = true) (fraction : List Char) :
    prefixRadix? whole = none ∧ prefixRadix? (whole ++ '.' :: fraction) = none := by
  cases whole with
  | nil => exact absurd rfl hne
  | cons c cs =>
    refine ⟨prefixRadix?_eq_none fun d hd => ?_, prefixRadix?_eq_none fun d hd => ?_⟩
    · exact not_mem_radixMarks (hwhole d (List.mem_cons_of_mem _ (List.mem_of_mem_head? hd)))
    · cases cs with
      | nil =>
        cases hd
        decide
      | cons e es =>
        cases hd
        exact not_mem_radixMarks (hwhole d (by simp))

theorem errorOf?_decodeRadixFloat {r : Radix} {text : String} {whole fraction : List Char}
    (htext : text.toList = whole ++ '.' :: fraction) (hwhole : r.Spells whole)
    (hfraction : ∀ c ∈ fraction, isDecimalDigit c = true) :
    errorOf? (decodeRadixFloat text) = (prefixRadix? text.toList).bind fun r =>
      (r.excess? whole).map fun reason => .malformed ⟨text, reason, true⟩ := by
  obtain ⟨digits, hdrop, hne, hdigits⟩ := id hwhole
  by_cases hr : r = .decimal
  · subst hr
    cases hdrop
    obtain ⟨hnone, hnone'⟩ := prefixRadix?_decimal hne hdigits fraction
    rw [decodeRadixFloat_eq htext (ne_point_of_spells hwhole), decimalPart, hnone, htext, hnone']
    show errorOf? ((decodeFloat (String.ofList (whole ++ '.' :: fraction))).mapError _) = none
    rw [errorOf?_mapError, errorOf?_decodeFloat_decimal String.toList_ofList hne hdigits hfraction]
    rfl
  · obtain ⟨mark, hmark, rfl, hprefix⟩ := exists_mark hr hdrop
    have hspells : r.Spells (String.ofList ('0' :: mark :: digits)).toList := by
      rwa [String.toList_ofList]
    have hdecode := decodeRadixInteger_of_spells hspells
    rw [if_neg (fun h => hr h.1), String.toList_ofList] at hdecode
    have hpart : decimalPart ('0' :: mark :: digits) =
        (decodeRadixInteger r (String.ofList ('0' :: mark :: digits))).map decimalNumeral := by
      rw [decimalPart, hprefix]
    rw [decodeRadixFloat_eq htext (ne_point_of_spells hwhole), hpart, hdecode, htext,
      List.cons_append, List.cons_append, hprefix, Option.bind_some, Radix.excess?]
    by_cases hlarge : maxWord < r.number ('0' :: mark :: digits)
    · rw [if_pos hlarge, if_pos hlarge]
      rfl
    · rw [if_neg hlarge, if_neg hlarge, Except.map]
      obtain ⟨hne', hall⟩ := isDecimalDigit_decimalNumeral (r.number ('0' :: mark :: digits))
      simp only [bind, Except.bind, Option.map_none, errorOf?_mapError,
        errorOf?_decodeFloat_decimal String.toList_ofList hne' hall hfraction]

theorem errorOf?_decodeFloat {r : Radix} {text : String} {whole fraction : List Char}
    (htext : text.toList = whole ++ '.' :: fraction) (hwhole : r.Spells whole)
    (hfraction : ∀ c ∈ fraction, isDecimalDigit c = true) :
    errorOf? (decodeFloat text) =
      (prefixRadix? text.toList).map fun _ => .malformed ⟨text, .notFloat, false⟩ := by
  obtain ⟨digits, hdrop, hne, hdigits⟩ := hwhole
  by_cases hr : r = .decimal
  · subst hr
    cases hdrop
    rw [errorOf?_decodeFloat_decimal htext hne hdigits hfraction, htext,
      (prefixRadix?_decimal hne hdigits fraction).2]
    rfl
  · obtain ⟨mark, hmark, rfl, hprefix⟩ := exists_mark hr hdrop
    rw [decodeFloat_of_mark htext hmark, htext, List.cons_append, List.cons_append, hprefix]
    rfl

/-! ### Characters -/

theorem dropWhile_append_of_head {α : Type} {p : α → Bool} {before rest : List α}
    (hbefore : ∀ x ∈ before, p x = true) (hrest : ∀ x ∈ rest.head?, p x = false) :
    (before ++ rest).dropWhile p = rest := by
  rw [List.dropWhile_append_of_pos hbefore]
  cases rest with
  | nil => rfl
  | cons x rest => rw [List.dropWhile_cons_of_neg (by simp [hrest x rfl])]

theorem trimEnds_append {α : Type} {p : α → Bool} {before middle behind : List α}
    (hbefore : ∀ x ∈ before, p x = true) (hbehind : ∀ x ∈ behind, p x = true)
    (hhead : ∀ x ∈ middle.head?, p x = false) (hlast : ∀ x ∈ middle.getLast?, p x = false) :
    trimEnds p (before ++ (middle ++ behind)) = middle := by
  unfold trimEnds
  by_cases hmiddle : middle = []
  · subst hmiddle
    rw [List.nil_append, List.dropWhile_append_of_pos hbefore]
    simp [List.dropWhile_eq_nil_iff.mpr hbehind]
  · have hfront : ∀ x ∈ (middle ++ behind).head?, p x = false := by
      obtain ⟨c, rest, rfl⟩ := List.exists_cons_of_ne_nil hmiddle
      exact hhead
    rw [dropWhile_append_of_head hbefore hfront, List.reverse_append,
      dropWhile_append_of_head (by simpa using hbehind) (by simpa using hlast),
      List.reverse_reverse]

theorem errorOf?_decodeChar {text : String} (h : LiteralKind.char.Spells text.toList) :
    errorOf? (decodeChar text) =
      if text.toList = "''".toList then some (.malformed ⟨text, .emptyChar, false⟩) else none := by
  obtain ⟨inside, htext, hinside⟩ := h
  have hquote : ∀ c ∈ inside, (c == '\'') = false := fun c hc => by simpa using (hinside c hc).1
  have htrim : trimEnds (· == '\'') (['\''] ++ (inside ++ ['\''])) = inside :=
    trimEnds_append (by simp) (by simp) (fun c hc => hquote c (List.mem_of_mem_head? hc))
      fun c hc => hquote c (List.mem_of_mem_getLast? hc)
  replace htrim : trimEnds (· == '\'') text.toList = inside := htext ▸ htrim
  rw [decodeChar, htrim]
  cases inside with
  | nil =>
    rw [htext]
    rfl
  | cons c cs =>
    rw [htext, if_neg (by simp)]
    rfl

/-! ### All literals -/

/-- **A literal has a value unless it is bad.** The one other fault is that of a decimal integer
with too many digits. -/
theorem errorOf?_value {k : LiteralKind} {text : String} (h : k.Spells text.toList)
    (radixFloats : Bool) : errorOf? (k.value radixFloats text) = k.fault? radixFloats text := by
  have hintegers {r : Radix} (hr : r.Spells text.toList) (hk : k = .decInt ↔ r = .decimal)
      (hdefect : k.defect? radixFloats text.toList = r.excess? text.toList)
      (hfloat : k ≠ .float) :
      errorOf? (decodeRadixInteger r text) = k.fault? radixFloats text := by
    rw [errorOf?_decodeRadixInteger hr, LiteralKind.fault?, hdefect]
    simp only [hk, LiteralKind.malformed, hfloat, decide_false, Bool.and_false]
  match k with
  | .decInt => exact (errorOf?_map _ _).trans (hintegers h (by decide) rfl nofun)
  | .binInt => exact (errorOf?_map _ _).trans (hintegers h (by decide) rfl nofun)
  | .octInt => exact (errorOf?_map _ _).trans (hintegers h (by decide) rfl nofun)
  | .hexInt => exact (errorOf?_map _ _).trans (hintegers h (by decide) rfl nofun)
  | .float =>
    obtain ⟨r, whole, fraction, htext, hwhole, -, hfraction⟩ := h
    have htake : text.toList.takeWhile (· ≠ '.') = whole := by
      rw [htext, (takeWhile_point (ne_point_of_spells hwhole) fraction).1]
    refine (errorOf?_map _ _).trans ?_
    cases radixFloats with
    | true =>
      simp only [if_true, errorOf?_decodeRadixFloat htext hwhole hfraction, LiteralKind.fault?,
        LiteralKind.defect?, htake]
      cases prefixRadix? text.toList <;> rfl
    | false =>
      simp only [Bool.false_eq_true, if_false, errorOf?_decodeFloat htext hwhole hfraction,
        LiteralKind.fault?, LiteralKind.defect?]
      cases prefixRadix? text.toList <;> rfl
  | .char =>
    refine (errorOf?_map _ _).trans ((errorOf?_decodeChar h).trans ?_)
    have hkind : ¬(LiteralKind.char = .decInt ∧ maxDecimalDigits < text.length) := by
      rintro ⟨⟨⟩, -⟩
    simp only [LiteralKind.fault?, if_neg hkind, LiteralKind.defect?, LiteralKind.malformed]
    by_cases hempty : text.toList = "''".toList
    · rw [if_pos hempty, if_pos hempty]
      simp
    · rw [if_neg hempty, if_neg hempty]
      rfl
  | .string => rfl

end RuleTree
