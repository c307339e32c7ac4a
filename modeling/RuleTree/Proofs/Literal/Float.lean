import RuleTree.Proofs.Literal.Scientific
import RuleTree.Proofs.Number.Rounding

/-!
# Float literals

Which texts are floats, and which number each of them is. A float is a word for infinity or NaN, or
a number in scientific notation; a word for infinity with a variant of the letter i has the form of
a float but is none.

* `IsFloat`, `StrangeWord`: the floats, and the words with such a variant.
* `ofChars?_eq`, `scientific_iff`, `floatWord_iff`, `strangeWord_iff`: how texts are read.
* `decodeFloat_nearest`: a number is decoded as the magnitude nearest to it.
* `decodeFloat_accepts`: which texts are decoded, and how the others are refused.
-/

namespace RuleTree

open FloatForm (isStrangeLetter matchesLetter matchesWord infinityWords numberOfChars?)

/-- The word for NaN. -/
def nanWord : List Char := "nan".toList

/-- A word for infinity or NaN in any mix of upper and lower case, behind an optional sign. -/
def FloatWord (text : List Char) : Prop :=
  ∃ (sign word : List Char) (negative : Bool), text = sign ++ word ∧ IsSign sign negative ∧
    word.map Char.toLower ∈ ["inf".toList, "infinity".toList, "nan".toList]

/-- The text is a float: a word or a number. -/
def IsFloat (text : List Char) : Prop :=
  FloatWord text ∨ ∃ negative x, Scientific text negative x

/-- The lower case of a letter where the dotless small i and the dotted capital i count as an i. -/
def foldLetter (c : Char) : Char := if isStrangeLetter c then 'i' else c.toLower

/-- A word for infinity, behind an optional sign, in which some i is dotless or a dotted capital. -/
def StrangeWord (text : List Char) : Prop :=
  ∃ (sign word : List Char) (negative : Bool), text = sign ++ word ∧ IsSign sign negative ∧
    word.map foldLetter ∈ ["inf".toList, "infinity".toList] ∧
      ∃ c ∈ word, c = '\u0131' ∨ c = '\u0130'

/-! ### Words -/

theorem isStrangeLetter_iff {c : Char} :
    isStrangeLetter c = true ↔ c = '\u0131' ∨ c = '\u0130' := by
  simp [isStrangeLetter]

theorem toLower_of_isStrangeLetter {c : Char} (h : isStrangeLetter c = true) : c.toLower = c := by
  rcases isStrangeLetter_iff.mp h with rfl | rfl
  · rfl
  · rfl

theorem matchesLetter_iff {letter c : Char} (h : isStrangeLetter letter = false) :
    matchesLetter letter c = true ↔ foldLetter c = letter := by
  unfold matchesLetter foldLetter
  by_cases hc : isStrangeLetter c = true
  · have hne : c ≠ letter := by
      rintro rfl
      rw [hc] at h
      cases h
    simp [hc, toLower_of_isStrangeLetter hc, hne, eq_comm]
  · simp [hc]

theorem matchesWord_iff {word cs : List Char} (h : ∀ c ∈ word, isStrangeLetter c = false) :
    matchesWord word cs = true ↔ cs.map foldLetter = word := by
  induction word generalizing cs with
  | nil => cases cs <;> simp [matchesWord]
  | cons letter word ih =>
    obtain ⟨hletter, hword⟩ := List.forall_mem_cons.mp h
    cases cs with
    | nil => simp [matchesWord]
    | cons c cs => simp [matchesWord, matchesLetter_iff hletter, ih hword]

theorem map_toLower_eq_iff {word cs : List Char} (h : ∀ c ∈ word, isStrangeLetter c = false) :
    cs.map Char.toLower = word ↔ cs.map foldLetter = word ∧ cs.any isStrangeLetter = false := by
  induction cs generalizing word with
  | nil => simp
  | cons c cs ih =>
    cases word with
    | nil => simp
    | cons letter word =>
      obtain ⟨hletter, hword⟩ := List.forall_mem_cons.mp h
      simp only [List.map_cons, List.cons.injEq, ih hword, List.any_cons, Bool.or_eq_false_iff]
      by_cases hc : isStrangeLetter c = true
      · have hne : c.toLower ≠ letter := by
          rintro rfl
          rw [toLower_of_isStrangeLetter hc, hc] at hletter
          cases hletter
        simp [hc, hne]
      · simp only [hc, foldLetter, Bool.false_eq_true, if_false, true_and]
        exact and_assoc.symm

/-- A text with an optional sign in front is what stands behind its sign, if that cannot begin with
a sign itself. -/
theorem exists_sign_iff {cs : List Char} {p : Bool → List Char → Prop}
    (hp : ∀ negative body, p negative body → ∀ c ∈ body.head?, c ≠ '+' ∧ c ≠ '-') :
    (∃ sign body negative, cs = sign ++ body ∧ IsSign sign negative ∧ p negative body) ↔
      p (splitSign cs).1 (splitSign cs).2 := by
  constructor
  · rintro ⟨sign, body, negative, rfl, hsign, hbody⟩
    rwa [splitSign_append hsign (hp negative body hbody)]
  · intro hbody
    obtain ⟨sign, hsign, hcs⟩ := exists_sign cs
    exact ⟨sign, _, _, hcs, hsign, hbody⟩

/-! ### The reader -/

theorem isStrangeLetter_infinityWords :
    ∀ word ∈ infinityWords, ∀ c ∈ word, isStrangeLetter c = false := by
  simp [infinityWords, isStrangeLetter]

theorem isStrangeLetter_nanWord : ∀ c ∈ nanWord, isStrangeLetter c = false := by
  simp [nanWord, isStrangeLetter]

theorem any_matchesWord_iff {body : List Char} :
    (infinityWords.any fun word => matchesWord word body) = true ↔
      body.map foldLetter ∈ infinityWords := by
  rw [List.any_eq_true]
  constructor
  · rintro ⟨word, hword, hmatch⟩
    rwa [(matchesWord_iff (isStrangeLetter_infinityWords word hword)).mp hmatch]
  · intro h
    exact ⟨_, h, (matchesWord_iff (isStrangeLetter_infinityWords _ h)).mpr rfl⟩

theorem ofChars?_eq (cs : List Char) :
    FloatForm.ofChars? cs =
      if (splitSign cs).2.map foldLetter ∈ infinityWords then
        some (if (splitSign cs).2.any isStrangeLetter then .strangeWord
          else .infinity (splitSign cs).1)
      else if (splitSign cs).2.map foldLetter = nanWord then some .nan
      else (numberOfChars? (splitSign cs).2).map fun number =>
        .scientific (splitSign cs).1 number.1 number.2 := by
  simp only [← any_matchesWord_iff, ← matchesWord_iff isStrangeLetter_nanWord]
  rfl

theorem map_foldLetter_of_number {body : List Char} {number : Nat × ℤ}
    (h : numberOfChars? body = some number) :
    body.map foldLetter ∉ infinityWords ∧ body.map foldLetter ≠ nanWord := by
  obtain ⟨c, cs, rfl, hc⟩ := head_of_number h
  have hletter : foldLetter c ≠ 'i' ∧ foldLetter c ≠ 'n' := by
    rcases hc with hc | rfl
    · exact forall_isDecimalDigit (p := fun c => foldLetter c ≠ 'i' ∧ foldLetter c ≠ 'n')
        (by decide) hc
    · decide
  simp [infinityWords, nanWord, hletter]

/-! ### What is read -/

theorem ne_sign_of_foldLetter {c : Char} (h : foldLetter c ∈ ['i', 'n']) : c ≠ '+' ∧ c ≠ '-' := by
  constructor
  · rintro rfl
    revert h
    decide
  · rintro rfl
    revert h
    decide

theorem head_of_word : ∀ word ∈ nanWord :: infinityWords, ∀ c ∈ word.head?, c ∈ ['i', 'n'] := by
  simp [nanWord, infinityWords]

theorem ne_sign_of_word {body : List Char} (h : body.map foldLetter ∈ nanWord :: infinityWords) :
    ∀ c ∈ body.head?, c ≠ '+' ∧ c ≠ '-' := by
  intro c hc
  refine ne_sign_of_foldLetter (head_of_word _ h _ ?_)
  rw [List.head?_map]
  exact Option.mem_map_of_mem foldLetter hc

theorem ne_sign_of_number {body : List Char} {number : Nat × ℤ}
    (h : numberOfChars? body = some number) : ∀ c ∈ body.head?, c ≠ '+' ∧ c ≠ '-' := by
  obtain ⟨c, cs, rfl, hc⟩ := head_of_number h
  intro d hd
  cases hd
  rcases hc with hc | rfl
  · exact ne_sign_of_isDigit (r := .decimal) hc
  · decide

theorem scientific_iff {cs : List Char} {negative : Bool} {x : ℚ} :
    Scientific cs negative x ↔ (splitSign cs).1 = negative ∧
      ∃ c e, numberOfChars? (splitSign cs).2 = some (c, e) ∧ x = c * 10 ^ e := by
  rw [← exists_sign_iff (p := fun sign body => sign = negative ∧
    ∃ c e, numberOfChars? body = some (c, e) ∧ x = c * 10 ^ e) fun _ body hbody => by
      obtain ⟨-, c, e, hnumber, -⟩ := hbody
      exact ne_sign_of_number hnumber]
  simp only [exists_numberOfChars?_iff]
  constructor
  · rintro ⟨sign, mantissa, exponent, q, e, rfl, hsign, hmantissa, hexponent, hx⟩
    exact ⟨sign, _, _, rfl, hsign, rfl, mantissa, exponent, q, e, rfl, hmantissa, hexponent, hx⟩
  · rintro ⟨sign, _, _, rfl, hsign, rfl, mantissa, exponent, q, e, rfl, hmantissa, hexponent, hx⟩
    exact ⟨sign, mantissa, exponent, q, e, rfl, hsign, hmantissa, hexponent, hx⟩

theorem any_isStrangeLetter_of_nan {word : List Char} (h : word.map foldLetter = nanWord) :
    word.any isStrangeLetter = false := by
  rw [List.any_eq_false]
  intro c hc hstrange
  have hmem := List.mem_map_of_mem (f := foldLetter) hc
  rw [h, foldLetter, if_pos hstrange] at hmem
  revert hmem
  decide

/-- In lower case a word is one of the three if it is one of them letter by letter, without variants
of i. -/
theorem map_toLower_mem_iff {word : List Char} :
    word.map Char.toLower ∈ ["inf".toList, "infinity".toList, "nan".toList] ↔
      (word.map foldLetter ∈ infinityWords ∧ word.any isStrangeLetter = false) ∨
        word.map foldLetter = nanWord := by
  have hinfinity := isStrangeLetter_infinityWords
  simp only [infinityWords, List.forall_mem_cons] at hinfinity
  obtain ⟨hshort, hlong, -⟩ := hinfinity
  simp only [infinityWords, List.mem_cons, List.not_mem_nil, or_false,
    map_toLower_eq_iff hshort, map_toLower_eq_iff hlong]
  rw [show "nan".toList = nanWord from rfl, map_toLower_eq_iff isStrangeLetter_nanWord,
    ← or_assoc, ← or_and_right, and_iff_left_of_imp any_isStrangeLetter_of_nan]

theorem floatWord_iff {cs : List Char} :
    FloatWord cs ↔ ((splitSign cs).2.map foldLetter ∈ infinityWords ∧
      (splitSign cs).2.any isStrangeLetter = false) ∨
        (splitSign cs).2.map foldLetter = nanWord := by
  rw [← map_toLower_mem_iff, ← exists_sign_iff (p := fun _ word =>
    word.map Char.toLower ∈ ["inf".toList, "infinity".toList, "nan".toList])
    fun _ word hword => ne_sign_of_word (List.mem_cons.mpr
      ((map_toLower_mem_iff.mp hword).symm.imp_right And.left))]
  rfl

theorem strangeWord_iff {cs : List Char} :
    StrangeWord cs ↔ (splitSign cs).2.map foldLetter ∈ infinityWords ∧
      (splitSign cs).2.any isStrangeLetter = true := by
  rw [List.any_eq_true]
  simp only [isStrangeLetter_iff]
  rw [← exists_sign_iff (p := fun _ word => word.map foldLetter ∈ infinityWords ∧
    ∃ c ∈ word, c = '\u0131' ∨ c = '\u0130') fun _ word hword =>
      ne_sign_of_word (List.mem_cons_of_mem _ hword.1)]
  rfl

/-! ### The decoder -/

section

variable {text : String} {negative : Bool} {x : ℚ}

theorem exists_nearest (h : Scientific text.toList negative x) :
    ∃ m, decodeFloat text = .ok (.signed negative m) ∧ m.Nearest x := by
  obtain ⟨hsign, c, e, hnumber, rfl⟩ := scientific_iff.mp h
  obtain ⟨hinfinity, hnan⟩ := map_foldLetter_of_number hnumber
  refine ⟨.ofDecimal c e, ?_, Magnitude.nearest_ofDecimal c e⟩
  unfold decodeFloat
  rw [ofChars?_eq, if_neg hinfinity, if_neg hnan, hnumber, hsign]
  rfl

theorem exists_of_floatWord (h : FloatWord text.toList) : ∃ x, decodeFloat text = .ok x := by
  unfold decodeFloat
  rw [ofChars?_eq]
  by_cases hinfinity : (splitSign text.toList).2.map foldLetter ∈ infinityWords
  · have hstrange : (splitSign text.toList).2.any isStrangeLetter = false := by
      rcases floatWord_iff.mp h with hword | hnan
      · exact hword.2
      · exact any_isStrangeLetter_of_nan hnan
    rw [if_pos hinfinity, hstrange]
    exact ⟨_, rfl⟩
  · have hnan := (floatWord_iff.mp h).resolve_left fun hword => hinfinity hword.1
    rw [if_neg hinfinity, if_pos hnan]
    exact ⟨_, rfl⟩

theorem decodeFloat_of_strangeWord (h : StrangeWord text.toList) :
    decodeFloat text = .error (.unreadable text) := by
  obtain ⟨hinfinity, hstrange⟩ := strangeWord_iff.mp h
  unfold decodeFloat
  rw [ofChars?_eq, if_pos hinfinity, hstrange]
  rfl

theorem exists_of_isFloat (h : IsFloat text.toList) : ∃ x, decodeFloat text = .ok x := by
  rcases h with hword | ⟨negative, x, hnumber⟩
  · exact exists_of_floatWord hword
  · obtain ⟨m, hm, -⟩ := exists_nearest hnumber
    exact ⟨_, hm⟩

theorem decodeFloat_of_not (hfloat : ¬IsFloat text.toList) (hstrange : ¬StrangeWord text.toList) :
    decodeFloat text = .error (.malformed ⟨text, .notFloat, false⟩) := by
  obtain ⟨hword, hnumber⟩ := not_or.mp hfloat
  rw [floatWord_iff, not_or] at hword
  rw [strangeWord_iff] at hstrange
  have hinfinity : (splitSign text.toList).2.map foldLetter ∉ infinityWords := by
    intro hin
    exact hword.1 ⟨hin, Bool.eq_false_iff.mpr fun hany => hstrange ⟨hin, hany⟩⟩
  have hnone : numberOfChars? (splitSign text.toList).2 = none := by
    rw [Option.eq_none_iff_forall_ne_some]
    rintro ⟨c, e⟩ hsome
    exact hnumber ⟨_, _, scientific_iff.mpr ⟨rfl, c, e, hsome, rfl⟩⟩
  unfold decodeFloat
  rw [ofChars?_eq, if_neg hinfinity, if_neg hword.2, hnone]
  rfl

end

/-- **Numbers are rounded to the nearest.** Any number in scientific notation, of any length and
with any exponent, is decoded as the magnitude nearest to it, behind the sign that is written; the
sign is the highest bit. What is written another way with the same sign is decoded as the same
float. -/
theorem decodeFloat_nearest {text : String} {negative : Bool} {x : ℚ}
    (h : Scientific text.toList negative x) :
    ∃ m : Magnitude, decodeFloat text = .ok (.signed negative m) ∧ m.Nearest x ∧
      (∃ bits, (Binary64.signed negative m).bits? = some bits ∧
        bits / 2 ^ 63 = (if negative then 1 else 0) ∧ bits % 2 ^ 63 = m.pattern) ∧
      ∀ other : String, Scientific other.toList negative x →
        decodeFloat other = decodeFloat text := by
  obtain ⟨m, hm, hnearest⟩ := exists_nearest h
  refine ⟨m, hm, hnearest, Binary64.exists_bits negative m, ?_⟩
  intro other hother
  obtain ⟨n, hn, hnearest'⟩ := exists_nearest hother
  rw [hm, hn, hnearest'.unique hnearest]

/-- What lies midway between two magnitudes goes to the even one, in each of its spellings. -/
theorem decodeFloat_nearest_tie :
    ∃ m : Magnitude, m.pattern = 1076 * 2 ^ 52 ∧ m.Nearest 9007199254740993 ∧
      decodeFloat "-9007199254740993" = .ok (.signed true m) ∧
      decodeFloat "-9007199254740.993E+3" = .ok (.signed true m) := by
  have hplain : Scientific "-9007199254740993".toList true 9007199254740993 :=
    ⟨"-".toList, "9007199254740993".toList, [], (9007199254740993 : Nat), 0, rfl, .minus,
      .integer (by decide) (denotes_decimal_iff.mpr ⟨List.all_eq_true.mp (by decide), rfl⟩),
      .absent, by norm_num⟩
  have hwhole : Radix.decimal.Denotes "9007199254740".toList 9007199254740 :=
    denotes_decimal_iff.mpr ⟨List.all_eq_true.mp (by decide), rfl⟩
  have hfraction : Radix.decimal.Denotes "993".toList 993 :=
    denotes_decimal_iff.mpr ⟨List.all_eq_true.mp (by decide), rfl⟩
  have hpower : Radix.decimal.Denotes "3".toList 3 :=
    denotes_decimal_iff.mpr ⟨List.all_eq_true.mp (by decide), rfl⟩
  have hpointed : Scientific "-9007199254740.993E+3".toList true 9007199254740993 :=
    ⟨"-".toList, "9007199254740.993".toList, "E+3".toList, _, _, rfl, .minus,
      .pointed (.inl (by decide)) hwhole hfraction,
      .present (.inr rfl) .plus (by decide) hpower, by norm_num [withSign]⟩
  obtain ⟨m, hm, hnearest, -, hsame⟩ := decodeFloat_nearest hplain
  have hpattern : decodeFloat "-9007199254740993" =
      .ok (.signed true ⟨1076 * Nat.pow 2 52, by decide⟩) := by
    decide +kernel
  refine ⟨m, ?_, hnearest, hm, (hsame _ hpointed).trans hm⟩
  rw [hpattern] at hm
  cases hm
  rfl

/-- **What is a float.** A text is decoded exactly if it is a word for infinity or NaN or a number
in scientific notation. Any other text is refused with the whole of it, but for the words with a
variant of i: they pass for words and are then found to be none. -/
theorem decodeFloat_accepts (text : String) :
    ((∃ x, decodeFloat text = .ok x) ↔ IsFloat text.toList) ∧
      (decodeFloat text = .error (.malformed ⟨text, .notFloat, false⟩) ↔
        ¬IsFloat text.toList ∧ ¬StrangeWord text.toList) ∧
      (decodeFloat text = .error (.unreadable text) ↔ StrangeWord text.toList) := by
  by_cases hfloat : IsFloat text.toList
  · obtain ⟨x, hx⟩ := exists_of_isFloat hfloat
    have hstrange : ¬StrangeWord text.toList := by
      intro hstrange
      rw [decodeFloat_of_strangeWord hstrange] at hx
      cases hx
    simp [hx, hfloat, hstrange]
  · by_cases hstrange : StrangeWord text.toList
    · simp [decodeFloat_of_strangeWord hstrange, hfloat, hstrange]
    · simp [decodeFloat_of_not hfloat hstrange, hfloat, hstrange]

/-- The word with a dotless i is neither decoded nor refused as malformed. -/
theorem decodeFloat_dotless :
    ¬∀ text : String, (∃ x, decodeFloat text = .ok x) ∨
      decodeFloat text = .error (.malformed ⟨text, .notFloat, false⟩) := by
  intro hall
  have hstrange : decodeFloat "\u0131nf" = .error (.unreadable "\u0131nf") := rfl
  rcases hall "\u0131nf" with ⟨x, hx⟩ | hmalformed
  · rw [hstrange] at hx
    cases hx
  · rw [hstrange] at hmalformed
    cases hmalformed

end RuleTree
