import RuleTree.Proofs.Literal.Numeral
import RuleTree.Proofs.Number.Positional

/-!
# Integer literals

Which texts are integers in a radix, and what is wrong with the others. Both are said without the
decoder: a text writes an integer by its prefix, its sign and its digits, and the checks that it has
to pass stand in a list.

* `Radix.Writes`: the integer that a text writes, of any size.
* `Radix.checks`, `FirstFailing`: the checks in their order, and the first that fails.
* `integerOfChars_explains`: what each outcome of the decoder says of the text.
* `decodeInteger_outcome`: which texts are decoded, and why the others are refused.
-/

namespace RuleTree

/-- An optional sign, and whether it is a minus. -/
inductive IsSign : List Char → Bool → Prop
  | absent : IsSign [] false
  | plus : IsSign ['+'] false
  | minus : IsSign ['-'] true

/-- A number behind a sign. -/
def withSign (negative : Bool) (n : Nat) : Int := if negative then -n else n

/-- `why` is the reason that stands beside the first of the checks that fails. -/
inductive FirstFailing : List (Prop × Reason) → Reason → Prop
  | here {p : Prop} {why : Reason} {rest : List (Prop × Reason)} (h : ¬p) :
    FirstFailing ((p, why) :: rest) why
  | later {p : Prop} {why : Reason} {check : Reason} {rest : List (Prop × Reason)} (h : p)
    (hrest : FirstFailing rest why) : FirstFailing ((p, check) :: rest) why

namespace Radix

/-- What announces the radix at the front of a literal, in either case; nothing for decimal. -/
def prefixes : Radix → List (List Char)
  | binary => ["0b".toList, "0B".toList]
  | octal => ["0o".toList, "0O".toList]
  | decimal => [[]]
  | hexadecimal => ["0x".toList, "0X".toList]

/-- The text writes the integer `v`: the prefix of the radix, an optional sign and at least one
digit. Digits may be zeros also in front of others. -/
def Writes (r : Radix) (text : List Char) (v : Int) : Prop :=
  ∃ (head sign digits : List Char) (negative : Bool) (n : Nat),
    text = head ++ (sign ++ digits) ∧ head ∈ r.prefixes ∧ IsSign sign negative ∧ digits ≠ [] ∧
      r.Denotes digits n ∧ v = withSign negative n

/-- What the text of an integer has to pass, with the reason that it is refused for otherwise. -/
def checks (r : Radix) (text : List Char) : List (Prop × Reason) :=
  [(∃ head ∈ r.prefixes, head <+: text, .noPrefix r),
    (¬∃ head ∈ r.prefixes, ∃ sign negative, IsSign sign negative ∧ text = head ++ sign, .noDigits),
    (∃ v, r.Writes text v, .badDigit r),
    (∀ v, r.Writes text v → v ≤ maxWord, .tooLarge),
    (∀ v, r.Writes text v → minWord ≤ v, .tooSmall)]

end Radix

/-! ### Signs -/

theorem exists_sign (body : List Char) :
    ∃ sign, IsSign sign (splitSign body).1 ∧ body = sign ++ (splitSign body).2 := by
  unfold splitSign
  split
  · exact ⟨['-'], .minus, rfl⟩
  · exact ⟨['+'], .plus, rfl⟩
  · exact ⟨[], .absent, rfl⟩

theorem splitSign_sign {sign : List Char} {negative : Bool} (h : IsSign sign negative) :
    splitSign sign = (negative, []) := by
  cases h <;> rfl

theorem splitSign_append {sign body : List Char} {negative : Bool} (h : IsSign sign negative)
    (hbody : ∀ c ∈ body.head?, c ≠ '+' ∧ c ≠ '-') :
    splitSign (sign ++ body) = (negative, body) := by
  cases h with
  | absent =>
    cases body with
    | nil => rfl
    | cons c cs =>
      obtain ⟨hplus, hminus⟩ := hbody c rfl
      simp [splitSign, hplus, hminus]
  | plus => rfl
  | minus => rfl

theorem ne_sign_of_isDigit {r : Radix} {c : Char} (h : r.isDigit c = true) : c ≠ '+' ∧ c ≠ '-' := by
  constructor
  · rintro rfl
    cases r <;> exact absurd h (by decide)
  · rintro rfl
    cases r <;> exact absurd h (by decide)

theorem splitSign_digits {sign digits : List Char} {negative : Bool} (h : IsSign sign negative)
    {r : Radix} (hdigits : ∀ c ∈ digits, r.isDigit c = true) :
    splitSign (sign ++ digits) = (negative, digits) :=
  splitSign_append h fun c hc => ne_sign_of_isDigit (hdigits c (List.mem_of_mem_head? hc))

/-! ### First failures -/

namespace FirstFailing

variable {checks : List (Prop × Reason)} {why why' : Reason}

theorem not_forall (h : FirstFailing checks why) : ¬∀ check ∈ checks, check.1 := by
  induction h with
  | here h => exact fun hall => h (hall _ List.mem_cons_self)
  | later _ _ ih => exact fun hall => ih fun check hmem => hall check (List.mem_cons_of_mem _ hmem)

theorem unique (h : FirstFailing checks why) (h' : FirstFailing checks why') : why = why' := by
  induction h with
  | here h =>
    cases h' with
    | here => rfl
    | later hp => exact absurd hp h
  | later h _ ih =>
    cases h' with
    | here hp => exact absurd h hp
    | later _ hrest => exact ih hrest

end FirstFailing

namespace Radix

variable {r : Radix} {cs : List Char} {v : Int}

theorem dropPrefix?_eq_some_iff {body : List Char} :
    r.dropPrefix? cs = some body ↔ ∃ head ∈ r.prefixes, cs = head ++ body := by
  constructor
  · intro h
    by_cases hr : r = .decimal
    · subst hr
      cases h
      exact ⟨[], by simp [prefixes], rfl⟩
    · obtain ⟨mark, rfl, hdrop⟩ := Terminal.dropPrefix?_eq_some hr h
      refine ⟨['0', mark], ?_, rfl⟩
      have hmark := hdrop []
      cases r with
      | decimal => exact absurd rfl hr
      | binary => simpa [dropPrefix?, marks?, prefixes, or_iff_not_imp_left] using hmark
      | octal => simpa [dropPrefix?, marks?, prefixes, or_iff_not_imp_left] using hmark
      | hexadecimal => simpa [dropPrefix?, marks?, prefixes, or_iff_not_imp_left] using hmark
  · rintro ⟨head, hmem, rfl⟩
    cases r with
    | decimal =>
      simp only [prefixes, List.mem_singleton] at hmem
      rw [hmem]
      rfl
    | binary =>
      simp only [prefixes, List.mem_cons, List.not_mem_nil, or_false] at hmem
      rcases hmem with rfl | rfl <;> rfl
    | octal =>
      simp only [prefixes, List.mem_cons, List.not_mem_nil, or_false] at hmem
      rcases hmem with rfl | rfl <;> rfl
    | hexadecimal =>
      simp only [prefixes, List.mem_cons, List.not_mem_nil, or_false] at hmem
      rcases hmem with rfl | rfl <;> rfl

theorem writes_iff :
    r.Writes cs v ↔ ∃ body, r.dropPrefix? cs = some body ∧ (splitSign body).2 ≠ [] ∧
      (∀ c ∈ (splitSign body).2, r.isDigit c = true) ∧
      v = withSign (splitSign body).1 (r.value (splitSign body).2) := by
  constructor
  · rintro ⟨head, sign, digits, negative, n, rfl, hhead, hsign, hne, hdigits, rfl⟩
    obtain ⟨hall, rfl⟩ := denotes_iff.mp hdigits
    refine ⟨sign ++ digits, dropPrefix?_eq_some_iff.mpr ⟨head, hhead, rfl⟩, ?_⟩
    rw [splitSign_digits hsign hall]
    exact ⟨hne, hall, rfl⟩
  · rintro ⟨body, hbody, hne, hall, rfl⟩
    obtain ⟨head, hhead, rfl⟩ := dropPrefix?_eq_some_iff.mp hbody
    obtain ⟨sign, hsign, hsplit⟩ := exists_sign body
    exact ⟨head, sign, _, _, _, congrArg (head ++ ·) hsplit, hhead, hsign, hne,
      denotes_iff.mpr ⟨hall, rfl⟩, rfl⟩

theorem Writes.unique {w : Int} (h : r.Writes cs v) (h' : r.Writes cs w) : v = w := by
  obtain ⟨body, hbody, -, -, rfl⟩ := writes_iff.mp h
  obtain ⟨body', hbody', -, -, rfl⟩ := writes_iff.mp h'
  rw [hbody] at hbody'
  cases hbody'
  rfl

theorem ne_sign_of_splitSign {body : List Char} (hbody : r.dropPrefix? cs = some body)
    (hne : (splitSign body).2 ≠ []) :
    ¬∃ head ∈ r.prefixes, ∃ sign negative, IsSign sign negative ∧ cs = head ++ sign := by
  rintro ⟨head, hhead, sign, negative, hsign, rfl⟩
  rw [dropPrefix?_eq_some_iff.mpr ⟨head, hhead, rfl⟩] at hbody
  cases hbody
  rw [splitSign_sign hsign] at hne
  exact hne rfl

theorem Writes.exists_head (h : r.Writes cs v) : ∃ head ∈ r.prefixes, head <+: cs := by
  obtain ⟨head, sign, digits, _, _, rfl, hhead, -⟩ := h
  exact ⟨head, hhead, _, rfl⟩

theorem Writes.ne_sign (h : r.Writes cs v) :
    ¬∃ head ∈ r.prefixes, ∃ sign negative, IsSign sign negative ∧ cs = head ++ sign := by
  obtain ⟨body, hbody, hne, -⟩ := writes_iff.mp h
  exact ne_sign_of_splitSign hbody hne

theorem checks_of_writes (h : r.Writes cs v) (hmin : minWord ≤ v) (hmax : v ≤ maxWord) :
    ∀ check ∈ r.checks cs, check.1 := by
  simp only [checks, List.forall_mem_cons]
  refine ⟨h.exists_head, h.ne_sign, ⟨v, h⟩, ?_, ?_, by simp⟩
  · intro w hw
    rwa [hw.unique h]
  · intro w hw
    rwa [hw.unique h]

/-- What an outcome of the decoder says of the text: an integer that fits in a word is written, or a
check fails, or there are more decimal digits than allowed. -/
def Explains (r : Radix) (cs : List Char) : Except IntegerFault Int → Prop
  | .ok v => r.Writes cs v ∧ minWord ≤ v ∧ v ≤ maxWord
  | .error (.inl why) => FirstFailing (r.checks cs) why
  | .error (.inr _) => r = .decimal ∧ maxDecimalDigits < cs.countP isDecimalDigit

theorem explains_of_writes (h : r.Writes cs v) :
    r.Explains cs (if maxWord < v then .error (.inl .tooLarge)
      else if v < minWord then .error (.inl .tooSmall) else .ok v) := by
  have hhead := h.exists_head
  have hsign := h.ne_sign
  have hexists : ∃ v, r.Writes cs v := ⟨v, h⟩
  by_cases hlarge : maxWord < v
  · rw [if_pos hlarge]
    exact .later hhead (.later hsign (.later hexists
      (.here fun hall => Int.not_le.mpr hlarge (hall v h))))
  · rw [if_neg hlarge]
    have hmax : ∀ w, r.Writes cs w → w ≤ maxWord := by
      intro w hw
      rw [hw.unique h]
      exact Int.not_lt.mp hlarge
    by_cases hsmall : v < minWord
    · rw [if_pos hsmall]
      exact .later hhead (.later hsign (.later hexists (.later hmax
        (.here fun hall => Int.not_le.mpr hsmall (hall v h)))))
    · rw [if_neg hsmall]
      exact ⟨h, Int.not_lt.mp hsmall, Int.not_lt.mp hlarge⟩

end Radix

/-! ### The decoder -/

section

variable {r : Radix} {cs body digits : List Char} {negative : Bool}

theorem length_le_countP (hbody : Radix.decimal.dropPrefix? cs = some body)
    (hpair : splitSign body = (negative, digits))
    (hdigits : ∀ c ∈ digits, isDecimalDigit c = true) :
    digits.length ≤ cs.countP isDecimalDigit := by
  obtain ⟨head, -, hcs⟩ := Radix.dropPrefix?_eq_some_iff.mp hbody
  obtain ⟨sign, -, hsplit⟩ := exists_sign body
  rw [hpair] at hsplit
  rw [hcs, hsplit, List.countP_append, List.countP_append, List.countP_eq_length.mpr hdigits]
  omega

theorem explains_of_dropPrefix? (hbody : r.dropPrefix? cs = some body)
    (hpair : splitSign body = (negative, digits)) :
    r.Explains cs (if digits = [] then .error (.inl .noDigits)
      else if digits.all r.isDigit = false then .error (.inl (.badDigit r))
      else if r = .decimal ∧ maxDecimalDigits < digits.length then .error (.inr digits.length)
      else
        let value : Int := withSign negative (r.value digits)
        if maxWord < value then .error (.inl .tooLarge)
        else if value < minWord then .error (.inl .tooSmall)
        else .ok value) := by
  obtain ⟨head, hmem, hcs⟩ := Radix.dropPrefix?_eq_some_iff.mp hbody
  have hhead : ∃ head ∈ r.prefixes, head <+: cs := ⟨head, hmem, body, hcs.symm⟩
  have hbare := Radix.ne_sign_of_splitSign hbody
  rw [hpair] at hbare
  have hwrites (v : Int) : r.Writes cs v ↔ digits ≠ [] ∧ (∀ c ∈ digits, r.isDigit c = true) ∧
      v = withSign negative (r.value digits) := by
    rw [Radix.writes_iff]
    simp only [hbody, Option.some.injEq, exists_eq_left', hpair]
  by_cases hempty : digits = []
  · rw [if_pos hempty]
    obtain ⟨sign, hsign, hsplit⟩ := exists_sign body
    rw [hpair] at hsign hsplit
    refine .later hhead (.here (not_not_intro ⟨head, hmem, sign, negative, hsign, ?_⟩))
    rw [hcs, hsplit, hempty, List.append_nil]
  rw [if_neg hempty]
  by_cases hall : digits.all r.isDigit = false
  · rw [if_pos hall]
    refine .later hhead (.later (hbare hempty) (.here ?_))
    rintro ⟨v, hv⟩
    rw [List.all_eq_true.mpr ((hwrites v).mp hv).2.1] at hall
    cases hall
  rw [if_neg hall]
  have hdigits : ∀ c ∈ digits, r.isDigit c = true := by simpa using hall
  by_cases hlong : r = .decimal ∧ maxDecimalDigits < digits.length
  · rw [if_pos hlong]
    obtain ⟨rfl, hlong⟩ := hlong
    exact ⟨rfl, Nat.lt_of_lt_of_le hlong (length_le_countP hbody hpair hdigits)⟩
  rw [if_neg hlong]
  exact Radix.explains_of_writes ((hwrites _).mpr ⟨hempty, hdigits, rfl⟩)

end

theorem integerOfChars_explains (r : Radix) (cs : List Char) :
    r.Explains cs (integerOfChars r cs) := by
  unfold integerOfChars
  cases hbody : r.dropPrefix? cs with
  | none =>
    refine .here ?_
    rintro ⟨head, hhead, body, rfl⟩
    rw [Radix.dropPrefix?_eq_some_iff.mpr ⟨head, hhead, rfl⟩] at hbody
    cases hbody
  | some body => exact explains_of_dropPrefix? hbody rfl

theorem integerOfChars_eq_ok_iff {r : Radix} {cs : List Char}
    (hlong : r = .decimal → cs.countP isDecimalDigit ≤ maxDecimalDigits) {v : Int} :
    integerOfChars r cs = .ok v ↔ r.Writes cs v ∧ minWord ≤ v ∧ v ≤ maxWord := by
  have hspec := integerOfChars_explains r cs
  constructor
  · intro h
    rwa [h] at hspec
  · rintro ⟨hv, hmin, hmax⟩
    generalize integerOfChars r cs = outcome at hspec ⊢
    cases outcome with
    | ok w => rw [hspec.1.unique hv]
    | error fault =>
      cases fault with
      | inl why =>
        exact absurd (Radix.checks_of_writes hv hmin hmax) (FirstFailing.not_forall hspec)
      | inr n => exact absurd (hlong hspec.1) (Nat.not_le.mpr hspec.2)

theorem integerOfChars_eq_error_iff {r : Radix} {cs : List Char}
    (hlong : r = .decimal → cs.countP isDecimalDigit ≤ maxDecimalDigits) {fault : IntegerFault} :
    integerOfChars r cs = .error fault ↔
      ∃ why, FirstFailing (r.checks cs) why ∧ fault = .inl why := by
  have hspec := integerOfChars_explains r cs
  generalize integerOfChars r cs = outcome at hspec ⊢
  cases outcome with
  | ok w =>
    obtain ⟨hv, hmin, hmax⟩ := hspec
    constructor
    · intro h
      cases h
    · rintro ⟨why, hwhy, -⟩
      exact absurd (Radix.checks_of_writes hv hmin hmax) hwhy.not_forall
  | error fault =>
    cases fault with
    | inl why =>
      constructor
      · intro h
        cases h
        exact ⟨why, hspec, rfl⟩
      · rintro ⟨why', hwhy, rfl⟩
        rw [FirstFailing.unique hspec hwhy]
    | inr n => exact absurd (hlong hspec.1) (Nat.not_le.mpr hspec.2)

section

variable {r : Radix} {text : String}

theorem decodeInteger_eq_ok_iff
    (hlong : r = .decimal → text.toList.countP isDecimalDigit ≤ maxDecimalDigits) {v : Int} :
    decodeInteger r.base text = .ok v ↔
      r.Writes text.toList v ∧ minWord ≤ v ∧ v ≤ maxWord := by
  rw [← integerOfChars_eq_ok_iff hlong, decodeInteger_base, decodeRadixInteger]
  cases integerOfChars r text.toList with
  | ok w => simp
  | error fault => cases fault <;> simp

theorem decodeInteger_eq_error_iff
    (hlong : r = .decimal → text.toList.countP isDecimalDigit ≤ maxDecimalDigits) {fault : Fault} :
    decodeInteger r.base text = .error fault ↔
      ∃ why, FirstFailing (r.checks text.toList) why ∧ fault = .malformed ⟨text, why, false⟩ := by
  have herror (e : IntegerFault) := @integerOfChars_eq_error_iff r text.toList hlong e
  rw [decodeInteger_base, decodeRadixInteger]
  cases hchars : integerOfChars r text.toList with
  | ok w =>
    simp only [hchars, reduceCtorEq, false_iff, not_exists, not_and] at herror ⊢
    intro why hwhy
    exact absurd rfl (herror (.inl why) why hwhy)
  | error e =>
    obtain ⟨why, hwhy, rfl⟩ := (herror e).mp hchars
    constructor
    · intro h
      cases h
      exact ⟨why, hwhy, rfl⟩
    · rintro ⟨why', hwhy', rfl⟩
      rw [hwhy.unique hwhy']

end

/-! ### Spellings -/

theorem denotes_replicate_zero (r : Radix) (zeros n : Nat) :
    r.Denotes (List.replicate zeros '0' ++ Nat.toDigits r.base n) n := by
  have hzeros : r.value (List.replicate zeros '0') = 0 := by
    induction zeros with
    | zero => rfl
    | succ zeros ih =>
      rw [List.replicate_succ', Radix.value_append, ih]
      simp [Radix.value, digitValue?]
  rw [Radix.denotes_iff, Radix.value_append, hzeros, Radix.value_toDigits]
  refine ⟨List.forall_mem_append.mpr ⟨fun c hc => ?_, Radix.isDigit_of_mem_toDigits n⟩, by simp⟩
  rw [List.eq_of_mem_replicate hc]
  cases r <;> rfl

theorem countP_sign {sign : List Char} {negative : Bool} (h : IsSign sign negative) :
    sign.countP isDecimalDigit = 0 := by
  cases h <;> decide

/-- **Which texts are integers.** With few enough digits in decimal, a text is decoded exactly if it
writes an integer that fits in a word, and otherwise refused with the whole text and the reason of
the first check that fails. Each integer that fits in a word is read from each of its spellings:
behind either prefix, with or without a plus, with any zeros in front. -/
theorem decodeInteger_outcome (r : Radix) :
    (∀ text : String,
        (r = .decimal → text.toList.countP isDecimalDigit ≤ maxDecimalDigits) →
        (∀ v, decodeInteger r.base text = .ok v ↔
          r.Writes text.toList v ∧ minWord ≤ v ∧ v ≤ maxWord) ∧
        ∀ fault, decodeInteger r.base text = .error fault ↔
          ∃ why, FirstFailing (r.checks text.toList) why ∧
            fault = .malformed ⟨text, why, false⟩) ∧
      ∀ v, minWord ≤ v → v ≤ maxWord → ∀ head ∈ r.prefixes, ∀ sign negative,
        IsSign sign negative → v = withSign negative v.natAbs →
        (∀ zeros, r.Denotes (List.replicate zeros '0' ++ Nat.toDigits r.base v.natAbs) v.natAbs) ∧
          ∀ digits, digits ≠ [] → r.Denotes digits v.natAbs →
            (r = .decimal → digits.length ≤ maxDecimalDigits) →
            decodeInteger r.base (String.ofList (head ++ (sign ++ digits))) = .ok v := by
  refine ⟨fun text hlong => ⟨fun v => decodeInteger_eq_ok_iff hlong,
    fun fault => decodeInteger_eq_error_iff hlong⟩, ?_⟩
  · intro v hmin hmax head hhead sign negative hsign hv
    refine ⟨fun zeros => denotes_replicate_zero r zeros v.natAbs, ?_⟩
    intro digits hne hdigits hshort
    have hlong : r = .decimal →
        (String.ofList (head ++ (sign ++ digits))).toList.countP isDecimalDigit ≤
          maxDecimalDigits := by
      rintro rfl
      rw [List.mem_singleton.mp hhead, String.toList_ofList, List.nil_append, List.countP_append,
        countP_sign hsign, Nat.zero_add]
      exact Nat.le_trans List.countP_le_length (hshort rfl)
    rw [decodeInteger_eq_ok_iff hlong, String.toList_ofList]
    exact ⟨⟨head, sign, digits, negative, v.natAbs, rfl, hhead, hsign, hne, hdigits, hv⟩, hmin,
      hmax⟩

/-- The least word is read in decimal, and an integer behind a capital prefix in hexadecimal; one
more than the greatest word is too large. -/
theorem decodeInteger_outcome_words :
    decodeInteger 10 "-9223372036854775808" = .ok minWord ∧
      decodeInteger 10 "9223372036854775808" =
        .error (.malformed ⟨"9223372036854775808", .tooLarge, false⟩) ∧
      decodeInteger 16 "0X-0fF" = .ok (-255) := by
  obtain ⟨hdecimal, -⟩ := decodeInteger_outcome .decimal
  obtain ⟨-, hspellings⟩ := decodeInteger_outcome .hexadecimal
  have hgreat : Radix.decimal.Writes "9223372036854775808".toList 9223372036854775808 :=
    ⟨[], [], "9223372036854775808".toList, false, 9223372036854775808, rfl,
      List.mem_singleton_self [], .absent, by decide,
      Radix.denotes_iff.mpr ⟨List.all_eq_true.mp (by decide), rfl⟩, rfl⟩
  refine ⟨?_, ?_, ?_⟩
  · refine ((hdecimal "-9223372036854775808" fun _ => by decide).1 minWord).mpr
      ⟨?_, Int.le_refl _, by decide⟩
    exact ⟨[], "-".toList, "9223372036854775808".toList, true, 9223372036854775808, rfl,
      List.mem_singleton_self [], .minus, by decide,
      Radix.denotes_iff.mpr ⟨List.all_eq_true.mp (by decide), rfl⟩, rfl⟩
  · refine ((hdecimal "9223372036854775808" fun _ => by decide).2 _).mpr ⟨.tooLarge, ?_, rfl⟩
    refine .later hgreat.exists_head (.later hgreat.ne_sign (.later ⟨_, hgreat⟩ (.here ?_)))
    intro hall
    exact absurd (hall _ hgreat) (by decide)
  · exact (hspellings (-255) (by decide) (by decide) "0X".toList (by decide) "-".toList true .minus
      rfl).2 "0fF".toList (by decide)
      (Radix.denotes_iff.mpr ⟨List.all_eq_true.mp (by decide), rfl⟩) (by decide)

end RuleTree
