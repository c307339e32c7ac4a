import RuleTree.Proofs.Literal.Defect
import RuleTree.Proofs.Source.Lexing

/-!
# Which terminal is taken

A text of a literal, of a fixed lexeme or of layout is taken as what it is, if nothing behind it
could go on with it.

* `isNumeric`: the characters that could go on with a number.
* `Vocabulary.takes_literal`: literals; only numbers mind what is behind them.
* `Vocabulary.takes_fixed`: fixed lexemes, of which the longest is taken.
* `Vocabulary.takes_blank`, `Vocabulary.takes_comment`: layout.
-/

namespace RuleTree

/-- `isNumeric c` says whether a number could go on with `c`: a digit of any radix, a letter that
announces one, or a point. -/
def isNumeric (c : Char) : Bool :=
  Radix.hexadecimal.isDigit c || radixMarks.contains c || c = '.'

/-- Nothing that a number could go on with is at the beginning of the text. -/
def NumberEnds (rest : List Char) : Prop := ∀ c ∈ rest.head?, isNumeric c = false

theorem isDigit_hexadecimal {r : Radix} {c : Char} (h : r.isDigit c = true) :
    Radix.hexadecimal.isDigit c = true := by
  have hbase : r.base ≤ Radix.hexadecimal.base := by cases r <;> decide
  unfold Radix.isDigit at h ⊢
  cases hvalue : digitValue? c with
  | none => simp [hvalue] at h
  | some n =>
    rw [hvalue, Option.any_some, decide_eq_true_iff] at h
    rw [Option.any_some, decide_eq_true_iff]
    omega

theorem isNumeric_of_isDigit {r : Radix} {c : Char} (h : r.isDigit c = true) :
    isNumeric c = true := by
  simp [isNumeric, isDigit_hexadecimal h]

theorem isAlphanum_of_isDigit {r : Radix} {c : Char} (h : r.isDigit c = true) :
    c.isAlphanum = true := by
  have hhex := isDigit_hexadecimal h
  show (decide ('A'.val ≤ c.val ∧ c.val ≤ 'Z'.val) ||
    (decide ('a'.val ≤ c.val) && decide (c.val ≤ 'z'.val)) ||
    (decide ('0'.val ≤ c.val) && decide (c.val ≤ '9'.val))) = true
  simp only [Bool.or_eq_true, Bool.and_eq_true, decide_eq_true_eq]
  unfold Radix.isDigit digitValue? at hhex
  split at hhex
  · rename_i hdigit
    exact .inr hdigit
  split at hhex
  · rename_i hlower
    exact .inl (.inr ⟨hlower.1, UInt32.le_trans hlower.2 (by decide)⟩)
  split at hhex
  · rename_i hupper
    exact .inl (.inl ⟨hupper.1, UInt32.le_trans hupper.2 (by decide)⟩)
  · simp at hhex

theorem isAlphanum_of_isNumeric {c : Char} (h : isNumeric c = true) :
    c.isAlphanum = true ∨ c = '.' := by
  simp only [isNumeric, Bool.or_eq_true, List.contains_eq_mem, decide_eq_true_iff] at h
  rcases h with (hdigit | hmark) | hpoint
  · exact .inl (isAlphanum_of_isDigit hdigit)
  · have hall : radixMarks.all Char.isAlphanum = true := by decide
    exact .inl (List.all_eq_true.mp hall c hmark)
  · exact .inr hpoint

theorem NumberEnds.isDigit_eq_false {rest : List Char} (h : NumberEnds rest) (r : Radix) :
    ∀ c ∈ rest.head?, r.isDigit c = false := by
  intro c hc
  cases hdigit : r.isDigit c with
  | false => rfl
  | true => rw [← h c hc, isNumeric_of_isDigit hdigit]

theorem NumberEnds.not_mem_radixMarks {rest : List Char} (h : NumberEnds rest) :
    ∀ c ∈ rest.head?, c ∉ radixMarks := by
  intro c hc hmem
  have := h c hc
  simp [isNumeric, hmem] at this

theorem NumberEnds.ne_point {rest : List Char} (h : NumberEnds rest) :
    ∀ c ∈ rest.head?, c ≠ '.' := by
  rintro c hc rfl
  have := h '.' hc
  revert this
  decide

namespace Terminal

/-! ### Numbers -/

theorem takeWhile_append {α : Type} {p : α → Bool} {cs rest : List α} (hcs : ∀ c ∈ cs, p c = true)
    (hrest : ∀ c ∈ rest.head?, p c = false) : (cs ++ rest).takeWhile p = cs := by
  rw [List.takeWhile_append_of_pos hcs]
  cases rest with
  | nil => simp
  | cons c rest => rw [List.takeWhile_cons_of_neg (by simp [hrest c rfl]), List.append_nil]

theorem run_append {p : Char → Bool} {cs rest : List Char} (hcs : ∀ c ∈ cs, p c = true)
    (hrest : ∀ c ∈ rest.head?, p c = false) : run p (cs ++ rest) = cs.length := by
  rw [run, takeWhile_append hcs hrest]

theorem of_run_append {p : Char → Bool} {cs rest : List Char}
    (h : run p (cs ++ rest) = cs.length) :
    (∀ c ∈ cs, p c = true) ∧ ∀ c ∈ rest.head?, p c = false := by
  have hcs : (cs ++ rest).takeWhile p = cs := by
    have htake := take_run p (cs ++ rest)
    rwa [h, List.take_left, eq_comm] at htake
  have hdrop : (cs ++ rest).dropWhile p = rest := by
    have hsplit := List.takeWhile_append_dropWhile (p := p) (l := cs ++ rest)
    rw [hcs] at hsplit
    exact List.append_cancel_left hsplit
  constructor
  · intro c hc
    rw [← hcs] at hc
    exact mem_takeWhile hc
  · intro c hc
    have hhead := List.head?_dropWhile_not p (cs ++ rest)
    rw [hdrop, hc] at hhead
    simpa using hhead

variable {r r' : Radix} {text rest : List Char}

theorem prefixedWidth_of_spells (hr : r ≠ .decimal) (h : r.Spells text)
    (hrest : ∀ c ∈ rest.head?, r.isDigit c = false) :
    prefixedWidth r (text ++ rest) = text.length := by
  obtain ⟨digits, hdrop, hne, hdigits⟩ := h
  obtain ⟨mark, rfl, hmark⟩ := dropPrefix?_eq_some hr hdrop
  have hrun := run_append hdigits hrest
  rw [List.cons_append, List.cons_append, prefixedWidth, hmark]
  simp only [hrun]
  rw [if_neg fun h => hne (List.eq_nil_of_length_eq_zero h), List.length_cons, List.length_cons,
    Nat.add_comm]

theorem prefixedWidth_of_ne (hr' : r' ≠ .decimal) (hne : r' ≠ r) (h : r.Spells text)
    (hrest : ∀ c ∈ rest.head?, c ∉ radixMarks) : prefixedWidth r' (text ++ rest) = 0 := by
  unfold prefixedWidth
  split
  · rename_i digits' hdrop'
    exfalso
    obtain ⟨digits, hdrop, hnil, hdigits⟩ := h
    obtain ⟨mark', hmark', htext', hprefix'⟩ := exists_mark hr' hdrop'
    by_cases hr : r = .decimal
    · subst hr
      cases hdrop
      match text, hnil with
      | [c], _ =>
        have hrest' : rest = mark' :: digits' := (List.cons.inj htext').2
        exact hrest mark' (by rw [hrest']; rfl) hmark'
      | c :: d :: text, _ =>
        have hd : d = mark' := (List.cons.inj (List.cons.inj htext').2).1
        exact not_mem_radixMarks (hdigits d (by simp)) (hd ▸ hmark')
    · obtain ⟨mark, hmark, rfl, hprefix⟩ := exists_mark hr hdrop
      have hmarks : mark = mark' := (List.cons.inj (List.cons.inj htext').2).1
      have h := hprefix digits
      rw [hmarks, hprefix' digits] at h
      exact hne (Option.some.inj h)
  · rfl

theorem wholeWidth_of_spells (h : r.Spells text) (hdigit : ∀ c ∈ rest.head?, r.isDigit c = false)
    (hmark : ∀ c ∈ rest.head?, c ∉ radixMarks) : wholeWidth (text ++ rest) = text.length := by
  unfold wholeWidth
  split
  · rename_i r' hr'
    have hne : r' ≠ .decimal := by
      rintro rfl
      simpa using List.mem_of_find?_eq_some hr'
    have hpos : prefixedWidth r' (text ++ rest) ≠ 0 := by simpa using List.find?_some hr'
    have heq : r' = r := Decidable.byContradiction fun hne' =>
      hpos (prefixedWidth_of_ne hne hne' h hmark)
    subst heq
    exact prefixedWidth_of_spells hne h hdigit
  · rename_i hnone
    have hr : r = .decimal := by
      refine Decidable.byContradiction fun hne => ?_
      have hmem : r ∈ [Radix.hexadecimal, .binary, .octal] := by cases r <;> simp_all
      have hzero := List.find?_eq_none.mp hnone r hmem
      rw [prefixedWidth_of_spells hne h hdigit] at hzero
      obtain ⟨digits, hdrop, hnil, -⟩ := h
      obtain ⟨mark, rfl, -⟩ := dropPrefix?_eq_some hne hdrop
      simp at hzero
    subst hr
    obtain ⟨digits, hdrop, -, hdigits⟩ := h
    cases hdrop
    exact run_append hdigits hdigit

theorem floatWidth_of_integer (h : r.Spells text) (hrest : NumberEnds rest) :
    floatWidth (text ++ rest) = 0 := by
  have hwhole := wholeWidth_of_spells h (hrest.isDigit_eq_false r) hrest.not_mem_radixMarks
  simp only [floatWidth, hwhole, List.drop_left]
  split
  · exact absurd rfl (hrest.ne_point '.' rfl)
  · rfl

theorem floatWidth_of_point {whole cs : List Char} (h : r.Spells whole)
    (hrun : run isDecimalDigit cs ≠ 0) :
    floatWidth (whole ++ '.' :: cs) = whole.length + 1 + run isDecimalDigit cs := by
  have hpoint : ∀ c ∈ ('.' :: cs).head?, r.isDigit c = false ∧ c ∉ radixMarks := by
    rintro c ⟨⟩
    cases r <;> decide
  have hwhole : wholeWidth (whole ++ '.' :: cs) = whole.length :=
    wholeWidth_of_spells h (fun c hc => (hpoint c hc).1) fun c hc => (hpoint c hc).2
  have hpos : whole.length ≠ 0 := by
    obtain ⟨digits, hdrop, hnil, -⟩ := h
    have := Radix.length_of_dropPrefix? hdrop
    have := List.length_pos_iff.mpr hnil
    omega
  simp only [floatWidth, hwhole, List.drop_left]
  rw [if_neg (not_or.mpr ⟨hpos, hrun⟩)]

theorem floatWidth_of_spells (h : LiteralKind.float.Spells text) (hrest : NumberEnds rest) :
    floatWidth (text ++ rest) = text.length := by
  obtain ⟨r, whole, fraction, rfl, hspells, hne, hfraction⟩ := h
  have hrun : run isDecimalDigit (fraction ++ rest) = fraction.length :=
    run_append hfraction (hrest.isDigit_eq_false .decimal)
  have hpos : run isDecimalDigit (fraction ++ rest) ≠ 0 := by
    rw [hrun]
    exact fun h => hne (List.eq_nil_of_length_eq_zero h)
  rw [List.append_assoc, List.cons_append, floatWidth_of_point hspells hpos, hrun,
    List.length_append, List.length_cons]
  omega

/-! ### Quotes -/

theorem charWidth_of_spells (h : LiteralKind.char.Spells text) :
    charWidth (text ++ rest) = text.length := by
  obtain ⟨inside, rfl, hinside⟩ := h
  have hrun : run (fun c => c ≠ '\'' && c ≠ '\n') (inside ++ '\'' :: rest) = inside.length :=
    run_append (fun c hc => by simp [hinside c hc]) (by rintro c ⟨⟩; decide)
  rw [List.cons_append, List.append_assoc, List.singleton_append, charWidth]
  simp only [hrun, List.drop_left]
  rw [if_pos (by rfl), List.length_cons, List.length_append, List.length_singleton]

theorem stringTail?_of_content {inside : List Char} (h : StringContent inside) :
    stringTail? (inside ++ '"' :: rest) = some (inside.length + 1) := by
  induction h with
  | nil => rw [List.nil_append, stringTail?, List.length_nil]
  | @escaped c cs hc _ ih =>
    rw [List.cons_append, List.cons_append, stringTail?, if_neg hc, ih]
    rfl
  | @plain c cs hc _ ih =>
    obtain ⟨hquote, hslash, hline⟩ := hc
    rw [List.cons_append, stringTail?.eq_3 _ _ (fun h => hquote h) (fun _ _ h _ => hslash h),
      if_neg (not_or.mpr ⟨hline, hslash⟩), ih]
    rfl

theorem stringWidth_of_spells (h : LiteralKind.string.Spells text) :
    stringWidth (text ++ rest) = text.length := by
  obtain ⟨inside, rfl, hinside⟩ := h
  rw [List.cons_append, List.append_assoc, List.singleton_append, stringWidth,
    stringTail?_of_content hinside]
  simp

/-! ### Other beginnings -/

variable {cs : List Char}

theorem run_of_head {p : Char → Bool} (h : ∀ c ∈ cs.head?, p c = false) : run p cs = 0 := by
  cases cs with
  | nil => rfl
  | cons c cs => rw [run, List.takeWhile_cons_of_neg (by simp [h c rfl]), List.length_nil]

theorem prefixedWidth_of_head (hr : r ≠ .decimal) (h : ∀ c ∈ cs.head?, isDecimalDigit c = false) :
    prefixedWidth r cs = 0 := by
  unfold prefixedWidth
  split
  · rename_i digits hdrop
    obtain ⟨mark, rfl, -⟩ := dropPrefix?_eq_some hr hdrop
    exact absurd (h '0' rfl) (by decide)
  · rfl

theorem floatWidth_of_head (h : ∀ c ∈ cs.head?, isDecimalDigit c = false) : floatWidth cs = 0 := by
  have hwhole : wholeWidth cs = 0 := by
    unfold wholeWidth
    split
    · rename_i r hr
      have hne : r ≠ .decimal := by
        rintro rfl
        simpa using List.mem_of_find?_eq_some hr
      exact prefixedWidth_of_head hne h
    · exact run_of_head h
  simp only [floatWidth, hwhole]
  split <;> simp

theorem charWidth_of_head (h : ∀ c ∈ cs.head?, c ≠ '\'') : charWidth cs = 0 := by
  unfold charWidth
  split
  · exact absurd rfl (h _ rfl)
  · rfl

theorem stringWidth_of_head (h : ∀ c ∈ cs.head?, c ≠ '"') : stringWidth cs = 0 := by
  unfold stringWidth
  split
  · exact absurd rfl (h _ rfl)
  · rfl

theorem commentWidth_of_head (h : ∀ c ∈ cs.head?, c ≠ '/') : commentWidth cs = 0 := by
  unfold commentWidth
  split
  · exact absurd rfl (h _ rfl)
  · rfl

end Terminal

/-- Whether literals of the kind end with the quote that they begin with. -/
def LiteralKind.isQuoted : LiteralKind → Bool
  | char => true
  | string => true
  | _ => false

namespace Vocabulary

open Terminal

variable {v : Vocabulary} {text rest : List Char}

theorem takes_of_width {t : Terminal} (ht : t ∈ namedTerminals)
    (hbefore : ∀ u ∈ namedTerminals.takeWhile (· ≠ t), u.width v (text ++ rest) = 0)
    (hwidth : t.width v (text ++ rest) = text.length) (hne : text ≠ []) : v.Takes t text rest := by
  have hpos : 0 < t.width v (text ++ rest) := by
    rw [hwidth]
    exact List.length_pos_iff.mpr hne
  obtain ⟨before, behind, hsplit, hnew⟩ := List.eq_append_cons_of_mem ht
  have hbefore' : namedTerminals.takeWhile (· ≠ t) = before := by
    rw [hsplit]
    refine takeWhile_append (fun u hu => decide_eq_true ?_) (by simp)
    rintro rfl
    exact hnew hu
  have hnone : before.findSome? (v.matchAt? (text ++ rest)) = none := by
    rw [List.findSome?_eq_none_iff]
    intro u hu
    rw [matchAt?, dif_neg (by rw [hbefore u (hbefore' ▸ hu)]; exact Nat.lt_irrefl 0)]
  refine ⟨⟨t, t.width v (text ++ rest), hpos⟩, ?_, rfl, hwidth⟩
  rw [terminalAt?, hsplit, List.findSome?_append, hnone, Option.none_or, List.findSome?_cons,
    matchAt?, dif_pos hpos]
  rfl

theorem widths_of_integer {r : Radix} (h : r.Spells text) (hrest : NumberEnds rest) :
    floatWidth (text ++ rest) = 0 ∧
      ∀ r', r' ≠ .decimal → r' ≠ r → prefixedWidth r' (text ++ rest) = 0 :=
  ⟨floatWidth_of_integer h hrest, fun _ hdecimal hne =>
    prefixedWidth_of_ne hdecimal hne h hrest.not_mem_radixMarks⟩

theorem width_of_integer {r : Radix} (h : r.Spells text)
    (hrest : ∀ c ∈ rest.head?, r.isDigit c = false) :
    (literal r.literalKind).width v (text ++ rest) = text.length := by
  by_cases hr : r = .decimal
  · subst hr
    obtain ⟨digits, hdrop, -, hdigits⟩ := h
    cases hdrop
    exact run_append hdigits hrest
  · cases r <;> first | exact absurd rfl hr | exact prefixedWidth_of_spells hr h hrest

theorem takes_integer {r : Radix} (h : r.Spells text) (hrest : NumberEnds rest) :
    v.Takes (.literal r.literalKind) text rest := by
  have hwidth := width_of_integer (v := v) h (hrest.isDigit_eq_false r)
  obtain ⟨hfloat, hprefix⟩ := widths_of_integer h hrest
  obtain ⟨c, cs, rfl, hdigit⟩ := h.exists_head
  have hhead {q : Char} (hq : isDecimalDigit q = false) : ∀ d ∈ (c :: cs ++ rest).head?, d ≠ q := by
    rintro _ ⟨⟩ rfl
    rw [hq] at hdigit
    cases hdigit
  have hchar := charWidth_of_head (hhead (q := '\'') (by decide))
  have hstring := stringWidth_of_head (hhead (q := '"') (by decide))
  have hcomment := commentWidth_of_head (hhead (q := '/') (by decide))
  refine takes_of_width (by cases r <;> decide) ?_ hwidth (by simp)
  generalize c :: cs ++ rest = cs at *
  cases r <;>
    simp [namedTerminals, Radix.literalKind, width, hfloat, hprefix, hchar, hstring, hcomment]

/-- A text of a literal is taken for the literal. Behind a number nothing may stand that the number
could go on with. -/
theorem takes_literal {k : LiteralKind} (h : k.Spells text)
    (hrest : k.isQuoted = false → NumberEnds rest) : v.Takes (.literal k) text rest := by
  have hne : text ≠ [] := by
    rintro rfl
    cases h.opensLiteral
  rcases k.cases_radix with rfl | rfl | rfl | ⟨r, rfl⟩
  · exact takes_of_width (by decide) (by simp [namedTerminals])
      (floatWidth_of_spells h (hrest rfl)) hne
  · have hhead : ∀ c ∈ (text ++ rest).head?, isDecimalDigit c = false := by
      obtain ⟨inside, rfl, -⟩ := h
      rintro c ⟨⟩
      decide
    exact takes_of_width (by decide)
      (by simp [namedTerminals, width, floatWidth_of_head hhead, prefixedWidth_of_head _ hhead])
      (charWidth_of_spells h) hne
  · have hhead : ∀ c ∈ (text ++ rest).head?, isDecimalDigit c = false ∧ c ≠ '\'' := by
      obtain ⟨inside, rfl, -⟩ := h
      rintro c ⟨⟩
      decide
    have hdigit := fun c hc => (hhead c hc).1
    have hchar := charWidth_of_head fun c hc => (hhead c hc).2
    exact takes_of_width (by decide) (by simp [namedTerminals, width, floatWidth_of_head hdigit,
      prefixedWidth_of_head _ hdigit, hchar]) (stringWidth_of_spells h) hne
  · exact takes_integer (LiteralKind.spells_literalKind.mp h) (hrest (by cases r <;> rfl))

/-! ### Layout -/

theorem ne_of_isLayout {c : Char} (h : isLayout c = true) :
    isDecimalDigit c = false ∧ c ≠ '\'' ∧ c ≠ '"' ∧ c ≠ '/' := by
  simp only [isLayout, Bool.or_eq_true, decide_eq_true_iff] at h
  rcases h with (((rfl | rfl) | rfl) | rfl) | rfl <;> decide

theorem takes_blank (hne : text ≠ []) (h : ∀ c ∈ text, isLayout c = true)
    (hrest : ∀ c ∈ rest.head?, isLayout c = false) : v.Takes .blank text rest := by
  have hhead : ∀ c ∈ (text ++ rest).head?, isLayout c = true := by
    cases text with
    | nil => exact absurd rfl hne
    | cons d text =>
      rintro c ⟨⟩
      exact h d List.mem_cons_self
  have hdigit := fun c hc => (ne_of_isLayout (hhead c hc)).1
  have hchar := charWidth_of_head fun c hc => (ne_of_isLayout (hhead c hc)).2.1
  have hstring := stringWidth_of_head fun c hc => (ne_of_isLayout (hhead c hc)).2.2.1
  have hcomment := commentWidth_of_head fun c hc => (ne_of_isLayout (hhead c hc)).2.2.2
  have hdec : run isDecimalDigit (text ++ rest) = 0 := run_of_head hdigit
  refine takes_of_width (by decide) ?_ (run_append h hrest) hne
  simp [namedTerminals, width, floatWidth_of_head hdigit, prefixedWidth_of_head _ hdigit, hchar,
    hstring, hcomment, hdec]

theorem takes_comment {inside : List Char} (h : ∀ c ∈ inside, c ≠ '\n')
    (hrest : ∀ c ∈ rest.head?, c = '\n') : v.Takes .comment ('/' :: '/' :: inside) rest := by
  have hrun : run (· ≠ '\n') (inside ++ rest) = inside.length :=
    run_append (fun c hc => decide_eq_true (h c hc)) fun c hc => by simp [hrest c hc]
  have hwidth : commentWidth ('/' :: '/' :: inside ++ rest) = ('/' :: '/' :: inside).length := by
    rw [List.cons_append, List.cons_append, commentWidth, hrun, List.length_cons, List.length_cons,
      Nat.add_comm]
  have hhead : ∀ c ∈ ('/' :: '/' :: inside ++ rest).head?,
      isDecimalDigit c = false ∧ c ≠ '\'' ∧ c ≠ '"' := by
    rintro c ⟨⟩
    decide
  have hdigit := fun c hc => (hhead c hc).1
  have hfloat := floatWidth_of_head hdigit
  have hprefix := fun r hr => prefixedWidth_of_head (r := r) hr hdigit
  have hchar := charWidth_of_head fun c hc => (hhead c hc).2.1
  have hstring := stringWidth_of_head fun c hc => (hhead c hc).2.2
  refine takes_of_width (by decide) ?_ hwidth nofun
  generalize '/' :: '/' :: inside ++ rest = cs at *
  simp [namedTerminals, width, hfloat, hprefix, hchar, hstring]

theorem Takes.of_blank (h : v.Takes .blank text rest) :
    (∀ c ∈ text, isLayout c = true) ∧ ∀ c ∈ rest.head?, isLayout c = false :=
  of_run_append h.width_eq

theorem Takes.of_comment (h : v.Takes .comment text rest) :
    ∃ inside, text = '/' :: '/' :: inside ∧ (∀ c ∈ inside, c ≠ '\n') ∧
      ∀ c ∈ rest.head?, c = '\n' := by
  have hwidth : commentWidth (text ++ rest) = text.length := h.width_eq
  have hne := h.ne_nil
  unfold commentWidth at hwidth
  split at hwidth
  · rename_i cs hcs
    match text, hne with
    | [c], _ =>
      rw [List.length_singleton] at hwidth
      omega
    | c :: d :: inside, _ =>
      rw [List.cons_append, List.cons_append, List.cons.injEq, List.cons.injEq] at hcs
      obtain ⟨rfl, rfl, rfl⟩ := hcs
      have hrun : run (· ≠ '\n') (inside ++ rest) = inside.length := by
        rw [List.length_cons, List.length_cons] at hwidth
        omega
      obtain ⟨hinside, hrest⟩ := of_run_append hrun
      exact ⟨inside, rfl, by simpa using hinside, by simpa using hrest⟩
  · exact absurd (List.eq_nil_of_length_eq_zero hwidth.symm) hne

/-! ### Fixed lexemes -/

theorem widest?_eq_some {ms : List TerminalMatch} {m : TerminalMatch} (hm : m ∈ ms)
    (h : ∀ n ∈ ms, n = m ∨ n.width < m.width) : widest? ms = some m := by
  induction ms with
  | nil => cases hm
  | cons n ms ih =>
    obtain ⟨hn, hms⟩ := List.forall_mem_cons.mp h
    rw [widest?]
    by_cases hmem : m ∈ ms
    · rw [ih hmem hms]
      rcases hn with rfl | hlt
      · simp
      · simp [hlt]
    · have hnm : n = m := by
        rcases List.mem_cons.mp hm with rfl | hmem'
        · rfl
        · exact absurd hmem' hmem
      subst hnm
      cases hwidest : widest? ms with
      | none => rfl
      | some n' =>
        have hn' := mem_of_widest? hwidest
        rcases hms n' hn' with rfl | hlt
        · exact absurd hn' hmem
        · simp [Nat.lt_asymm hlt]

theorem widths_of_head {cs : List Char}
    (hhead : ∀ c ∈ cs.head?, isDecimalDigit c = false ∧ c ≠ '\'' ∧ c ≠ '"' ∧ isLayout c = false)
    (hcomment : commentWidth cs = 0) : ∀ t ∈ namedTerminals, t.width v cs = 0 := by
  have hdigit := fun c hc => (hhead c hc).1
  have hfloat := floatWidth_of_head hdigit
  have hprefix := fun r hr => prefixedWidth_of_head (r := r) hr hdigit
  have hdec : run isDecimalDigit cs = 0 := run_of_head hdigit
  have hchar := charWidth_of_head fun c hc => (hhead c hc).2.1
  have hstring := stringWidth_of_head fun c hc => (hhead c hc).2.2.1
  have hblank : run isLayout cs = 0 := run_of_head fun c hc => (hhead c hc).2.2.2
  simp [namedTerminals, width, hfloat, hprefix, hdec, hchar, hstring, hblank, hcomment]

theorem takes_fixed {l : Lexeme} (hl : l ∈ fixedLexemes) (hne : (v.text l).toList ≠ [])
    (hnamed : ∀ t ∈ namedTerminals, t.width v ((v.text l).toList ++ rest) = 0)
    (hlongest : ∀ l' ∈ fixedLexemes, (v.text l').toList <+: (v.text l).toList ++ rest →
      l' = l ∨ (v.text l').toList.length < (v.text l).toList.length) :
    v.Takes (.fixed l) (v.text l).toList rest := by
  have hnone : namedTerminals.findSome? (v.matchAt? ((v.text l).toList ++ rest)) = none := by
    rw [List.findSome?_eq_none_iff]
    intro t ht
    rw [matchAt?, dif_neg (by rw [hnamed t ht]; exact Nat.lt_irrefl 0)]
  have hwidth : (fixed l).width v ((v.text l).toList ++ rest) = (v.text l).toList.length := by
    rw [width]
    exact if_pos (List.isPrefixOf_iff_prefix.mpr (List.prefix_append _ _))
  have hpos : 0 < (fixed l).width v ((v.text l).toList ++ rest) := by
    rw [hwidth]
    exact List.length_pos_iff.mpr hne
  refine ⟨⟨fixed l, (fixed l).width v ((v.text l).toList ++ rest), hpos⟩, ?_, rfl, hwidth⟩
  rw [terminalAt?, hnone, Option.none_or]
  refine widest?_eq_some ?_ fun n hn => ?_
  · refine List.mem_filterMap.mpr ⟨fixed l, List.mem_map.mpr ⟨l, hl, rfl⟩, ?_⟩
    rw [matchAt?, dif_pos hpos]
  · obtain ⟨t, ht, hmatch⟩ := List.mem_filterMap.mp hn
    obtain ⟨l', hl', rfl⟩ := List.mem_map.mp ht
    unfold matchAt? at hmatch
    split at hmatch
    case isFalse => cases hmatch
    case isTrue hpos' =>
      cases hmatch
      have hprefix : (v.text l').toList <+: (v.text l).toList ++ rest := by
        rw [width] at hpos'
        refine List.isPrefixOf_iff_prefix.mp (Decidable.byContradiction fun hnot => ?_)
        rw [if_neg hnot] at hpos'
        exact Nat.lt_irrefl 0 hpos'
      have hwidth' :
          (fixed l').width v ((v.text l).toList ++ rest) = (v.text l').toList.length := by
        rw [width]
        exact if_pos (List.isPrefixOf_iff_prefix.mpr hprefix)
      rcases hlongest l' hl' hprefix with rfl | hlt
      · exact .inl rfl
      · right
        show (fixed l').width v _ < (fixed l).width v _
        rw [hwidth', hwidth]
        exact hlt

/-! ### The standard vocabulary -/

theorem head_standard : ∀ l ∈ fixedLexemes, (standard.text l).toList.head?.all (fun c =>
    isDecimalDigit c = false && c ≠ '\'' && c ≠ '"' && isLayout c = false) = true := by
  decide

theorem prefix_standard : ∀ l ∈ fixedLexemes, ∀ l' ∈ fixedLexemes,
    (standard.text l).toList.isPrefixOf (standard.text l').toList = true →
      l = l' ∨ l = .operator .mul ∧ l' = .operator .pow := by
  decide

theorem text_standard_ne_nil : ∀ l ∈ fixedLexemes, (standard.text l).toList ≠ [] := by decide

theorem commentWidth_standard {l : Lexeme} (hl : l ∈ fixedLexemes)
    (hrest : ∀ o, l = .operator o → ∀ c ∈ rest.head?, c ≠ '*' ∧ c ≠ '/') :
    commentWidth ((standard.text l).toList ++ rest) = 0 := by
  have hslash : ∀ l ∈ fixedLexemes, (standard.text l).toList.head? = some '/' →
      l = .operator .div := by decide
  by_cases hdiv : l = .operator .div
  · subst hdiv
    show commentWidth ('/' :: rest) = 0
    unfold commentWidth
    split
    · rename_i cs heq
      exact absurd rfl (hrest .div rfl '/' (by rw [(List.cons.inj heq).2]; rfl)).2
    · rfl
  · refine commentWidth_of_head ?_
    rintro c hc rfl
    cases htext : (standard.text l).toList with
    | nil => exact text_standard_ne_nil l hl htext
    | cons d ds =>
      rw [htext] at hc
      cases hc
      exact hdiv (hslash l hl (by rw [htext]; rfl))

theorem takes_fixed_standard {l : Lexeme} (hl : l ∈ fixedLexemes)
    (hrest : ∀ o, l = .operator o → ∀ c ∈ rest.head?, c ≠ '*' ∧ c ≠ '/') :
    standard.Takes (.fixed l) (standard.text l).toList rest := by
  have hne := text_standard_ne_nil l hl
  refine takes_fixed hl hne ?_ fun l' hl' hprefix => ?_
  · have hhead : ∀ c ∈ ((standard.text l).toList ++ rest).head?,
        isDecimalDigit c = false ∧ c ≠ '\'' ∧ c ≠ '"' ∧ isLayout c = false := by
      have h := head_standard l hl
      cases htext : (standard.text l).toList with
      | nil => exact absurd htext hne
      | cons d ds =>
        rintro c ⟨⟩
        simpa [htext, and_assoc] using h
    exact widths_of_head hhead (commentWidth_standard hl hrest)
  · by_cases hlt : (standard.text l').toList.length < (standard.text l).toList.length
    · exact .inr hlt
    left
    -- the longer of two texts that begin alike goes on with the shorter one
    have hle : (standard.text l).toList.length ≤ (standard.text l').toList.length := by omega
    have hbegins : (standard.text l).toList <+: (standard.text l').toList :=
      List.prefix_of_prefix_length_le (List.prefix_append _ _) hprefix hle
    have hcases := prefix_standard l hl l' hl' (List.isPrefixOf_iff_prefix.mpr hbegins)
    rcases hcases with rfl | ⟨rfl, rfl⟩
    · rfl
    · exfalso
      obtain ⟨tail, htail⟩ := hprefix
      have hstar : rest = '*' :: tail := (List.cons.inj htail).2.symm
      exact (hrest .mul rfl '*' (by rw [hstar]; rfl)).1 rfl

end Vocabulary

end RuleTree
