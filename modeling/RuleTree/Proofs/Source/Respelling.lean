import RuleTree.Proofs.Source.Layout
import RuleTree.Proofs.Source.Truncation
import RuleTree.Source.Spelling

/-!
# Sources with other symbols

A table may give the operators new symbols. A text is respelled when every operator in it is written
with the symbol of the table, and everything else, the layout included, is left as it is. A
respelled text lexes in the vocabulary of the table into the same lexemes.

* `NewSymbols`: the tables in question. New symbols may be prefixes of one another.
* `Vocabulary.Plain`: what is known of the vocabulary of such a table.
* `Vocabulary.respell`: a text with the operators written as in a vocabulary.
* `Vocabulary.Plain.takes_rewrite`: a terminal is taken for what is written in its place.
* `Vocabulary.Plain.exists_lexes`: a respelled text lexes into the lexemes of the text.
-/

namespace RuleTree

open Terminal

/-! ### Symbols -/

/-- Whether a new symbol may contain the character: it is no white space, no letter or digit, no
quote, no backslash and no punctuation, and no comment begins with it. -/
def isSymbolic (c : Char) : Bool :=
  !(isLayout c || c.isAlphanum ||
    ['\'', '"', '\\', '[', ']', '(', ')', ',', ';', '.', '/'].contains c)

/-- A new symbol for an operator. -/
def IsSymbol (s : String) : Prop := s.toList ≠ [] ∧ s.toList.all isSymbolic = true

instance (s : String) : Decidable (IsSymbol s) := inferInstanceAs (Decidable (_ ∧ _))

theorem IsSymbol.isSymbolic_of_mem {s : String} (h : IsSymbol s) {c : Char} (hc : c ∈ s.toList) :
    isSymbolic c = true :=
  List.all_eq_true.mp h.2 c hc

/-- The characters of punctuation. -/
def punctuation : List Char := ['(', ')', '[', ']', ',', ';']

/-- The table gives every operator its own symbol or a new one, and no two of them the same. -/
structure NewSymbols (table : Operator → Option String) : Prop where
  own_or_new : ∀ o s, table o = some s → s = o.symbol ∨ IsSymbol s
  distinct : ∀ o o', (table o).getD o.symbol = (table o').getD o'.symbol → o = o'

/-- No number goes on with a character of a symbol, and neither a literal nor layout begins with
it. -/
theorem isSymbolic_spec {c : Char} (h : isSymbolic c = true) :
    isLayout c = false ∧ isNumeric c = false ∧ opensLiteral c = false ∧ c ≠ '\\' ∧ c ≠ '/' := by
  simp only [isSymbolic, Bool.not_eq_true', Bool.or_eq_false_iff, List.contains_eq_mem,
    List.mem_cons, List.not_mem_nil, or_false, decide_eq_false_iff_not, not_or] at h
  obtain ⟨⟨hlayout, hletter⟩, hquote, hdouble, hslash, -, -, -, -, -, -, hpoint, hdiv⟩ := h
  have hnumeric : isNumeric c = false := by
    refine Bool.eq_false_iff.mpr fun hnumeric => ?_
    rcases isAlphanum_of_isNumeric hnumeric with h | h
    · rw [h] at hletter
      cases hletter
    · exact hpoint h
  have hdigit : isDecimalDigit c = false := by
    refine Bool.eq_false_iff.mpr fun hdigit => ?_
    rw [isNumeric_of_isDigit (r := .decimal) hdigit] at hnumeric
    cases hnumeric
  exact ⟨hlayout, hnumeric, by simp [opensLiteral, hdigit, hquote, hdouble], hslash, hdiv⟩

theorem punctuation_spec {c : Char} (h : c ∈ punctuation) :
    isLayout c = false ∧ isNumeric c = false ∧ opensLiteral c = false ∧ isSymbolic c = false ∧
      c ≠ '/' := by
  simp only [punctuation, List.mem_cons, List.not_mem_nil, or_false] at h
  rcases h with rfl | rfl | rfl | rfl | rfl | rfl <;> decide

namespace Vocabulary

/-- Every operator is spelled as a symbol, or else as division is, and no two of them alike. -/
structure Plain (v : Vocabulary) : Prop where
  symbol : ∀ o, IsSymbol (v.spelling o) ∨ o = .div ∧ v.spelling o = "/"
  distinct : ∀ o o', v.spelling o = v.spelling o' → o = o'

theorem symbol_cases (o : Operator) : IsSymbol o.symbol ∨ o = .div ∧ o.symbol = "/" := by
  cases o <;> decide

theorem plain_ofTable {table : Operator → Option String} (h : NewSymbols table) :
    (ofTable table).Plain := by
  have hsymbol (o : Operator) (s : String) (hs : table o = some s) :
      IsSymbol s ∨ o = .div ∧ s = "/" := by
    rcases h.own_or_new o s hs with rfl | hnew
    · exact symbol_cases o
    · exact .inl hnew
  have hspelling (o : Operator) : (ofTable table).spelling o = (table o).getD o.symbol := by
    show ((table o).map Spelling.text).getD o.symbol = _
    cases hs : table o with
    | none => rfl
    | some s =>
      -- a symbol has no backslash, so that it means itself
      refine Spelling.text_of_not_mem fun hmem => ?_
      rcases hsymbol o s hs with hnew | ⟨-, rfl⟩
      · exact (isSymbolic_spec (hnew.isSymbolic_of_mem hmem)).2.2.2.1 rfl
      · revert hmem
        decide
  constructor
  · intro o
    rw [hspelling]
    cases hs : table o with
    | none => exact symbol_cases o
    | some s => exact hsymbol o s hs
  · intro o o' heq
    rw [hspelling, hspelling] at heq
    exact h.distinct o o' heq

variable {v : Vocabulary}

theorem text_eq_standard {l : Lexeme} (h : l.isOperator = false) : v.text l = standard.text l := by
  cases l with
  | operator o => simp [Lexeme.isOperator] at h
  | opening b => cases b <;> rfl
  | closing b => cases b <;> rfl
  | _ => rfl

theorem text_punctuation : ∀ l ∈ fixedLexemes, l.isOperator = false →
    ∃ c ∈ punctuation, (standard.text l).toList = [c] := by
  intro l hl hoperator
  cases l with
  | operator o => simp [Lexeme.isOperator] at hoperator
  | literal k text => simp [fixedLexemes] at hl
  | opening b => cases b <;> exact ⟨_, by decide, rfl⟩
  | closing b => cases b <;> exact ⟨_, by decide, rfl⟩
  | _ => exact ⟨_, by decide, rfl⟩

theorem Plain.text_cases (hv : v.Plain) {l : Lexeme} (hl : l ∈ fixedLexemes) :
    l.isOperator = true ∧ IsSymbol (v.text l) ∨
      l = .operator .div ∧ (v.text l).toList = ['/'] ∨
      l.isOperator = false ∧ ∃ c ∈ punctuation, (v.text l).toList = [c] := by
  by_cases hoperator : l.isOperator = true
  · cases l with
    | operator o =>
      rcases hv.symbol o with hsymbol | ⟨rfl, hdiv⟩
      · exact .inl ⟨rfl, hsymbol⟩
      · exact .inr (.inl ⟨rfl, congrArg String.toList hdiv⟩)
    | _ => simp [Lexeme.isOperator] at hoperator
  · have hpunctuation : l.isOperator = false := by simpa using hoperator
    rw [text_eq_standard hpunctuation]
    exact .inr (.inr ⟨hpunctuation, text_punctuation l hl hpunctuation⟩)

theorem Plain.text_ne_nil (hv : v.Plain) {l : Lexeme} (hl : l ∈ fixedLexemes) :
    (v.text l).toList ≠ [] := by
  rcases hv.text_cases hl with ⟨-, hsymbol⟩ | ⟨-, htext⟩ | ⟨-, c, -, htext⟩
  · exact hsymbol.1
  · simp [htext]
  · simp [htext]

theorem Plain.head (hv : v.Plain) {l : Lexeme} (hl : l ∈ fixedLexemes) (rest : List Char) :
    ∀ c ∈ ((v.text l).toList ++ rest).head?, isLayout c = false ∧ isNumeric c = false ∧
      opensLiteral c = false := by
  obtain ⟨d, ds, hd⟩ := List.exists_cons_of_ne_nil (hv.text_ne_nil hl)
  rw [hd]
  rintro _ ⟨⟩
  rcases hv.text_cases hl with ⟨-, hsymbol⟩ | ⟨-, htext⟩ | ⟨-, c, hc, htext⟩
  · have hsymbolic := hsymbol.isSymbolic_of_mem (c := d) (by simp [hd])
    obtain ⟨hlayout, hnumeric, hliteral, -⟩ := isSymbolic_spec hsymbolic
    exact ⟨hlayout, hnumeric, hliteral⟩
  · rw [hd, List.cons.injEq] at htext
    obtain ⟨rfl, -⟩ := htext
    decide
  · rw [hd, List.cons.injEq] at htext
    obtain ⟨rfl, -⟩ := htext
    obtain ⟨hlayout, hnumeric, hliteral, -⟩ := punctuation_spec hc
    exact ⟨hlayout, hnumeric, hliteral⟩

theorem Plain.text_injective (hv : v.Plain) {l l' : Lexeme} (hl : l ∈ fixedLexemes)
    (hl' : l' ∈ fixedLexemes) (h : v.text l = v.text l') : l = l' := by
  -- an operator is not written like punctuation
  have hmixed {a b : Lexeme} (ha : a ∈ fixedLexemes) (hb : b ∈ fixedLexemes)
      (hoperator : a.isOperator = true) (hpunctuation : b.isOperator = false) :
      v.text a ≠ v.text b := by
    intro heq
    obtain ⟨c, hc, htext⟩ := text_punctuation b hb hpunctuation
    rw [← text_eq_standard hpunctuation, ← heq] at htext
    obtain ⟨-, -, -, hnot, hslash⟩ := punctuation_spec hc
    rcases hv.text_cases ha with ⟨-, hsymbol⟩ | ⟨-, hdiv⟩ | ⟨hfalse, -⟩
    · have hsymbolic := hsymbol.isSymbolic_of_mem (c := c) (by simp [htext])
      rw [hnot] at hsymbolic
      simp at hsymbolic
    · rw [hdiv, List.cons.injEq] at htext
      exact hslash htext.1.symm
    · rw [hoperator] at hfalse
      simp at hfalse
  cases ho : l.isOperator with
  | true =>
    cases ho' : l'.isOperator with
    | true =>
      cases l with
      | operator o =>
        cases l' with
        | operator o' => rw [hv.distinct o o' h]
        | _ => simp [Lexeme.isOperator] at ho'
      | _ => simp [Lexeme.isOperator] at ho
    | false => exact absurd h (hmixed hl hl' ho ho')
  | false =>
    cases ho' : l'.isOperator with
    | true => exact absurd h.symm (hmixed hl' hl ho' ho)
    | false =>
      rw [text_eq_standard ho, text_eq_standard ho'] at h
      have hmem : l ∈ standard.meanings (standard.text l') := mem_meanings_iff.mpr ⟨hl, h⟩
      rw [meanings_standard l' hl'] at hmem
      exact List.mem_singleton.mp hmem

theorem Plain.clear (hv : v.Plain) : v.Clear := by
  intro t text rest htakes
  cases t with
  | literal k =>
    have hnone : v.meanings (String.ofList text) = [] := by
      refine List.eq_nil_iff_forall_not_mem.mpr fun l hl => ?_
      obtain ⟨hfixed, htext⟩ := mem_meanings_iff.mp hl
      obtain ⟨c, cs, hcs⟩ := List.exists_cons_of_ne_nil htakes.ne_nil
      have hopens : opensLiteral c = true := by simpa [hcs] using htakes.spells.opensLiteral
      have hhead := (hv.head hfixed [] c (by simp [htext, hcs])).2.2
      rw [hopens] at hhead
      simp at hhead
    rw [readings, if_neg fun hmeanings => hmeanings.2 hnone]
    rfl
  | fixed l =>
    have hl := htakes.mem_fixedLexemes
    have hsame : v.meanings (v.text l) = standard.meanings (standard.text l) := by
      refine List.filter_congr fun l' hl' => ?_
      have hstandard : standard.text l' = standard.text l → l' = l := fun h => by
        have hmem : l' ∈ standard.meanings (standard.text l) := mem_meanings_iff.mpr ⟨hl', h⟩
        rw [meanings_standard l hl] at hmem
        exact List.mem_singleton.mp hmem
      rw [decide_eq_decide]
      exact ⟨fun h => congrArg _ (hv.text_injective hl' hl h), fun h => congrArg _ (hstandard h)⟩
    rw [readings, htakes.eq_text, String.ofList_toList, hsame, meanings_standard l hl]
    rfl
  | blank => rfl
  | comment => rfl

/-! ### Respelled texts -/

end Vocabulary

/-- What is written for a text that a terminal is taken for. -/
def Terminal.rewrite (v : Vocabulary) (text : List Char) : Terminal → List Char
  | fixed l => (v.text l).toList
  | _ => text

namespace Vocabulary

variable {v : Vocabulary}

/-- The text with all operators written as in the vocabulary, as far as terminals can stand. -/
def respell (v : Vocabulary) : List Char → List Char
  | [] => []
  | c :: cs =>
    match standard.terminalAt? (c :: cs) with
    | none => c :: cs
    | some found =>
      found.terminal.rewrite v ((c :: cs).take found.width) ++
        v.respell ((c :: cs).drop found.width)
termination_by cs => cs.length
decreasing_by
  have := found.width_pos
  simp only [List.length_drop, List.length_cons]
  omega

/-- The source with all operators written as in the vocabulary. -/
def respellSource (v : Vocabulary) (source : String) : String :=
  String.ofList (v.respell source.toList)

theorem respell_nil : v.respell [] = [] := by
  unfold respell
  rfl

theorem respell_of_takes {t : Terminal} {text rest : List Char} (h : standard.Takes t text rest) :
    v.respell (text ++ rest) = t.rewrite v text ++ v.respell rest := by
  have hne := h.ne_nil
  obtain ⟨found, hfound, rfl, hwidth⟩ := h
  obtain ⟨c, cs, hcs⟩ := List.exists_cons_of_ne_nil hne
  subst hcs
  rw [List.cons_append] at hfound ⊢
  conv =>
    lhs
    unfold respell
  simp only [hfound, hwidth]
  rw [← List.cons_append, List.take_left, List.drop_left]

theorem respell_standard {m : Mark} {cs : List Char} {ts : List Token}
    (h : Lexes .standard m cs ts) : standard.respell cs = cs := by
  induction h with
  | ending m => exact respell_nil
  | @piece m t text rest ts htakes _ ih =>
    rw [respell_of_takes htakes, ih]
    cases t with
    | fixed l => rw [Terminal.rewrite, htakes.eq_text]
    | _ => rfl

/-- How a respelled text begins: like the text, or with an operator at the beginning of both. -/
inductive Begins (v : Vocabulary) (cs : List Char) : List Lexeme → Prop
  | same {ls : List Lexeme} (hhead : (v.respell cs).head? = cs.head?)
    (hsymbol : ∀ c ∈ cs.head?, isSymbolic c = false)
    (hnumber : (∀ l ∈ ls.head?, l.isLiteral = false) → NumberEnds cs) : Begins v cs ls
  | operator {o : Operator} {ls : List Lexeme} {rest rest' : List Char}
    (hcs : cs = o.symbol.toList ++ rest)
    (hrespell : v.respell cs = (v.spelling o).toList ++ rest') : Begins v cs (.operator o :: ls)

theorem begins_of_lexes (v : Vocabulary) {m : Mark} {cs : List Char} {ts : List Token}
    (h : Lexes .standard m cs ts) : Begins v cs (ts.map (·.lexeme)) := by
  cases h with
  | ending m => exact .same (by rw [respell_nil]) nofun nofun
  | @piece m t text rest ts htakes _ =>
    have hrespell : v.respell (text ++ rest) = t.rewrite v text ++ v.respell rest :=
      respell_of_takes htakes
    obtain ⟨c, cs, rfl⟩ := List.exists_cons_of_ne_nil htakes.ne_nil
    have hsame (hrewrite : t.rewrite v (c :: cs) = c :: cs) (hc : isSymbolic c = false)
        {ls : List Lexeme}
        (hnumber : (∀ l ∈ ls.head?, l.isLiteral = false) → isNumeric c = false) :
        Begins v (c :: cs ++ rest) ls := by
      refine .same (by rw [hrespell, hrewrite]; rfl) ?_ fun hls => ?_
      · rintro _ ⟨⟩
        exact hc
      · rintro _ ⟨⟩
        exact hnumber hls
    cases t with
    | literal k =>
      have hopens : opensLiteral c = true := by simpa using htakes.spells.opensLiteral
      refine hsame rfl ?_ fun hls => ?_
      · refine Bool.eq_false_iff.mpr fun hsymbolic => ?_
        rw [(isSymbolic_spec hsymbolic).2.2.1] at hopens
        simp at hopens
      · have hliteral := hls (.literal k _) rfl
        simp [Lexeme.isLiteral] at hliteral
    | blank =>
      have hlayout : isLayout c = true := htakes.of_blank.1 c List.mem_cons_self
      refine hsame rfl ?_ fun _ => (isNumeric_of_isLayout hlayout).1
      simp [isSymbolic, hlayout]
    | comment =>
      obtain ⟨inside, hcomment, -⟩ := htakes.of_comment
      rw [List.cons.injEq] at hcomment
      obtain ⟨rfl, -⟩ := hcomment
      exact hsame rfl (by decide) fun _ => by decide
    | fixed l =>
      have htext := htakes.eq_text
      by_cases hl : l.isOperator = true
      · cases l with
        | operator o => exact .operator (by rw [htext]; rfl) hrespell
        | _ => simp [Lexeme.isOperator] at hl
      · have hl' : l.isOperator = false := by simpa using hl
        obtain ⟨d, hd, hpunctuation⟩ := text_punctuation l htakes.mem_fixedLexemes hl'
        rw [hpunctuation, List.cons.injEq] at htext
        obtain ⟨rfl, rfl⟩ := htext
        obtain ⟨-, hnumeric, -, hsymbolic, -⟩ := punctuation_spec hd
        refine hsame ?_ hsymbolic fun _ => hnumeric
        rw [Terminal.rewrite, text_eq_standard hl', hpunctuation]

/-! ### What is taken of a respelled text -/

theorem Plain.commentWidth_eq_zero (hv : v.Plain) {l : Lexeme} (hl : l ∈ fixedLexemes)
    {rest : List Char} (hslash : l = .operator .div → ∀ c ∈ rest.head?, c ≠ '/') :
    commentWidth ((v.text l).toList ++ rest) = 0 := by
  rcases hv.text_cases hl with ⟨-, hsymbol⟩ | ⟨hdiv, htext⟩ | ⟨-, c, hc, htext⟩
  · obtain ⟨c, cs, hcs⟩ := List.exists_cons_of_ne_nil hsymbol.1
    refine commentWidth_of_head ?_
    rw [hcs]
    rintro _ ⟨⟩
    have hsymbolic := hsymbol.isSymbolic_of_mem (c := c) (by simp [hcs])
    exact (isSymbolic_spec hsymbolic).2.2.2.2
  · rw [htext]
    unfold commentWidth
    split
    · rename_i cs hcs
      have hrest : rest = '/' :: cs := (List.cons.inj hcs).2
      exact absurd rfl (hslash hdiv '/' (by simp [hrest]))
    · rfl
  · refine commentWidth_of_head ?_
    rw [htext]
    rintro _ ⟨⟩
    exact (punctuation_spec hc).2.2.2.2

theorem Plain.of_text_eq_append (hv : v.Plain) {l l' : Lexeme} (hl : l ∈ fixedLexemes)
    (hl' : l' ∈ fixedLexemes) {d : Char} {more : List Char}
    (h : (v.text l').toList = (v.text l).toList ++ d :: more) :
    l.isOperator = true ∧ isSymbolic d = true := by
  obtain ⟨c, cs, hcs⟩ := List.exists_cons_of_ne_nil (hv.text_ne_nil hl)
  rcases hv.text_cases hl' with ⟨-, hsymbol⟩ | ⟨-, htext⟩ | ⟨-, e, -, htext⟩
  · refine ⟨?_, hsymbol.isSymbolic_of_mem (by simp [h])⟩
    rcases hv.text_cases hl with ⟨hoperator, -⟩ | ⟨rfl, -⟩ | ⟨-, e, he, htext⟩
    · exact hoperator
    · rfl
    · have hsymbolic := hsymbol.isSymbolic_of_mem (c := e) (by simp [h, htext])
      rw [(punctuation_spec he).2.2.2.1] at hsymbolic
      simp at hsymbolic
  · simp [h, hcs] at htext
  · simp [h, hcs] at htext

theorem Plain.takes_fixed (hv : v.Plain) {l : Lexeme} (hl : l ∈ fixedLexemes) {rest : List Char}
    (hrest : l.isOperator = true → ∀ c ∈ rest.head?, isSymbolic c = false)
    (hslash : l = .operator .div → ∀ c ∈ rest.head?, c ≠ '/') :
    v.Takes (.fixed l) (v.text l).toList rest := by
  refine Vocabulary.takes_fixed hl (hv.text_ne_nil hl) ?_ fun l' hl' hprefix => ?_
  · refine widths_of_head (fun c hc => ?_) (hv.commentWidth_eq_zero hl hslash)
    obtain ⟨hlayout, -, hliteral⟩ := hv.head hl rest c hc
    simp only [opensLiteral, Bool.or_eq_false_iff, decide_eq_false_iff_not] at hliteral
    exact ⟨hliteral.1.1, hliteral.1.2, hliteral.2, hlayout⟩
  · by_cases hlt : (v.text l').toList.length < (v.text l).toList.length
    · exact .inr hlt
    left
    -- the longer of two texts that begin alike goes on with the shorter one
    have hle : (v.text l).toList.length ≤ (v.text l').toList.length := by omega
    obtain ⟨more, hmore⟩ : (v.text l).toList <+: (v.text l').toList :=
      List.prefix_of_prefix_length_le (List.prefix_append _ _) hprefix hle
    cases more with
    | nil =>
      rw [List.append_nil, String.toList_inj] at hmore
      exact (hv.text_injective hl hl' hmore).symm
    | cons d more =>
      exfalso
      obtain ⟨hoperator, hsymbolic⟩ := hv.of_text_eq_append hl hl' hmore.symm
      rw [← hmore, List.prefix_append_right_inj] at hprefix
      obtain ⟨behind, rfl⟩ := hprefix
      have hfalse := hrest hoperator d rfl
      rw [hsymbolic] at hfalse
      simp at hfalse

/-! ### Lexing a respelled text -/

namespace Begins

variable {cs : List Char} {ls : List Lexeme}

theorem head?_eq (h : Begins v cs ls) (hls : ∀ l ∈ ls.head?, l.isOperator = false) :
    (v.respell cs).head? = cs.head? ∧ ∀ c ∈ cs.head?, isSymbolic c = false := by
  cases h with
  | same hhead hsymbol _ => exact ⟨hhead, hsymbol⟩
  | operator _ _ =>
    have hoperator := hls _ rfl
    simp [Lexeme.isOperator] at hoperator

theorem isLayout_eq_false (h : Begins v cs ls) (hv : v.Plain)
    (hcs : ∀ c ∈ cs.head?, isLayout c = false) :
    ∀ c ∈ (v.respell cs).head?, isLayout c = false := by
  intro c hc
  cases h with
  | same hhead _ _ => exact hcs c (hhead ▸ hc)
  | @operator o ls rest rest' _ hrespell =>
    have ho : Lexeme.operator o ∈ fixedLexemes := Lexeme.mem_fixedLexemes rfl
    rw [hrespell] at hc
    exact (hv.head ho rest' c hc).1

theorem numberEnds (h : Begins v cs ls) (hv : v.Plain)
    (hls : ∀ l ∈ ls.head?, l.isLiteral = false) : NumberEnds (v.respell cs) := by
  intro c hc
  cases h with
  | same hhead _ hnumber => exact hnumber hls c (hhead ▸ hc)
  | @operator o ls rest rest' _ hrespell =>
    have ho : Lexeme.operator o ∈ fixedLexemes := Lexeme.mem_fixedLexemes rfl
    rw [hrespell] at hc
    exact (hv.head ho rest' c hc).2.1

theorem eq_line (h : Begins v cs ls) (hcs : ∀ c ∈ cs.head?, c = '\n') :
    ∀ c ∈ (v.respell cs).head?, c = '\n' := by
  intro c hc
  cases h with
  | same hhead _ _ => exact hcs c (hhead ▸ hc)
  | @operator o ls rest rest' htext _ =>
    have hne : ∃ d ds, o.symbol.toList = d :: ds ∧ d ≠ '\n' := by
      cases o <;> exact ⟨_, _, rfl, by decide⟩
    obtain ⟨d, ds, hd, hline⟩ := hne
    exact absurd (hcs d (by simp [htext, hd])) hline

end Begins

/-- What is written for a terminal is taken for it, if what is behind it can stand there. -/
theorem Plain.takes_rewrite (hv : v.Plain) {t : Terminal} {text rest : List Char}
    {ls : List Lexeme} (htakes : standard.Takes t text rest) (hrest : Begins v rest ls)
    (hls : ∀ a ∈ t.lexeme? text, ∀ b ∈ ls.head?, a.Apart b) :
    v.Takes t (t.rewrite v text) (v.respell rest) := by
  cases t with
  | literal k =>
    refine takes_literal htakes.spells fun _ => hrest.numberEnds hv fun b hb => ?_
    have hapart := (hls _ rfl b hb).1
    simpa [Lexeme.isLiteral] using hapart
  | blank =>
    obtain ⟨htext, hhead⟩ := htakes.of_blank
    exact takes_blank htakes.ne_nil htext (hrest.isLayout_eq_false hv hhead)
  | comment =>
    obtain ⟨inside, rfl, hinside, hhead⟩ := htakes.of_comment
    exact takes_comment hinside (hrest.eq_line hhead)
  | fixed l =>
    have hnext (hl : l.isOperator = true) : ∀ b ∈ ls.head?, b.isOperator = false := by
      intro b hb
      have hapart := (hls l rfl b hb).2
      simpa [hl] using hapart
    refine hv.takes_fixed htakes.mem_fixedLexemes (fun hl => ?_) fun hdiv => ?_
    · obtain ⟨hhead, hsymbol⟩ := hrest.head?_eq (hnext hl)
      rwa [hhead]
    · subst hdiv
      obtain ⟨hhead, -⟩ := hrest.head?_eq (hnext rfl)
      rw [hhead]
      -- two slashes would have been taken for a comment
      rintro c hc rfl
      obtain ⟨behind, rfl⟩ := List.head?_eq_some_iff.mp hc
      have hcomment : commentWidth (text ++ '/' :: behind) = 0 :=
        htakes.width_eq_zero .comment (by decide)
      rw [htakes.eq_text] at hcomment
      simp [commentWidth, Vocabulary.text, standard, Operator.symbol] at hcomment

/-- **A respelled text lexes alike.** Every terminal is taken for what is written in its place. -/
theorem Plain.exists_lexes (hv : v.Plain) {m : Mark} {cs : List Char} {ts : List Token}
    (h : Lexes .standard m cs ts) (hloose : Loose (ts.map (·.lexeme))) (m' : Mark) :
    ∃ ts', Lexes v m' (v.respell cs) ts' ∧ ts'.map (·.lexeme) = ts.map (·.lexeme) := by
  induction h generalizing m' with
  | ending m => exact ⟨[], by rw [respell_nil]; exact .ending m', rfl⟩
  | @piece m t text rest ts htakes hlexes ih =>
    have hbegins := begins_of_lexes v hlexes
    rw [List.map_append] at hloose
    have hparts : (∀ a ∈ t.lexeme? text, ∀ b ∈ (ts.map (·.lexeme)).head?, a.Apart b) ∧
        Loose (ts.map (·.lexeme)) := by
      cases hlexeme : t.lexeme? text with
      | none =>
        rw [hlexeme] at hloose
        exact ⟨nofun, hloose⟩
      | some l =>
        rw [hlexeme] at hloose
        obtain ⟨hhead, hrest⟩ := loose_cons_iff.mp hloose
        refine ⟨?_, hrest⟩
        rintro _ ⟨⟩
        exact hhead
    obtain ⟨hnext, hrest⟩ := hparts
    obtain ⟨ts', hts', hlexemes⟩ := ih hrest (m'.after (t.rewrite v text))
    have hpiece := Lexes.piece (hv.takes_rewrite htakes hbegins hnext) hts'
    rw [respell_of_takes htakes]
    refine ⟨_, hpiece, ?_⟩
    have hsame : t.lexeme? (t.rewrite v text) = t.lexeme? text := by cases t <;> rfl
    rw [hsame, List.map_append, List.map_append, hlexemes]
    cases t.lexeme? text <;> rfl

end Vocabulary

end RuleTree
