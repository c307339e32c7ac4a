import RuleTree.Proofs.Source.Taking
import RuleTree.Source.Reading

/-!
# Layout

The texts of lexemes, one after another with layout between them or without any, lex into those
lexemes again, wherever the lexemes follow each other as in a sentence.

* `Gap`: the layout that may stand between two lexemes.
* `LaidOut`: a text that is made of the texts of lexemes and gaps.
* `Lexeme.Apart`: lexemes that may stand together without a gap; those of a sentence are, by
  `Reading.loose_of_steps`.
* `exists_lexes_of_laidOut`: a laid out text lexes into its lexemes.
-/

namespace RuleTree

open Terminal

/-! ### Gaps -/

/-- White space, and comments that each end with their line. -/
inductive Filler : List Char → Prop
  | nil : Filler []
  | blank {c : Char} {cs : List Char} (hc : isLayout c = true) (hcs : Filler cs) : Filler (c :: cs)
  | comment {inside cs : List Char} (hinside : ∀ c ∈ inside, c ≠ '\n') (hcs : Filler cs) :
    Filler ('/' :: '/' :: (inside ++ '\n' :: cs))

/-- Nothing, or white space and comments with white space at the beginning. -/
structure Gap (cs : List Char) : Prop where
  filler : Filler cs
  opens : ∀ c ∈ cs.head?, isLayout c = true

theorem gap_nil : Gap [] := ⟨.nil, nofun⟩

theorem Filler.dropWhile {cs : List Char} (h : Filler cs) : Filler (cs.dropWhile isLayout) := by
  induction h with
  | nil => exact .nil
  | blank hc _ ih =>
    rw [List.dropWhile_cons_of_pos hc]
    exact ih
  | comment hinside hcs _ =>
    rw [List.dropWhile_cons_of_neg (by decide)]
    exact .comment hinside hcs

theorem lexes_filler {v : Vocabulary} {m : Mark} {cs rest : List Char} {ts : List Token}
    (hcs : Filler cs) (hrest : ∀ c ∈ rest.head?, isLayout c = false)
    (h : Lexes v (m.after cs) rest ts) : Lexes v m (cs ++ rest) ts := by
  induction hn : cs.length using Nat.strongRecOn generalizing m cs with
  | ind n ih =>
    cases hcs with
    | nil => exact h
    | @blank c cs hc hcs =>
      have hsplit := List.takeWhile_append_dropWhile (p := isLayout) (l := c :: cs)
      have hhead : ∀ d ∈ ((c :: cs).dropWhile isLayout ++ rest).head?, isLayout d = false := by
        cases hdrop : (c :: cs).dropWhile isLayout with
        | nil => exact hrest
        | cons d ds =>
          rintro _ ⟨⟩
          simpa [hdrop] using List.head?_dropWhile_not isLayout (c :: cs)
      have hne : (c :: cs).takeWhile isLayout ≠ [] := by
        rw [List.takeWhile_cons_of_pos hc]
        nofun
      have hshort : ((c :: cs).dropWhile isLayout).length < n := by
        have := congrArg List.length hsplit
        have := List.length_pos_iff.mpr hne
        rw [List.length_append] at *
        omega
      have htakes : v.Takes .blank ((c :: cs).takeWhile isLayout)
          ((c :: cs).dropWhile isLayout ++ rest) :=
        Vocabulary.takes_blank hne (fun d hd => mem_takeWhile hd) hhead
      rw [← hsplit, List.append_assoc]
      rw [← hsplit, Mark.after_append] at h
      exact .piece htakes (ih _ hshort (Filler.blank hc hcs).dropWhile h rfl)
    | @comment inside cs hinside hcs =>
      have htakes : v.Takes .comment ('/' :: '/' :: inside) ('\n' :: cs ++ rest) :=
        Vocabulary.takes_comment hinside (by rintro _ ⟨⟩; rfl)
      have hshort : ('\n' :: cs).length < n := by
        rw [← hn]
        simp
        omega
      have hsplit : '/' :: '/' :: (inside ++ '\n' :: cs) =
          ('/' :: '/' :: inside) ++ '\n' :: cs := rfl
      rw [hsplit, List.append_assoc]
      rw [hsplit, Mark.after_append] at h
      exact .piece htakes (ih _ hshort (.blank (by decide) hcs) h rfl)

/-! ### Lexemes side by side -/

namespace Lexeme

def isLiteral : Lexeme → Bool
  | literal .. => true
  | _ => false

def isOperator : Lexeme → Bool
  | operator _ => true
  | _ => false

/-- The texts of the lexemes can stand together: they are not both literals and not both
operators. -/
def Apart (a b : Lexeme) : Prop :=
  ¬(a.isLiteral = true ∧ b.isLiteral = true) ∧ ¬(a.isOperator = true ∧ b.isOperator = true)

/-- The text of a literal is one of its kind. -/
def Spelled (l : Lexeme) : Prop := ∀ k text, l = literal k text → k.Spells text.toList

theorem spelled_of_isLiteral {l : Lexeme} (h : l.isLiteral = false) : l.Spelled := by
  rintro k text rfl
  cases h

/-- Nothing at the beginning of the text could go on with the lexeme. -/
structure Ends (l : Lexeme) (rest : List Char) : Prop where
  literal : l.isLiteral = true → NumberEnds rest
  operator : l.isOperator = true → ∀ c ∈ rest.head?, c ≠ '*' ∧ c ≠ '/'

theorem mem_fixedLexemes {l : Lexeme} (h : l.isLiteral = false) : l ∈ Vocabulary.fixedLexemes := by
  cases l with
  | literal k text => cases h
  | operator o => cases o <;> decide
  | opening b => cases b <;> decide
  | closing b => cases b <;> decide
  | comma => decide
  | semicolon => decide

end Lexeme

/-- Neighbours can stand together. -/
def Loose (ls : List Lexeme) : Prop := ∀ a b, [a, b] <:+: ls → a.Apart b

theorem loose_nil : Loose [] := by
  rintro a b ⟨before, behind, h⟩
  simp at h

theorem loose_cons_iff {l : Lexeme} {ls : List Lexeme} :
    Loose (l :: ls) ↔ (∀ b ∈ ls.head?, l.Apart b) ∧ Loose ls := by
  constructor
  · intro h
    refine ⟨fun b hb => ?_, fun a b hab => h a b (hab.trans (List.suffix_cons l ls).isInfix)⟩
    obtain ⟨rest, rfl⟩ := List.head?_eq_some_iff.mp hb
    exact h l b ⟨[], rest, rfl⟩
  · rintro ⟨hhead, hrest⟩ a b hab
    rcases List.infix_cons_iff.mp hab with ⟨behind, hprefix⟩ | hinfix
    · cases ls with
      | nil => simp at hprefix
      | cons b' ls =>
        cases hprefix
        exact hhead b rfl
    · exact hrest a b hinfix

/-- The lexemes with their texts one after another, and a gap before, between and behind them. -/
inductive LaidOut (v : Vocabulary) : List Lexeme → List Char → Prop
  | nil {gap : List Char} (hgap : Gap gap) : LaidOut v [] gap
  | cons {gap cs : List Char} {l : Lexeme} {ls : List Lexeme} (hgap : Gap gap)
    (h : LaidOut v ls cs) : LaidOut v (l :: ls) (gap ++ ((v.text l).toList ++ cs))

theorem laidOut_texts (v : Vocabulary) (ls : List Lexeme) :
    LaidOut v ls (ls.flatMap fun l => (v.text l).toList) := by
  induction ls with
  | nil => exact .nil gap_nil
  | cons l ls ih => exact .cons gap_nil ih

namespace Reading

theorem term?_of_step_literal {start : Start} {s s' : State} {t : Token}
    (ht : t.lexeme.isLiteral = true) (h : s.step start t = some s') :
    s.term? = none ∧ s'.term? ≠ none := by
  obtain ⟨lexeme, span⟩ := t
  cases lexeme with
  | literal k text =>
    unfold State.step at h
    split at h
    · rename_i hterm
      cases h
      exact ⟨hterm, nofun⟩
    · cases h
  | _ => cases ht

theorem term?_of_step_operator {start : Start} {s s' : State} {t : Token}
    (ht : t.lexeme.isOperator = true) (h : s.step start t = some s') :
    s.term? ≠ none ∧ s'.term? = none := by
  obtain ⟨lexeme, span⟩ := t
  cases lexeme with
  | operator o =>
    unfold State.step at h
    split at h
    · cases h
    · rename_i hterm
      refine ⟨by rw [hterm]; nofun, ?_⟩
      simp only [State.stepBehind] at h
      split at h
      · cases h
        rfl
      · cases h
  | _ => cases ht

theorem apart_of_step {start : Start} {s s' s'' : State} {t u : Token}
    (ht : s.step start t = some s') (hu : s'.step start u = some s'') :
    t.lexeme.Apart u.lexeme := by
  constructor
  · rintro ⟨htl, hul⟩
    exact (term?_of_step_literal htl ht).2 (term?_of_step_literal hul hu).1
  · rintro ⟨hto, huo⟩
    exact (term?_of_step_operator huo hu).1 (term?_of_step_operator hto ht).2

theorem loose_of_steps {start : Start} {s s' : State} {ts : List Token}
    (h : s.steps start ts = .ok s') : Loose (ts.map (·.lexeme)) := by
  induction ts generalizing s with
  | nil => exact loose_nil
  | cons t ts ih =>
    rw [State.steps] at h
    split at h
    · rename_i next hnext
      refine loose_cons_iff.mpr ⟨?_, ih h⟩
      cases ts with
      | nil =>
        intro b hb
        cases hb
      | cons u us =>
        rintro _ ⟨⟩
        rw [State.steps] at h
        split at h
        · rename_i next' hnext'
          exact apart_of_step hnext hnext'
        · cases h
    · cases h

end Reading

/-! ### Laid out texts -/

namespace Vocabulary

theorem isNumeric_of_isLayout {c : Char} (h : isLayout c = true) :
    isNumeric c = false ∧ c ≠ '*' ∧ c ≠ '/' := by
  simp only [isLayout, Bool.or_eq_true, decide_eq_true_iff] at h
  rcases h with (((rfl | rfl) | rfl) | rfl) | rfl <;> decide

theorem ends_of_layout {l : Lexeme} {rest : List Char}
    (h : ∀ c ∈ rest.head?, isLayout c = true) : l.Ends rest where
  literal _ c hc := (isNumeric_of_isLayout (h c hc)).1
  operator _ c hc := (isNumeric_of_isLayout (h c hc)).2

theorem ends_standard : ∀ l ∈ fixedLexemes, (standard.text l).toList.head?.all (fun c =>
    isNumeric c = false && (l.isOperator || c ≠ '*' && c ≠ '/')) = true := by
  decide

theorem ne_of_opensLiteral {c : Char} (h : opensLiteral c = true) :
    isLayout c = false ∧ c ≠ '*' ∧ c ≠ '/' := by
  simp only [opensLiteral, Bool.or_eq_true, decide_eq_true_iff] at h
  rcases h with (hdigit | rfl) | rfl
  · exact forall_isDecimalDigit (p := fun c => isLayout c = false ∧ c ≠ '*' ∧ c ≠ '/') (by decide)
      hdigit
  · decide
  · decide

theorem head_literal {l : Lexeme} (hl : l.Spelled) (hliteral : l.isLiteral = true)
    (rest : List Char) : ∀ c ∈ ((standard.text l).toList ++ rest).head?, opensLiteral c = true := by
  cases l with
  | literal k text =>
    have hopens := (hl k text rfl).opensLiteral
    show ∀ c ∈ (text.toList ++ rest).head?, opensLiteral c = true
    cases htext : text.toList with
    | nil =>
      rw [htext] at hopens
      cases hopens
    | cons d ds =>
      rintro c ⟨⟩
      simpa [htext] using hopens
  | _ => cases hliteral

theorem head_fixed {l : Lexeme} (hl : l ∈ fixedLexemes) (rest : List Char) :
    ∀ c ∈ ((standard.text l).toList ++ rest).head?, isLayout c = false ∧ isNumeric c = false ∧
      (l.isOperator = false → c ≠ '*' ∧ c ≠ '/') := by
  have hends := ends_standard l hl
  have hhead := head_standard l hl
  cases htext : (standard.text l).toList with
  | nil => exact absurd htext (text_standard_ne_nil l hl)
  | cons d ds =>
    rintro c ⟨⟩
    simp only [htext, List.head?_cons, Option.all_some, Bool.and_eq_true, Bool.or_eq_true,
      decide_eq_true_iff] at hends hhead
    refine ⟨hhead.2, hends.1, fun hoperator => ?_⟩
    simpa [hoperator] using hends.2

theorem ends_of_apart {a l : Lexeme} (h : a.Apart l) (hl : l.Spelled) (rest : List Char) :
    a.Ends ((standard.text l).toList ++ rest) := by
  by_cases hliteral : l.isLiteral = true
  · have hhead := head_literal hl hliteral rest
    exact ⟨fun ha => absurd ⟨ha, hliteral⟩ h.1, fun _ c hc => (ne_of_opensLiteral (hhead c hc)).2⟩
  · have hhead := head_fixed (Lexeme.mem_fixedLexemes (by simpa using hliteral)) rest
    refine ⟨fun _ c hc => (hhead c hc).2.1, fun ha c hc => (hhead c hc).2.2 ?_⟩
    simpa using fun hoperator => h.2 ⟨ha, hoperator⟩

theorem takes_lexeme {l : Lexeme} (hl : l.Spelled) {rest : List Char} (hrest : l.Ends rest) :
    ∃ t, standard.Takes t (standard.text l).toList rest ∧
      t.lexeme? (standard.text l).toList = some l := by
  by_cases hliteral : l.isLiteral = true
  · cases l with
    | literal k text =>
      refine ⟨.literal k, takes_literal (hl k text rfl) fun _ => hrest.literal rfl, ?_⟩
      rw [Terminal.lexeme?, Vocabulary.text, String.ofList_toList]
    | _ => cases hliteral
  · refine ⟨.fixed l, takes_fixed_standard (Lexeme.mem_fixedLexemes (by simpa using hliteral)) ?_,
      rfl⟩
    rintro o rfl
    exact hrest.operator rfl

theorem head_text {l : Lexeme} (hl : l.Spelled) (rest : List Char) :
    ∀ c ∈ ((standard.text l).toList ++ rest).head?, isLayout c = false := by
  by_cases hliteral : l.isLiteral = true
  · exact fun c hc => (ne_of_opensLiteral (head_literal hl hliteral rest c hc)).1
  · have hfixed := Lexeme.mem_fixedLexemes (by simpa using hliteral)
    exact fun c hc => (head_fixed hfixed rest c hc).1

end Vocabulary

theorem Lexes.cons_lexeme {l : Lexeme} (hl : l.Spelled) {m : Mark} {rest : List Char}
    {ts : List Token} (hrest : l.Ends rest)
    (h : Lexes .standard (m.after (Vocabulary.standard.text l).toList) rest ts) :
    Lexes .standard m ((Vocabulary.standard.text l).toList ++ rest)
      (⟨l, m, m.after (Vocabulary.standard.text l).toList⟩ :: ts) := by
  obtain ⟨t, htakes, hlexeme⟩ := Vocabulary.takes_lexeme hl hrest
  have hpiece := Lexes.piece htakes h
  rwa [hlexeme] at hpiece

theorem LaidOut.ends {a : Lexeme} {ls : List Lexeme} {cs : List Char}
    (h : LaidOut .standard ls cs) (hls : ∀ l ∈ ls, l.Spelled) (ha : ∀ l ∈ ls.head?, a.Apart l) :
    a.Ends cs := by
  cases h with
  | nil hgap => exact Vocabulary.ends_of_layout hgap.opens
  | @cons gap cs l ls hgap _ =>
    cases gap with
    | nil => exact Vocabulary.ends_of_apart (ha l rfl) (hls l List.mem_cons_self) cs
    | cons c gap =>
      refine Vocabulary.ends_of_layout ?_
      rintro _ ⟨⟩
      exact hgap.opens c rfl

/-- **Layout does not matter.** Lexemes that can stand together lex again from every text that they
are laid out in, also from the one without any layout. -/
theorem exists_lexes_of_laidOut {ls : List Lexeme} {cs : List Char} (h : LaidOut .standard ls cs)
    (hspelled : ∀ l ∈ ls, l.Spelled) (hloose : Loose ls) (m : Mark) :
    ∃ ts, Lexes .standard m cs ts ∧ ts.map (·.lexeme) = ls := by
  induction h generalizing m with
  | @nil gap hgap =>
    refine ⟨[], ?_, rfl⟩
    have hlexes : Lexes .standard m (gap ++ []) [] :=
      lexes_filler hgap.filler nofun (.ending (m.after gap))
    rwa [List.append_nil] at hlexes
  | @cons gap cs l ls hgap h ih =>
    obtain ⟨hl, hls⟩ := List.forall_mem_cons.mp hspelled
    obtain ⟨hnext, hrest⟩ := loose_cons_iff.mp hloose
    obtain ⟨ts, hts, hlexemes⟩ :=
      ih hls hrest ((m.after gap).after (Vocabulary.standard.text l).toList)
    exact ⟨_, lexes_filler hgap.filler (Vocabulary.head_text hl cs)
      (hts.cons_lexeme hl (h.ends hls hnext)), by simp [hlexemes]⟩

end RuleTree
