import RuleTree.Proofs.Literal.Text
import RuleTree.Source.Scan

/-!
# Lexing as a relation

`Lexes v m cs ts`: the text `cs`, which begins at the place `m`, is cut to its end into terminals,
each of them the one that is taken where it stands, and `ts` are the tokens among them. White space
and comments are no tokens.

* `lexes_standard_iff`: in the standard vocabulary this is what cutting a text into words does.
* `Lexes.exists_takes_of_mem`: every token is a terminal at its place in the text.
* `Scan.exists_split_of_mem`: cutting a text comes to places in the text only.
-/

namespace RuleTree

/-- What a terminal with the given text is read as; white space and comments are not read. -/
def Terminal.lexeme? (text : List Char) : Terminal → Option Lexeme
  | literal kind => some (.literal kind (String.ofList text))
  | fixed lexeme => some lexeme
  | blank => none
  | comment => none

namespace Vocabulary

/-- The terminal `t` is taken for `text` where `rest` follows it. -/
def Takes (v : Vocabulary) (t : Terminal) (text rest : List Char) : Prop :=
  ∃ found, v.terminalAt? (text ++ rest) = some found ∧ found.terminal = t ∧
    found.width = text.length

end Vocabulary

/-- The text is cut to its end into terminals, and the tokens among them are in the list. -/
inductive Lexes (v : Vocabulary) : Mark → List Char → List Token → Prop
  | ending (m : Mark) : Lexes v m [] []
  | piece {m : Mark} {t : Terminal} {text rest : List Char} {ts : List Token}
      (htakes : v.Takes t text rest) (hrest : Lexes v (m.after text) rest ts) :
      Lexes v m (text ++ rest) (((t.lexeme? text).map (⟨·, m, m.after text⟩)).toList ++ ts)

/-! ### The terminal that is taken -/

namespace Vocabulary

theorem matchAt?_eq_some {v : Vocabulary} {cs : List Char} {t : Terminal} {found : TerminalMatch}
    (h : v.matchAt? cs t = some found) : found.terminal = t ∧ found.width = t.width v cs := by
  unfold matchAt? at h
  split at h
  · cases h
    exact ⟨rfl, rfl⟩
  · cases h

theorem mem_of_widest? {ms : List TerminalMatch} {m : TerminalMatch} (h : widest? ms = some m) :
    m ∈ ms := by
  induction ms generalizing m with
  | nil => cases h
  | cons n ms ih =>
    rw [widest?] at h
    split at h
    · rename_i n' hn'
      split at h
      · cases h
        exact List.mem_cons_of_mem _ (ih hn')
      · cases h
        exact List.mem_cons_self
    · cases h
      exact List.mem_cons_self

theorem terminalAt?_eq_some {v : Vocabulary} {cs : List Char} {found : TerminalMatch}
    (h : v.terminalAt? cs = some found) :
    found.width = found.terminal.width v cs ∧
      ∀ l, found.terminal = .fixed l → l ∈ fixedLexemes := by
  unfold terminalAt? at h
  rcases Option.or_eq_some_iff.mp h with hnamed | ⟨-, hfixed⟩
  · obtain ⟨t, ht, hmatch⟩ := List.exists_of_findSome?_eq_some hnamed
    obtain ⟨rfl, hwidth⟩ := matchAt?_eq_some hmatch
    refine ⟨hwidth, fun l hl => ?_⟩
    rw [hl] at ht
    simp [namedTerminals] at ht
  · obtain ⟨t, ht, hmatch⟩ := List.mem_filterMap.mp (mem_of_widest? hfixed)
    obtain ⟨l, hl, rfl⟩ := List.mem_map.mp ht
    obtain ⟨hterminal, hwidth⟩ := matchAt?_eq_some hmatch
    refine ⟨by rw [hwidth, hterminal], fun l' hl' => ?_⟩
    rw [hterminal] at hl'
    cases hl'
    exact hl

theorem Takes.width_eq {v : Vocabulary} {t : Terminal} {text rest : List Char}
    (h : v.Takes t text rest) : t.width v (text ++ rest) = text.length := by
  obtain ⟨found, hfound, rfl, hwidth⟩ := h
  rw [← hwidth, (terminalAt?_eq_some hfound).1]

theorem Takes.ne_nil {v : Vocabulary} {t : Terminal} {text rest : List Char}
    (h : v.Takes t text rest) : text ≠ [] := by
  obtain ⟨found, -, -, hwidth⟩ := h
  rintro rfl
  have := found.width_pos
  rw [hwidth] at this
  simp at this

theorem Takes.mem_fixedLexemes {v : Vocabulary} {l : Lexeme} {text rest : List Char}
    (h : v.Takes (.fixed l) text rest) : l ∈ fixedLexemes := by
  obtain ⟨found, hfound, hterminal, -⟩ := h
  exact (terminalAt?_eq_some hfound).2 l hterminal

theorem Takes.eq_text {v : Vocabulary} {l : Lexeme} {text rest : List Char}
    (h : v.Takes (.fixed l) text rest) : text = (v.text l).toList := by
  have hwidth := h.width_eq
  have hne := h.ne_nil
  simp only [Terminal.width] at hwidth
  split at hwidth
  · rename_i hpre
    obtain ⟨tail, htail⟩ := List.isPrefixOf_iff_prefix.mp hpre
    exact ((List.append_inj htail hwidth).1).symm
  · exact absurd (List.eq_nil_of_length_eq_zero hwidth.symm) hne

theorem Takes.spells {v : Vocabulary} {k : LiteralKind} {text rest : List Char}
    (h : v.Takes (.literal k) text rest) : k.Spells text := by
  have hwidth := h.width_eq
  have hne : (Terminal.literal k).width v (text ++ rest) ≠ 0 := by
    rw [hwidth]
    intro h0
    exact h.ne_nil (List.eq_nil_of_length_eq_zero h0)
  have := Terminal.spells_take_width hne
  rwa [hwidth, List.take_left] at this

end Vocabulary

/-! ### The standard vocabulary -/

/-- Whether a literal can begin with the character. -/
def opensLiteral (c : Char) : Bool := isDecimalDigit c || c = '\'' || c = '"'

theorem Radix.Spells.exists_head {r : Radix} {text : List Char} (h : r.Spells text) :
    ∃ c cs, text = c :: cs ∧ isDecimalDigit c = true := by
  obtain ⟨digits, hdrop, hne, hdigits⟩ := h
  by_cases hr : r = .decimal
  · subst hr
    cases hdrop
    cases text with
    | nil => exact absurd rfl hne
    | cons c cs => exact ⟨c, cs, rfl, hdigits c List.mem_cons_self⟩
  · obtain ⟨mark, rfl, -⟩ := Terminal.dropPrefix?_eq_some hr hdrop
    exact ⟨'0', mark :: digits, rfl, by decide⟩

theorem LiteralKind.Spells.opensLiteral {k : LiteralKind} {text : List Char} (h : k.Spells text) :
    text.head?.any opensLiteral = true := by
  rcases k.cases_radix with rfl | rfl | rfl | ⟨r, rfl⟩
  · obtain ⟨r, whole, fraction, rfl, hwhole, -⟩ := h
    obtain ⟨c, cs, rfl, hc⟩ := hwhole.exists_head
    simp [RuleTree.opensLiteral, hc]
  · obtain ⟨inside, rfl, -⟩ := h
    rfl
  · obtain ⟨inside, rfl, -⟩ := h
    rfl
  · obtain ⟨c, cs, rfl, hc⟩ := (spells_literalKind.mp h).exists_head
    simp [RuleTree.opensLiteral, hc]

namespace Vocabulary

theorem opensLiteral_standard : ∀ l ∈ fixedLexemes,
    (standard.text l).toList.head?.any opensLiteral = false := by
  decide

theorem meanings_of_spells {k : LiteralKind} {text : List Char} (h : k.Spells text) :
    standard.meanings (String.ofList text) = [] := by
  rw [List.eq_nil_iff_forall_not_mem]
  intro l hl
  obtain ⟨hfixed, htext⟩ := mem_meanings_iff.mp hl
  have hopens := opensLiteral_standard l hfixed
  simp [htext, String.toList_ofList, h.opensLiteral] at hopens

theorem Takes.readings_standard {t : Terminal} {text rest : List Char}
    (h : standard.Takes t text rest) :
    t.readings standard (String.ofList text) = (t.lexeme? text).toList := by
  cases t with
  | literal k =>
    rw [Terminal.readings, if_neg fun hne => hne.2 (meanings_of_spells h.spells)]
    rfl
  | fixed l =>
    rw [Terminal.readings, h.eq_text, String.ofList_toList, meanings_standard l h.mem_fixedLexemes]
    rfl
  | blank => rfl
  | comment => rfl

/-- Whatever is taken is read in one way, if it is read. -/
def Clear (v : Vocabulary) : Prop :=
  ∀ (t : Terminal) (text rest : List Char), v.Takes t text rest →
    t.readings v (String.ofList text) = (t.lexeme? text).toList

theorem clear_standard : standard.Clear := fun _ _ _ h => h.readings_standard

end Vocabulary

theorem Scan.ofChars_of_readings {v : Vocabulary} {m : Mark} {t : Terminal}
    {text rest : List Char} (h : v.Takes t text rest) {l? : Option Lexeme}
    (hreadings : t.readings v (String.ofList text) = l?.toList) :
    Scan.ofChars v m (text ++ rest) =
      ⟨(l?.map (⟨[·], m, m.after text⟩)).toList ++ (Scan.ofChars v (m.after text) rest).words,
        (Scan.ofChars v (m.after text) rest).failure⟩ := by
  have hne := h.ne_nil
  obtain ⟨found, hfound, rfl, hwidth⟩ := h
  cases text with
  | nil => exact absurd rfl hne
  | cons c cs =>
    have htake : (c :: (cs ++ rest)).take (c :: cs).length = c :: cs := List.take_left
    have hdrop : (c :: (cs ++ rest)).drop (c :: cs).length = rest := List.drop_left
    rw [List.cons_append] at hfound ⊢
    conv =>
      lhs
      unfold Scan.ofChars
    simp only [hfound, hwidth, htake, hdrop, hreadings]
    cases l? <;> rfl

theorem Scan.ofChars_of_takes {m : Mark} {t : Terminal} {text rest : List Char}
    (h : Vocabulary.standard.Takes t text rest) :
    Scan.ofChars .standard m (text ++ rest) =
      ⟨((t.lexeme? text).map (⟨[·], m, m.after text⟩)).toList
          ++ (Scan.ofChars .standard (m.after text) rest).words,
        (Scan.ofChars .standard (m.after text) rest).failure⟩ :=
  ofChars_of_readings h h.readings_standard

theorem Scan.ofChars_of_none {v : Vocabulary} {m : Mark} {c : Char} {cs : List Char}
    (h : v.terminalAt? (c :: cs) = none) : Scan.ofChars v m (c :: cs) = ⟨[], some m⟩ := by
  unfold Scan.ofChars
  rw [h]

theorem Vocabulary.exists_takes {v : Vocabulary} {cs : List Char} {found : TerminalMatch}
    (h : v.terminalAt? cs = some found) :
    ∃ text rest, cs = text ++ rest ∧ v.Takes found.terminal text rest := by
  refine ⟨cs.take found.width, cs.drop found.width, (List.take_append_drop _ _).symm, found, ?_,
    rfl, ?_⟩
  · rw [List.take_append_drop, h]
  · have := Terminal.width_le_length v cs found.terminal
    rw [← (terminalAt?_eq_some h).1] at this
    rw [List.length_take]
    omega

theorem Scan.ofChars_nil (v : Vocabulary) (m : Mark) : Scan.ofChars v m [] = ⟨[], none⟩ := by
  unfold Scan.ofChars
  rfl

namespace Scan

/-- The places where words begin, and the one where no terminal can stand. -/
def places (s : Scan) : List Mark := s.words.map (·.span.start) ++ s.failure.toList

theorem exists_split_of_mem {v : Vocabulary} {m k : Mark} {cs : List Char}
    (hk : k ∈ (ofChars v m cs).places) :
    ∃ before behind, cs = before ++ behind ∧ k = m.after before := by
  have hrest {m : Mark} {cs : List Char} (n : Nat)
      (h : ∃ before behind, cs.drop n = before ++ behind ∧ k = (m.after (cs.take n)).after before) :
      ∃ before behind, cs = before ++ behind ∧ k = m.after before := by
    obtain ⟨before, behind, hcs, hk⟩ := h
    refine ⟨cs.take n ++ before, behind, ?_, by rw [hk, Mark.after_append]⟩
    rw [List.append_assoc, ← hcs, List.take_append_drop]
  fun_induction ofChars v m cs with
  | case1 m => cases hk
  | case2 m c cs hnone =>
    cases List.mem_singleton.mp hk
    exact ⟨[], c :: cs, rfl, rfl⟩
  | case3 m c cs found hfound text rest hreadings ih => exact hrest found.width (ih hk)
  | case4 m c cs found hfound text rest hreadings ih =>
    rcases List.mem_cons.mp hk with rfl | hk
    · exact ⟨[], c :: cs, rfl, rfl⟩
    · exact hrest found.width (ih hk)

end Scan

theorem words_of_lexes_of_clear {v : Vocabulary} (hv : v.Clear) {m : Mark} {cs : List Char}
    {ts : List Token} (h : Lexes v m cs ts) :
    (Scan.ofChars v m cs).failure = none ∧ (Scan.ofChars v m cs).words = ts.map Token.word := by
  induction h with
  | ending m => exact ⟨by rw [Scan.ofChars_nil], by rw [Scan.ofChars_nil, List.map_nil]⟩
  | piece htakes _ ih =>
    rename_i m t text rest ts _
    rw [Scan.ofChars_of_readings htakes (hv t text rest htakes), List.map_append, ← ih.2]
    refine ⟨ih.1, ?_⟩
    cases t.lexeme? text <;> rfl

theorem words_of_lexes {m : Mark} {cs : List Char} {ts : List Token}
    (h : Lexes .standard m cs ts) :
    (Scan.ofChars .standard m cs).failure = none ∧
      (Scan.ofChars .standard m cs).words = ts.map Token.word :=
  words_of_lexes_of_clear Vocabulary.clear_standard h

theorem exists_lexes {m : Mark} {cs : List Char}
    (h : (Scan.ofChars .standard m cs).failure = none) : ∃ ts, Lexes .standard m cs ts := by
  induction hn : cs.length using Nat.strongRecOn generalizing m cs with
  | ind n ih =>
    cases cs with
    | nil => exact ⟨[], .ending m⟩
    | cons c cs =>
      cases hfound : Vocabulary.standard.terminalAt? (c :: cs) with
      | none =>
        simp [Scan.ofChars_of_none hfound] at h
      | some found =>
        obtain ⟨text, rest, hcs, htakes⟩ := Vocabulary.exists_takes hfound
        rw [hcs, Scan.ofChars_of_takes htakes] at h
        have hshort : rest.length < n := by
          have := List.length_pos_iff.mpr htakes.ne_nil
          rw [← hn, hcs, List.length_append]
          omega
        obtain ⟨ts, hts⟩ := ih _ hshort h rfl
        exact ⟨_, hcs ▸ Lexes.piece htakes hts⟩

theorem word_injective {t u : Token} (h : t.word = u.word) : t = u := by
  cases t
  cases u
  cases h
  rfl

/-- In the standard vocabulary a text lexes into tokens when it is cut to its end into the words of
those tokens. -/
theorem lexes_standard_iff {m : Mark} {cs : List Char} {ts : List Token} :
    Lexes .standard m cs ts ↔
      (Scan.ofChars .standard m cs).failure = none ∧
        (Scan.ofChars .standard m cs).words = ts.map Token.word := by
  refine ⟨words_of_lexes, fun ⟨hfailure, hwords⟩ => ?_⟩
  obtain ⟨us, hus⟩ := exists_lexes hfailure
  have := (words_of_lexes hus).2
  rw [hwords] at this
  rwa [(List.map_inj_right fun _ _ => word_injective).mp this]

/-! ### Tokens at their places -/

theorem Lexes.exists_takes_of_mem {v : Vocabulary} {m : Mark} {cs : List Char} {ts : List Token}
    (h : Lexes v m cs ts) {t : Token} (ht : t ∈ ts) :
    ∃ (terminal : Terminal) (before text behind : List Char), cs = before ++ (text ++ behind) ∧
      v.Takes terminal text behind ∧ terminal.lexeme? text = some t.lexeme ∧
      t.span = ⟨m.after before, (m.after before).after text⟩ := by
  induction h with
  | ending m => cases ht
  | piece htakes _ ih =>
    rename_i m terminal text rest ts _
    rcases List.mem_append.mp ht with hhere | hrest
    · obtain ⟨l, hl, rfl⟩ := Option.map_eq_some_iff.mp (Option.mem_toList.mp hhere)
      exact ⟨terminal, [], text, rest, rfl, htakes, hl, rfl⟩
    · obtain ⟨terminal', before, text', behind, rfl, htakes', hl, hspan⟩ := ih hrest
      refine ⟨terminal', text ++ before, text', behind, ?_, htakes', hl, ?_⟩
      · rw [List.append_assoc]
      · rw [hspan, Mark.after_append]

end RuleTree
