import Mathlib.Data.List.Basic
import RuleTree.Proofs.Source.Layout
import RuleTree.Proofs.Source.Line
import RuleTree.Proofs.Source.Truncation

/-!
# Two texts, one below the other

A text that is cut to its end is cut in the same way where another text begins on the line below it,
and the other text is cut there as it is by itself. The line feed between them ends every terminal
but white space, which is no word on either side.

* `Mark.below`: a place of the lower text, by the numbers of characters and of lines above it.
* `Vocabulary.terminalAt?_line`: what is taken before the end of a line.
* `Scan.ofChars_below`: cutting a text at a lower place.
* `Scan.ofChars_joint`: cutting both texts.
* `ParseError.contextAt_below`: the context of an error in the lower text.
-/

namespace RuleTree

/-! ### Places of the lower text -/

/-- A place of a text that begins on a line of its own, below so many characters and lines. -/
def Mark.below (chars lines : Nat) (k : Mark) : Mark := ⟨k.offset + chars, k.line + lines, k.column⟩

theorem Mark.below_after (chars lines : Nat) (k : Mark) (text : List Char) :
    (k.after text).below chars lines = (k.below chars lines).after text := by
  induction text generalizing k with
  | nil => rfl
  | cons c text ih =>
    have hnext : (k.next c).below chars lines = (k.below chars lines).next c := by
      by_cases hc : c = '\n'
      · simp [below, next, hc, Nat.add_right_comm]
      · simp [below, next, hc, Nat.add_right_comm]
    exact (ih (k.next c)).trans (congrArg (Mark.after · text) hnext)

theorem Mark.origin_after_line (cs : List Char) :
    origin.after (cs ++ ['\n']) = origin.below (cs.length + 1) (cs.count '\n' + 1) := by
  rw [after_concat, origin_after, ofOffset_length, next, if_pos rfl, below, origin]
  simp only [Mark.mk.injEq, and_true]
  omega

/-! ### The end of a line -/

namespace LiteralKind

theorem line_not_mem_of_isDigit {r : Radix} {cs : List Char} (h : ∀ c ∈ cs, r.isDigit c = true) :
    '\n' ∉ cs := by
  intro hmem
  have := h _ hmem
  revert this
  cases r <;> decide

theorem line_not_mem_of_radix {r : Radix} {text : List Char} (h : r.Spells text) : '\n' ∉ text := by
  obtain ⟨digits, hdrop, -, hdigits⟩ := h
  have hline := line_not_mem_of_isDigit hdigits
  by_cases hr : r = .decimal
  · subst hr
    cases hdrop
    exact hline
  · obtain ⟨mark, hmark, rfl, -⟩ := exists_mark hr hdrop
    have hmark' : mark ≠ '\n' := by
      rintro rfl
      revert hmark
      decide
    simp [hline, hmark'.symm]

theorem line_not_mem_of_string {inside : List Char} (h : StringContent inside) : '\n' ∉ inside := by
  induction h with
  | nil => simp
  | escaped hc _ ih => simp [hc.symm, ih]
  | plain hc _ ih => simp [hc.2.2.symm, ih]

theorem line_not_mem {k : LiteralKind} {text : List Char} (h : k.Spells text) : '\n' ∉ text := by
  rcases k.cases_radix with rfl | rfl | rfl | ⟨r, rfl⟩
  · obtain ⟨r, whole, fraction, rfl, hwhole, -, hfraction⟩ := h
    have hline : '\n' ∉ fraction := line_not_mem_of_isDigit (r := .decimal) hfraction
    simp [line_not_mem_of_radix hwhole, hline]
  · obtain ⟨inside, rfl, hinside⟩ := h
    have hline : '\n' ∉ inside := fun hmem => (hinside _ hmem).2 rfl
    simp [hline]
  · obtain ⟨inside, rfl, hinside⟩ := h
    simp [line_not_mem_of_string hinside]
  · exact line_not_mem_of_radix (spells_literalKind.mp h)

end LiteralKind

namespace Terminal

open Vocabulary

theorem line_not_mem_standard : ∀ l ∈ fixedLexemes, '\n' ∉ (standard.text l).toList := by decide

theorem line_not_mem_take {t : Terminal} (hblank : t ≠ .blank)
    (hfixed : ∀ l, t = .fixed l → l ∈ fixedLexemes) (cs : List Char) :
    '\n' ∉ cs.take (t.width standard cs) := by
  cases t with
  | literal k =>
    by_cases hzero : (literal k).width standard cs = 0
    · simp [hzero]
    · exact LiteralKind.line_not_mem (spells_take_width hzero)
  | blank => exact absurd rfl hblank
  | comment =>
    simp only [width]
    unfold commentWidth
    split
    · rename_i cs
      have hrun : '\n' ∉ cs.take (run (· ≠ '\n') cs) := by
        intro hmem
        rw [take_run] at hmem
        have := mem_takeWhile hmem
        simp at this
      rw [Nat.add_comm, List.take_succ_cons, List.take_succ_cons, List.mem_cons, List.mem_cons,
        not_or, not_or]
      exact ⟨by decide, by decide, hrun⟩
    · exact List.not_mem_nil
  | fixed l =>
    simp only [width]
    split
    · rename_i hpre
      obtain ⟨rest, rfl⟩ := List.isPrefixOf_iff_prefix.mp hpre
      rw [List.take_left]
      exact line_not_mem_standard l (hfixed l rfl)
    · simp

theorem width_line {t : Terminal} (hblank : t ≠ .blank)
    (hfixed : ∀ l, t = .fixed l → l ∈ fixedLexemes) (cs b : List Char) :
    t.width standard (cs ++ '\n' :: b) = t.width standard cs := by
  refine Nat.le_antisymm ?_ (width_le_append standard cs ('\n' :: b) t)
  have hline := line_not_mem_take hblank hfixed (cs ++ '\n' :: b)
  generalize hn : t.width standard (cs ++ '\n' :: b) = n at hline ⊢
  have hle : n ≤ cs.length := by
    refine Nat.le_of_not_lt fun hlt => hline ?_
    rw [List.take_append, List.mem_append]
    right
    obtain ⟨k, hk⟩ : ∃ k, n - cs.length = k + 1 := ⟨n - cs.length - 1, by omega⟩
    rw [hk, List.take_succ_cons]
    exact List.mem_cons_self
  have hwhole := width_take standard (cs ++ '\n' :: b) t
  rw [hn, List.take_append_of_le_length hle] at hwhole
  calc n = t.width standard (cs.take n) := hwhole.symm
    _ ≤ t.width standard (cs.take n ++ cs.drop n) := width_le_append standard _ _ t
    _ = t.width standard cs := by rw [List.take_append_drop]

end Terminal

namespace Vocabulary

open Terminal

variable {v : Vocabulary} {text rest : List Char}

theorem terminalAt?_congr {cs cs' : List Char} (hnamed : ∀ t ∈ namedTerminals,
      t.width v cs = t.width v cs')
    (hfixed : ∀ l ∈ fixedLexemes, (fixed l).width v cs = (fixed l).width v cs') :
    v.terminalAt? cs = v.terminalAt? cs' := by
  have hmatch {t : Terminal} (h : t.width v cs = t.width v cs') :
      v.matchAt? cs t = v.matchAt? cs' t := by
    unfold matchAt?
    simp only [h]
  have hfirst : namedTerminals.findSome? (v.matchAt? cs) =
      namedTerminals.findSome? (v.matchAt? cs') := by
    rw [← List.head?_filterMap, ← List.head?_filterMap,
      List.filterMap_congr fun t ht => hmatch (hnamed t ht)]
  have hwidest : (fixedLexemes.map Terminal.fixed).filterMap (v.matchAt? cs) =
      (fixedLexemes.map Terminal.fixed).filterMap (v.matchAt? cs') := by
    refine List.filterMap_congr fun t ht => ?_
    obtain ⟨l, hl, rfl⟩ := List.mem_map.mp ht
    exact hmatch (hfixed l hl)
  rw [terminalAt?, terminalAt?, hfirst, hwidest]

theorem terminalAt?_line {c : Char} {cs : List Char} (hc : isLayout c = false) (b : List Char) :
    standard.terminalAt? (c :: cs ++ '\n' :: b) = standard.terminalAt? (c :: cs) := by
  have hblank (ds : List Char) : Terminal.blank.width standard (c :: ds) = 0 :=
    run_of_head (by rintro _ ⟨⟩; exact hc)
  refine terminalAt?_congr (fun t ht => ?_) fun l hl => ?_
  · by_cases h : t = .blank
    · subst h
      rw [List.cons_append, hblank, hblank]
    · refine width_line h (fun l hl => ?_) _ _
      subst hl
      simp [namedTerminals] at ht
  · have hne : Terminal.fixed l ≠ .blank := by simp
    refine width_line hne (fun l' hl' => ?_) _ _
    exact Terminal.fixed.inj hl' ▸ hl

theorem Takes.head_ne_layout {t : Terminal} (h : standard.Takes t text rest) (ht : t ≠ .blank) :
    ∃ c cs, text = c :: cs ∧ Terminal.isLayout c = false := by
  obtain ⟨c, cs, htext⟩ := List.exists_cons_of_ne_nil h.ne_nil
  refine ⟨c, cs, htext, ?_⟩
  cases t with
  | literal k =>
    have hopens := h.spells.opensLiteral
    rw [htext] at hopens
    exact (ne_of_opensLiteral hopens).1
  | blank => exact absurd rfl ht
  | comment =>
    obtain ⟨inside, hcomment, -⟩ := h.of_comment
    rw [htext, List.cons.injEq] at hcomment
    rw [hcomment.1]
    decide
  | fixed l =>
    have hhead := head_fixed h.mem_fixedLexemes []
    rw [List.append_nil, ← h.eq_text, htext] at hhead
    exact (hhead c rfl).1

theorem Takes.line {t : Terminal} (h : standard.Takes t text rest) (ht : t ≠ .blank)
    (b : List Char) : standard.Takes t text (rest ++ '\n' :: b) := by
  obtain ⟨c, cs, rfl, hc⟩ := h.head_ne_layout ht
  obtain ⟨found, hfound, hterminal, hwidth⟩ := h
  refine ⟨found, ?_, hterminal, hwidth⟩
  rw [← List.append_assoc, List.cons_append, terminalAt?_line hc]
  exact hfound

end Vocabulary

/-! ### Cutting both texts -/

/-- A word at another place. -/
def Word.relocate (g : Mark → Mark) (w : Word) : Word where
  readings := w.readings
  span := ⟨g w.span.start, g w.span.stop⟩

namespace Scan

/-- What a text is cut into, at other places. -/
def relocate (g : Mark → Mark) (s : Scan) : Scan := ⟨s.words.map (Word.relocate g), s.failure.map g⟩

theorem ofChars_below (v : Vocabulary) (chars lines : Nat) (m : Mark) (cs : List Char) :
    ofChars v (m.below chars lines) cs = (ofChars v m cs).relocate (.below chars lines) := by
  fun_induction ofChars v m cs with
  | case1 m => rw [ofChars_nil]; rfl
  | case2 m c cs hnone => rw [ofChars_of_none hnone]; rfl
  | case3 m c cs found hfound text rest hreadings ih =>
    have hnone : found.terminal.readings v (String.ofList ((c :: cs).take found.width)) = [] :=
      hreadings
    conv =>
      lhs
      unfold ofChars
    simp only [hfound, hnone]
    rw [← Mark.below_after]
    exact ih
  | case4 m c cs found hfound text rest hreadings ih =>
    obtain ⟨r, rs, hr⟩ := List.exists_cons_of_ne_nil hreadings
    have hsome : found.terminal.readings v (String.ofList ((c :: cs).take found.width)) = r :: rs :=
      hr
    conv =>
      lhs
      unfold ofChars
    simp only [hfound, hsome]
    rw [← Mark.below_after, ih, hr]
    rfl

theorem ofChars_blank {w : List Char} (hw : ∀ c ∈ w, Terminal.isLayout c = true) (m : Mark)
    (cs : List Char) :
    ofChars .standard m (w ++ cs) = ofChars .standard (m.after w) cs := by
  -- white space at the beginning of the text goes on with that in front of it
  have hspace (w : List Char) (hw : ∀ c ∈ w, Terminal.isLayout c = true) (m : Mark)
      (rest : List Char) (hrest : ∀ c ∈ rest.head?, Terminal.isLayout c = false) :
      ofChars .standard m (w ++ rest) = ofChars .standard (m.after w) rest := by
    by_cases hnil : w = []
    · rw [hnil, List.nil_append, Mark.after_nil]
    · rw [ofChars_of_takes (Vocabulary.takes_blank hnil hw hrest)]
      rfl
  have hsplit := List.takeWhile_append_dropWhile (p := Terminal.isLayout) (l := cs)
  have hlayout : ∀ c ∈ cs.takeWhile Terminal.isLayout, Terminal.isLayout c = true :=
    fun c hc => Terminal.mem_takeWhile hc
  have hrest : ∀ c ∈ (cs.dropWhile Terminal.isLayout).head?, Terminal.isLayout c = false := by
    intro c hc
    have := List.head?_dropWhile_not Terminal.isLayout cs
    rw [hc] at this
    simpa using this
  rw [← hsplit, ← List.append_assoc, hspace _ _ m _ hrest, hspace _ hlayout (m.after w) _ hrest,
    Mark.after_append]
  intro c hc
  rcases List.mem_append.mp hc with hc | hc
  · exact hw c hc
  · exact hlayout c hc

/-- A text that is cut to its end, with another text on the line below it, is cut into its own words
and those of the other. -/
theorem ofChars_joint {m : Mark} {cs : List Char} {ts : List Token} (h : Lexes .standard m cs ts)
    (b : List Char) :
    ofChars .standard m (cs ++ '\n' :: b) =
      ⟨ts.map Token.word ++ (ofChars .standard (m.after (cs ++ ['\n'])) b).words,
        (ofChars .standard (m.after (cs ++ ['\n'])) b).failure⟩ := by
  induction h with
  | ending m =>
    have hline : ∀ c ∈ ['\n'], Terminal.isLayout c = true := by simp [Terminal.isLayout]
    exact ofChars_blank hline m b
  | @piece m t text rest ts htakes _ ih =>
    rw [List.append_assoc, List.append_assoc, Mark.after_append]
    by_cases ht : t = .blank
    · subst ht
      rw [ofChars_blank htakes.of_blank.1, ih]
      rfl
    · rw [ofChars_of_takes (htakes.line ht b), ih, List.map_append, List.append_assoc]
      cases t.lexeme? text <;> rfl

end Scan

/-! ### Contexts -/

namespace ParseError

theorem lastLine_below (a cs : List Char) : lastLine (a ++ '\n' :: cs) = lastLine cs := by
  induction cs using List.reverseRecOn with
  | nil => rw [lastLine_concat, if_pos rfl]; rfl
  | append_singleton cs c ih =>
    rw [← List.cons_append, ← List.append_assoc, lastLine_concat, lastLine_concat, ih]

theorem contextAt_below (a cs rest : List Char) :
    contextAt (a ++ '\n' :: (cs ++ rest)).toArray ((cs.length + (a.length + 1) : Nat) : Int) =
      contextAt (cs ++ rest).toArray cs.length := by
  have hlength : cs.length + (a.length + 1) = (a ++ '\n' :: cs).length := by
    rw [List.length_append, List.length_cons]
    omega
  have hsplit : a ++ '\n' :: (cs ++ rest) = (a ++ '\n' :: cs) ++ rest := by simp
  rw [hlength, contextAt_eq hsplit, contextAt_eq rfl, lastLine_below]

end ParseError

end RuleTree
