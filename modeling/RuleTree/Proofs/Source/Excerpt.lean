import RuleTree.Proofs.Source.Lexing
import RuleTree.Proofs.Source.Offset

/-!
# Lexing part of a text

`Cuts v rest m cs ts`: where `rest` follows it, the text `cs`, which begins at the place `m`, is cut
into terminals with the tokens `ts`. What follows is present, because it takes part in deciding which
terminal is taken.

* `cuts_iff_lexes`: where nothing follows, this is lexing.
* `exists_cuts`: every text is cut as far as terminals can stand.
* `Cuts.exists_split`, `Cuts.exists_skip`: a text that is cut can be parted behind a token, and behind
  the layout before one.
* `Cuts.exists_excerpt`: tokens that stand side by side are those of the stretch of the text from the
  first to the last of them.
-/

namespace RuleTree

/-- The text is cut to its end into terminals, where `rest` follows. -/
inductive Cuts (v : Vocabulary) (rest : List Char) : Mark → List Char → List Token → Prop
  | nil (m : Mark) : Cuts v rest m [] []
  | piece {m : Mark} {t : Terminal} {text cs : List Char} {ts : List Token}
      (htakes : v.Takes t text (cs ++ rest)) (h : Cuts v rest (m.after text) cs ts) :
      Cuts v rest m (text ++ cs) (((t.lexeme? text).map (⟨·, m, m.after text⟩)).toList ++ ts)

variable {v : Vocabulary} {m : Mark} {cs rest : List Char} {ts us : List Token}

/-- The text is taken for a terminal that is read as the lexeme, where `rest` follows. -/
def Vocabulary.Reads (v : Vocabulary) (l : Lexeme) (text rest : List Char) : Prop :=
  ∃ t, v.Takes t text rest ∧ Terminal.lexeme? text t = some l

theorem Vocabulary.Reads.eq_text {l : Lexeme} {text : List Char} (h : v.Reads l text rest) :
    text = (v.text l).toList := by
  obtain ⟨t, htakes, hl⟩ := h
  cases t with
  | literal k =>
    cases hl
    exact String.toList_ofList.symm
  | fixed l' =>
    cases hl
    exact htakes.eq_text
  | blank => cases hl
  | comment => cases hl

theorem cuts_iff_lexes : Cuts v [] m cs ts ↔ Lexes v m cs ts := by
  constructor
  · intro h
    induction h with
    | nil m => exact .ending m
    | piece htakes _ ih =>
      rw [List.append_nil] at htakes
      exact .piece htakes ih
  · intro h
    induction h with
    | ending m => exact .nil m
    | piece htakes _ ih => exact .piece (by rwa [List.append_nil]) ih

theorem ofChars_of_cuts (h : Cuts .standard rest m cs ts) :
    Scan.ofChars .standard m (cs ++ rest) =
      ⟨ts.map Token.word ++ (Scan.ofChars .standard (m.after cs) rest).words,
        (Scan.ofChars .standard (m.after cs) rest).failure⟩ := by
  induction h with
  | nil m => rfl
  | @piece m t text cs ts htakes _ ih =>
    rw [List.append_assoc, Scan.ofChars_of_takes htakes, ih, Mark.after_append, List.map_append,
      List.append_assoc]
    cases t.lexeme? text <;> rfl

/-- Every text is cut up to its end, or up to a place where no terminal can stand. -/
theorem exists_cuts (v : Vocabulary) (m : Mark) (text : List Char) :
    ∃ cs rest ts, text = cs ++ rest ∧ Cuts v rest m cs ts ∧
      (rest ≠ [] → v.terminalAt? rest = none) := by
  induction hn : text.length using Nat.strongRecOn generalizing m text with
  | ind n ih =>
    cases hfound : v.terminalAt? text with
    | none => exact ⟨[], text, [], rfl, .nil m, fun _ => hfound⟩
    | some found =>
      obtain ⟨piece, behind, rfl, htakes⟩ := Vocabulary.exists_takes hfound
      have hshort : behind.length < n := by
        have := List.length_pos_iff.mpr htakes.ne_nil
        rw [← hn, List.length_append]
        omega
      obtain ⟨cs, rest, ts, rfl, hcuts, hrest⟩ := ih _ hshort (m.after piece) behind rfl
      exact ⟨piece ++ cs, rest, _, (List.append_assoc ..).symm, .piece htakes hcuts, hrest⟩

namespace Cuts

theorem pairwise (h : Cuts v rest m cs ts) :
    (∀ tok ∈ ts, m.offset ≤ tok.span.start.offset ∧
      tok.span.start.offset < tok.span.stop.offset) ∧
      ts.Pairwise fun tok tok' => tok.span.stop.offset ≤ tok'.span.start.offset := by
  induction h with
  | nil m => simp
  | @piece m t text cs ts htakes _ ih =>
    have hpos := List.length_pos_iff.mpr htakes.ne_nil
    have hoffset := m.offset_after text
    obtain ⟨hbounds, hordered⟩ := ih
    cases hlexeme : t.lexeme? text with
    | none =>
      refine ⟨fun tok htok => ?_, hordered⟩
      have := hbounds tok htok
      omega
    | some l =>
      refine ⟨fun tok htok => ?_, List.pairwise_cons.mpr ⟨fun tok htok => ?_, hordered⟩⟩
      · rcases List.mem_cons.mp htok with rfl | htok
        · exact ⟨Nat.le_refl _, by simp only; omega⟩
        · have := hbounds tok htok
          omega
      · exact (hbounds tok htok).1

theorem exists_split (h : Cuts v rest m cs (ts ++ us)) :
    ∃ before behind, cs = before ++ behind ∧ Cuts v (behind ++ rest) m before ts ∧
      Cuts v rest (m.after before) behind us ∧
      (ts.getLast?.map (·.span.stop)).getD m = m.after before ∧
      ∀ tok ∈ ts.getLast?, ∃ head text, before = head ++ text ∧
        v.Reads tok.lexeme text (behind ++ rest) := by
  generalize hall : ts ++ us = all at h
  induction h generalizing ts with
  | nil m =>
    obtain ⟨rfl, rfl⟩ := List.append_eq_nil_iff.mp hall
    exact ⟨[], [], rfl, .nil m, .nil m, rfl, by simp⟩
  | @piece m t text cs all htakes h ih =>
    cases ts with
    | nil =>
      subst hall
      exact ⟨[], text ++ cs, rfl, .nil m, .piece htakes h, rfl, by simp⟩
    | cons tok ts =>
      cases hlexeme : t.lexeme? text with
      | none =>
        rw [hlexeme] at hall
        obtain ⟨before, behind, rfl, hbefore, hbehind, hstop, hlast⟩ := ih hall
        have hpiece := Cuts.piece (by rwa [List.append_assoc] at htakes) hbefore
        rw [hlexeme] at hpiece
        rw [← Mark.after_append] at hbehind hstop
        refine ⟨text ++ before, behind, (List.append_assoc ..).symm, hpiece, hbehind, ?_, ?_⟩
        · rw [List.getLast?_cons] at hstop ⊢
          exact hstop
        · intro tok htok
          obtain ⟨head, text', rfl, hreads⟩ := hlast tok htok
          exact ⟨text ++ head, text', (List.append_assoc ..).symm, hreads⟩
      | some l =>
        rw [hlexeme] at hall
        obtain ⟨rfl, htail⟩ := List.cons.inj hall
        obtain ⟨before, behind, rfl, hbefore, hbehind, hstop, hlast⟩ := ih htail
        have hpiece := Cuts.piece (by rwa [List.append_assoc] at htakes) hbefore
        rw [hlexeme] at hpiece
        rw [← Mark.after_append] at hbehind
        refine ⟨text ++ before, behind, (List.append_assoc ..).symm, hpiece, hbehind, ?_, ?_⟩
        · rw [Mark.after_append, ← hstop, List.getLast?_cons]
          cases ts.getLast? <;> rfl
        · rw [List.getLast?_cons]
          cases hts : ts.getLast? with
          | none =>
            -- the token that was cut off is the last one
            rw [hts] at hstop
            have hoffset := congrArg Mark.offset hstop
            rw [Option.map_none, Option.getD_none, Mark.offset_after _ before] at hoffset
            have hnil : before = [] := List.eq_nil_of_length_eq_zero (by omega)
            rintro _ ⟨⟩
            refine ⟨[], text, by rw [hnil, List.append_nil, List.nil_append], t, ?_, hlexeme⟩
            rwa [hnil, List.nil_append] at htakes
          | some last =>
            rintro _ ⟨⟩
            obtain ⟨head, text', rfl, hreads⟩ := hlast last hts
            exact ⟨text ++ head, text', (List.append_assoc ..).symm, hreads⟩

theorem exists_skip {tok : Token} (h : Cuts v rest m cs (tok :: ts)) :
    ∃ gap behind, cs = gap ++ behind ∧ Cuts v (behind ++ rest) m gap [] ∧
      Cuts v rest (m.after gap) behind (tok :: ts) ∧ tok.span.start = m.after gap ∧
      ∃ text tail, behind = text ++ tail ∧ v.Reads tok.lexeme text (tail ++ rest) := by
  generalize hall : tok :: ts = all at h
  induction h with
  | nil m => cases hall
  | @piece m t text cs all htakes h ih =>
    cases hlexeme : t.lexeme? text with
    | none =>
      rw [hlexeme] at hall
      obtain ⟨gap, behind, rfl, hgap, hbehind, hstart, hfirst⟩ := ih hall
      have hpiece := Cuts.piece (by rwa [List.append_assoc] at htakes) hgap
      rw [hlexeme] at hpiece
      rw [← Mark.after_append] at hbehind hstart
      exact ⟨text ++ gap, behind, (List.append_assoc ..).symm, hpiece, hbehind, hstart, hfirst⟩
    | some l =>
      have hpiece := Cuts.piece htakes h
      rw [hlexeme] at hall hpiece
      refine ⟨[], text ++ cs, rfl, .nil m, hpiece, ?_, ?_⟩
      · rw [(List.cons.inj hall).1]
        rfl
      · rw [(List.cons.inj hall).1]
        exact ⟨text, cs, rfl, t, htakes, hlexeme⟩

/-- Tokens that stand side by side are what the stretch from the first to the last of them is cut
into. -/
theorem exists_excerpt {pre post : List Token} {first : Token}
    (h : Cuts v rest m cs (pre ++ (first :: us ++ post))) :
    ∃ before text behind, cs = before ++ (text ++ behind) ∧
      Cuts v (behind ++ rest) (m.after before) text (first :: us) ∧
      first.span.start = m.after before ∧
      (us.getLast?.getD first).span.stop = (m.after before).after text ∧
      (∃ head tail, text = head ++ tail ∧ v.Reads first.lexeme head (tail ++ (behind ++ rest))) ∧
      ∃ head tail, text = head ++ tail ∧
        v.Reads (us.getLast?.getD first).lexeme tail (behind ++ rest) := by
  obtain ⟨front, cs, rfl, -, hcs, -⟩ := h.exists_split
  rw [List.cons_append] at hcs
  obtain ⟨gap, cs, rfl, -, hcs, hstart, -⟩ := hcs.exists_skip
  rw [← Mark.after_append] at hcs hstart
  rw [← List.cons_append] at hcs
  obtain ⟨text, behind, rfl, htext, -, hstop, hlast⟩ := hcs.exists_split
  rw [List.getLast?_cons] at hstop hlast
  refine ⟨front ++ gap, text, behind, (List.append_assoc ..).symm, htext, hstart, hstop, ?_,
    hlast _ rfl⟩
  -- no layout is left before the first token
  obtain ⟨gap', text, rfl, -, -, hstart', hfirst⟩ := htext.exists_skip
  rw [hstart] at hstart'
  have hoffset := congrArg Mark.offset hstart'
  rw [Mark.offset_after _ gap'] at hoffset
  have hnil : gap' = [] := List.eq_nil_of_length_eq_zero (by omega)
  rwa [hnil]

end Cuts

end RuleTree
