import RuleTree.Proofs.Source.Excerpt
import RuleTree.Proofs.Source.Layout
import RuleTree.Proofs.Source.Longest

/-!
# Runs of letters and digits

A run of letters, digits, underscores and points, as long as it goes, that is not inside a quoted
literal or a comment. Lexing may cut it into several numbers, but into nothing else, and then these
stand side by side among the tokens.

* `IsRun`, `InCode`: such runs.
* `Lexes.exists_piece`: what is taken in a place of a text that lexes.
* `IsRun.within_of_piece`: what is taken in a run is a number inside the run.
* `IsRun.exists_token`: if no two literals of a text stand side by side, the run is a number.
-/

namespace RuleTree

open Terminal Vocabulary

/-- Whether a number could be meant with the character: a letter or a digit, an underscore or a
point. -/
def isNumberlike (c : Char) : Bool := c.isAlphanum || c = '_' || c = '.'

/-- `run` consists of numberlike characters and goes on neither to the left nor to the right. -/
structure IsRun (before run behind : List Char) : Prop where
  ne_nil : run ≠ []
  numberlike : ∀ c ∈ run, isNumberlike c = true
  ends_before : ∀ c ∈ before.getLast?, isNumberlike c = false
  ends_behind : ∀ c ∈ behind.head?, isNumberlike c = false

/-- Whether anything can be written inside the terminal: those with quotes, and comments. -/
def Terminal.isEnclosing : Terminal → Bool
  | literal k => k.isQuoted
  | comment => true
  | _ => false

/-- The text is cut into terminals up to the end of `before`, and there `text` is taken for the
terminal. -/
def Piece (t : Terminal) (before text behind : List Char) : Prop :=
  (∃ ts, Cuts .standard (text ++ behind) .origin before ts) ∧ standard.Takes t text behind

/-- `run` stands in no quoted literal and in no comment: each of them ends before it or begins behind
it. -/
def InCode (before run behind : List Char) : Prop :=
  ∀ t head text tail, t.isEnclosing = true → Piece t head text tail →
    head ++ (text ++ tail) = before ++ (run ++ behind) →
    (head ++ text).length ≤ before.length ∨ (before ++ run).length ≤ head.length

/-! ### The characters of terminals -/

theorem Radix.Spells.isNumeric {r : Radix} {text : List Char} (h : r.Spells text) :
    ∀ c ∈ text, isNumeric c = true := by
  obtain ⟨digits, hdrop, -, hdigits⟩ := h
  by_cases hr : r = .decimal
  · subst hr
    cases hdrop
    exact fun c hc => isNumeric_of_isDigit (hdigits c hc)
  · obtain ⟨mark, hmark, rfl, -⟩ := exists_mark hr hdrop
    simp only [List.forall_mem_cons]
    exact ⟨by decide, by simp [RuleTree.isNumeric, hmark],
      fun c hc => isNumeric_of_isDigit (hdigits c hc)⟩

theorem LiteralKind.Spells.isNumeric {k : LiteralKind} {text : List Char}
    (hk : k.isQuoted = false) (h : k.Spells text) : ∀ c ∈ text, isNumeric c = true := by
  rcases number_cases hk with rfl | ⟨r, rfl⟩
  · obtain ⟨r, whole, fraction, rfl, hwhole, -, hfraction⟩ := h
    have hdigits : ∀ c ∈ fraction, RuleTree.isNumeric c = true :=
      fun c hc => isNumeric_of_isDigit (r := .decimal) (hfraction c hc)
    simp only [List.forall_mem_append, List.forall_mem_cons]
    exact ⟨hwhole.isNumeric, by decide, hdigits⟩
  · exact (spells_literalKind.mp h).isNumeric

theorem isNumberlike_of_isNumeric {c : Char} (h : isNumeric c = true) : isNumberlike c = true := by
  rcases isAlphanum_of_isNumeric h with h | h <;> simp [isNumberlike, h]

theorem isNumberlike_of_isLayout {c : Char} (h : isLayout c = true) : isNumberlike c = false := by
  simp only [isLayout, Bool.or_eq_true, decide_eq_true_iff] at h
  rcases h with (((rfl | rfl) | rfl) | rfl) | rfl <;> decide

theorem isNumberlike_standard : ∀ l ∈ fixedLexemes,
    (standard.text l).toList.all (fun c => !isNumberlike c) = true := by
  decide

theorem Vocabulary.Takes.number_or_enclosing {t : Terminal} {text rest : List Char} {c : Char}
    (h : standard.Takes t text rest) (hc : c ∈ text) (hnumberlike : isNumberlike c = true) :
    t.isEnclosing = true ∨ ∃ k, t = .literal k ∧ k.isQuoted = false := by
  cases t with
  | literal k =>
    by_cases hk : k.isQuoted = true
    · exact .inl hk
    · exact .inr ⟨k, rfl, by simpa using hk⟩
  | comment => exact .inl rfl
  | blank =>
    rw [isNumberlike_of_isLayout (h.of_blank.1 c hc)] at hnumberlike
    cases hnumberlike
  | fixed l =>
    rw [h.eq_text] at hc
    have hnot := List.all_eq_true.mp (isNumberlike_standard l h.mem_fixedLexemes) c hc
    simp [hnumberlike] at hnot

/-! ### Pieces of a text -/

variable {v : Vocabulary} {m : Mark} {before run behind head text tail cs rest : List Char}
  {ts us : List Token}

theorem Cuts.append (h : Cuts v (cs ++ rest) m before ts) (h' : Cuts v rest (m.after before) cs us) :
    Cuts v rest m (before ++ cs) (ts ++ us) := by
  induction h with
  | nil m => exact h'
  | @piece m t text before ts htakes _ ih =>
    rw [List.append_assoc, List.append_assoc]
    rw [Mark.after_append] at h'
    exact .piece (by rwa [List.append_assoc]) (ih h')

theorem Piece.next {t u : Terminal} (h : Piece t before text (cs ++ rest))
    (htakes : standard.Takes u cs rest) : Piece u (before ++ text) cs rest := by
  obtain ⟨⟨ts, hcuts⟩, htext⟩ := h
  have hpiece : Cuts .standard (cs ++ rest) (Mark.origin.after before) (text ++ []) _ :=
    .piece htext (.nil _)
  rw [List.append_nil] at hpiece
  exact ⟨⟨_, hcuts.append hpiece⟩, htakes⟩

theorem Lexes.exists_piece (h : Lexes v m cs ts) {n : Nat} (hn : n < cs.length) :
    ∃ t head text tail us ws, cs = head ++ (text ++ tail) ∧ head.length ≤ n ∧
      n < (head ++ text).length ∧ Cuts v (text ++ tail) m head us ∧ v.Takes t text tail ∧
      Lexes v (m.after (head ++ text)) tail ws ∧
      ts = us ++ (((t.lexeme? text).map
        (⟨·, m.after head, m.after (head ++ text)⟩)).toList ++ ws) := by
  induction h generalizing n with
  | ending m => simp at hn
  | @piece m t text rest ts htakes hrest ih =>
    by_cases hhere : n < text.length
    · exact ⟨t, [], text, rest, [], ts, rfl, by simp, by simpa using hhere, .nil m, htakes, hrest,
        rfl⟩
    · rw [List.length_append] at hn
      have hn' : n - text.length < rest.length := by omega
      obtain ⟨u, head, piece, tail, us, ws, rfl, hle, hlt, hcuts, htakes', hlexes, rfl⟩ := ih hn'
      rw [List.length_append] at hlt
      refine ⟨u, text ++ head, piece, tail, _, ws, by simp, ?_, ?_, .piece htakes hcuts, htakes',
        ?_, ?_⟩
      · rw [List.length_append]
        omega
      · simp only [List.length_append]
        omega
      · rwa [List.append_assoc, Mark.after_append]
      · simp only [List.append_assoc, Mark.after_append]

/-! ### Runs -/

theorem exists_mem_getElem? {n : Nat} (hlo : before.length ≤ n) (hhi : n < (before ++ run).length) :
    ∃ c ∈ run, (before ++ (run ++ behind))[n]? = some c := by
  rw [List.length_append] at hhi
  have hn : n - before.length < run.length := by omega
  refine ⟨run[n - before.length], List.getElem_mem hn, ?_⟩
  rw [List.getElem?_append_right hlo, List.getElem?_append_left hn, List.getElem?_eq_getElem hn]

namespace IsRun

variable {n : Nat} {t : Terminal}

theorem not_numberlike {c : Char} (h : IsRun before run behind)
    (hat : (before ++ (run ++ behind))[n]? = some c)
    (hn : n + 1 = before.length ∨ n = (before ++ run).length) : isNumberlike c = false := by
  rcases hn with hn | rfl
  · refine h.ends_before c ?_
    rw [List.getElem?_append_left (by omega)] at hat
    rwa [Option.mem_def, List.getLast?_eq_getElem?, ← hn, Nat.add_sub_cancel]
  · refine h.ends_behind c ?_
    rw [← List.append_assoc, List.getElem?_append_right (Nat.le_refl _), Nat.sub_self] at hat
    rwa [Option.mem_def, List.head?_eq_getElem?]

/-- What is taken in a run is a number, and it is part of the run: it does not come from before the
run and does not go beyond it. -/
theorem within_of_piece (h : IsRun before run behind) (hcode : InCode before run behind)
    (hpiece : Piece t head text tail) (hsplit : head ++ (text ++ tail) = before ++ (run ++ behind))
    (hlo : before.length ≤ n) (hhi : n < (before ++ run).length) (hlo' : head.length ≤ n)
    (hhi' : n < (head ++ text).length) :
    ∃ k, t = .literal k ∧ k.isQuoted = false ∧ before.length ≤ head.length ∧
      (head ++ text).length ≤ (before ++ run).length := by
  have hmiddle {i : Nat} (hi : head.length ≤ i) (hi' : i < (head ++ text).length) :
      ∃ d ∈ text, (before ++ (run ++ behind))[i]? = some d :=
    hsplit ▸ exists_mem_getElem? hi hi'
  obtain ⟨c, hc, hat⟩ : ∃ c ∈ run, (before ++ (run ++ behind))[n]? = some c :=
    exists_mem_getElem? hlo hhi
  obtain ⟨d, hd, hat'⟩ := hmiddle hlo' hhi'
  obtain rfl : c = d := Option.some.inj (hat.symm.trans hat')
  rcases hpiece.2.number_or_enclosing hd (h.numberlike c hc) with henclosing | ⟨k, rfl, hk⟩
  · have houtside := hcode t head text tail henclosing hpiece hsplit
    omega
  · have hnumberlike : ∀ d ∈ text, isNumberlike d = true :=
      fun d hd => isNumberlike_of_isNumeric (hpiece.2.spells.isNumeric hk d hd)
    refine ⟨k, rfl, hk, ?_, ?_⟩
    · by_contra hlt
      obtain ⟨d, hd, hat⟩ := hmiddle (i := before.length - 1) (by omega) (by omega)
      have hnot := h.not_numberlike hat (.inl (by omega))
      rw [hnumberlike d hd] at hnot
      cases hnot
    · by_contra hlt
      obtain ⟨d, hd, hat⟩ := hmiddle (i := (before ++ run).length) (by omega) (by omega)
      have hnot := h.not_numberlike hat (.inr rfl)
      rw [hnumberlike d hd] at hnot
      cases hnot

theorem exists_first (h : IsRun before run behind) (hcode : InCode before run behind)
    (hlexes : Lexes .standard .origin (before ++ (run ++ behind)) ts) :
    ∃ k text rest us ws, k.isQuoted = false ∧ run = text ++ rest ∧
      Piece (.literal k) before text (rest ++ behind) ∧
      Lexes .standard (Mark.origin.after (before ++ text)) (rest ++ behind) ws ∧
      ts = us ++ ⟨.literal k (String.ofList text), Mark.origin.after before,
        Mark.origin.after (before ++ text)⟩ :: ws := by
  have hpos := List.length_pos_iff.mpr h.ne_nil
  have hstart : before.length < (before ++ (run ++ behind)).length := by
    simp only [List.length_append]
    omega
  obtain ⟨t, head, text, tail, us, ws, hsplit, hlo, hhi, hcuts, htakes, htail, hts⟩ :=
    hlexes.exists_piece hstart
  have hfirst : before.length < (before ++ run).length := by
    rw [List.length_append]
    omega
  obtain ⟨k, rfl, hk, hle, hwithin⟩ := h.within_of_piece hcode ⟨⟨us, hcuts⟩, htakes⟩ hsplit.symm
    (Nat.le_refl _) hfirst hlo hhi
  obtain ⟨rfl, hrest⟩ := List.append_inj hsplit (by omega)
  simp only [List.length_append] at hwithin
  obtain ⟨rest, rfl⟩ : text <+: run :=
    List.prefix_of_prefix_length_le (hrest ▸ List.prefix_append text tail)
      (List.prefix_append run behind) (by omega)
  rw [List.append_assoc] at hrest
  obtain rfl := List.append_cancel_left hrest
  exact ⟨k, text, rest, us, ws, hk, rfl, ⟨⟨us, hcuts⟩, htakes⟩, htail, hts⟩

/-- **A run is one number.** If it went on behind the number that it begins with, another number would
be taken there, and two literals would stand side by side. -/
theorem exists_token (h : IsRun before run behind) (hcode : InCode before run behind)
    (hlexes : Lexes .standard .origin (before ++ (run ++ behind)) ts)
    (hloose : Loose (ts.map (·.lexeme))) :
    ∃ k, k.isQuoted = false ∧ k.Spells run ∧
      ⟨.literal k (String.ofList run), Mark.origin.after before, Mark.origin.after (before ++ run)⟩
        ∈ ts := by
  obtain ⟨k, text, rest, us, ws, hk, rfl, hpiece, htail, rfl⟩ := h.exists_first hcode hlexes
  by_cases hrest : rest = []
  · subst hrest
    rw [List.append_nil]
    exact ⟨k, hk, hpiece.2.spells, by simp⟩
  exfalso
  have hpos := List.length_pos_iff.mpr hrest
  generalize hall : rest ++ behind = cs at hpiece htail
  cases htail with
  | ending => exact hrest (List.append_eq_nil_iff.mp hall).1
  | @piece _ u text' cs ws htakes _ =>
    have hpos' := List.length_pos_iff.mpr htakes.ne_nil
    have hsplit : (before ++ text) ++ (text' ++ cs) = before ++ ((text ++ rest) ++ behind) := by
      simp only [← hall, List.append_assoc]
    obtain ⟨k', rfl, -⟩ := h.within_of_piece hcode (hpiece.next htakes) hsplit
      (n := (before ++ text).length) (by simp) (by simp only [List.length_append]; omega)
      (Nat.le_refl _) (by simp only [List.length_append]; omega)
    refine (hloose (.literal k (String.ofList text)) (.literal k' (String.ofList text')) ?_).1
      ⟨rfl, rfl⟩
    exact ⟨us.map (·.lexeme), ws.map (·.lexeme), by simp [lexeme?]⟩

end IsRun

end RuleTree
