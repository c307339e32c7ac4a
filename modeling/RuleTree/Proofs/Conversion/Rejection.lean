import RuleTree.Proofs.Conversion.Outcome
import RuleTree.Proofs.Grammar.Viable
import RuleTree.Proofs.Source.Excerpt

/-!
# The first error of a source

A source is refused at the first point at which no sentence can go on. That is a token that no
sentence has there, or else a place where no terminal can stand, or else the end. Tokens are read as
they are cut off, so that nothing behind the first error matters.

* `FirstError start source cause m`: where and why a source is wrong first, in terms of the grammar.
* `exists_firstError`: a source has a first error, or else its tokens are a sentence.
* `FirstError.parseSentence_eq`: a source with a first error is refused for it.
-/

namespace RuleTree

open Grammar Reading

/-- The first error of a source: a token that no sentence goes on with, though one does up to there;
a place where no terminal can stand, if some sentence begins with the tokens before; or the end, if
some sentence begins with all tokens and none ends with them. The place of the end is that of the
last token. -/
inductive FirstError (start : Start) (source : String) : ParseCause → Mark → Prop
  | token {cs rest : List Char} {before : List Token} {tok : Token}
      (hsource : source.toList = cs ++ rest)
      (hcuts : Cuts .standard rest .origin cs (before ++ [tok]))
      (hviable : Viable start before) (hrefused : ¬ Viable start (before ++ [tok])) :
      FirstError start source .token tok.span.start
  | character {cs rest : List Char} {ts : List Token}
      (hsource : source.toList = cs ++ rest) (hcuts : Cuts .standard rest .origin cs ts)
      (hviable : Viable start ts) (hrest : rest ≠ [])
      (hnone : Vocabulary.standard.terminalAt? rest = none) :
      FirstError start source .character (Mark.origin.after cs)
  | ending {ts : List Token} (hlexes : Lexes .standard .origin source.toList ts)
      (hviable : Viable start ts)
      (hincomplete : ¬ ∃ d : Derivation (.rule start.rule), d.tokens = ts) :
      FirstError start source .ending ((ts.getLast?.map (·.span.start)).getD .origin)

/-! ### Reading up to the first error -/

theorem readWords_append_of_error {kind : ParserKind} {start : Start} {states : List State}
    {ws : List Word} {w : Word} (h : readWords kind start states ws = .error w) (ws' : List Word) :
    readWords kind start states (ws ++ ws') = .error w := by
  induction ws generalizing states with
  | nil => cases h
  | cons u ws ih =>
    rw [List.cons_append, readWords]
    rw [readWords] at h
    split at h
    · exact h
    · exact ih h

theorem steps_of_refused {start : Start} {before : List Token} {tok : Token}
    (hviable : Viable start before) (hrefused : ¬ Viable start (before ++ [tok])) :
    State.initial.steps start (before ++ [tok]) = .error tok := by
  obtain ⟨s, hs⟩ := viable_iff_steps.mp hviable
  rw [State.steps_append, hs]
  show s.steps start [tok] = .error tok
  cases hstep : s.step start tok with
  | none => rw [State.steps, hstep]
  | some next =>
    refine absurd (viable_iff_steps.mpr ⟨next, ?_⟩) hrefused
    rw [State.steps_append, hs]
    exact State.steps_cons [] hstep

theorem readWords_of_steps {kind : ParserKind} {start : Start} {ts : List Token} {s : State}
    (h : State.initial.steps start ts = .ok s) :
    readWords kind start [.initial] (ts.map Token.word) = .ok [s] := by
  rw [readWords_word, h]
  rfl

section Sentences

variable {start : Start} {source : String} {cs rest : List Char} {before ts : List Token}
  {tok : Token} {cause : ParseCause} {m : Mark}

theorem parseSentence_of_token (hsource : source.toList = cs ++ rest)
    (hcuts : Cuts .standard rest .origin cs (before ++ [tok])) (hviable : Viable start before)
    (hrefused : ¬ Viable start (before ++ [tok])) (kind : ParserKind) :
    parseSentence kind .standard start source =
      .error (.atMark (charsOf source) start .token tok.span.start) := by
  have hread : readWords kind start [.initial] ((before ++ [tok]).map Token.word) =
      .error tok.word := by
    rw [readWords_word, steps_of_refused hviable hrefused]
    rfl
  simp only [parseSentence, Scan.ofSource, hsource, ofChars_of_cuts hcuts,
    readWords_append_of_error hread]
  rfl

theorem parseSentence_of_character (hsource : source.toList = cs ++ rest)
    (hcuts : Cuts .standard rest .origin cs ts) (hviable : Viable start ts) (hrest : rest ≠ [])
    (hnone : Vocabulary.standard.terminalAt? rest = none) (kind : ParserKind) :
    parseSentence kind .standard start source =
      .error (.atMark (charsOf source) start .character (Mark.origin.after cs)) := by
  obtain ⟨s, hs⟩ := viable_iff_steps.mp hviable
  have hstuck : Scan.ofChars .standard (Mark.origin.after cs) rest =
      ⟨[], some (Mark.origin.after cs)⟩ := by
    cases rest with
    | nil => exact absurd rfl hrest
    | cons c rest => exact Scan.ofChars_of_none hnone
  simp only [parseSentence, Scan.ofSource, hsource, ofChars_of_cuts hcuts, hstuck, List.append_nil,
    readWords_of_steps hs]

theorem parseSentence_of_ending (hlexes : Lexes .standard .origin source.toList ts)
    (hviable : Viable start ts)
    (hincomplete : ¬ ∃ d : Derivation (.rule start.rule), d.tokens = ts) (kind : ParserKind) :
    parseSentence kind .standard start source =
      .error (.atEnd kind (charsOf source) start (ts.map Token.word)) := by
  obtain ⟨s, hs⟩ := viable_iff_steps.mp hviable
  obtain ⟨hfailure, hwords⟩ := words_of_lexes hlexes
  have hfinish : s.finish? start = none := by
    refine Option.eq_none_iff_forall_ne_some.mpr fun sentence hsome => hincomplete ?_
    have hread : ((State.initial.steps start ts).toOption.bind (·.finish? start)) =
        some sentence := by
      rw [hs]
      exact hsome
    obtain ⟨rfl, htokens⟩ := finish?_steps_iff.mp hread
    obtain ⟨d, hd, -⟩ := exists_derivation sentence
    exact ⟨d, hd.trans htokens⟩
  simp only [parseSentence, Scan.ofSource, hfailure, hwords, readWords_of_steps hs,
    List.findSome?_cons, List.findSome?_nil, hfinish]

/-- A source without a first error is a sentence. -/
theorem exists_firstError (start : Start) (source : String) :
    (∃ cause m, FirstError start source cause m) ∨
      ∃ ts, Lexes .standard .origin source.toList ts ∧
        ∃ d : Derivation (.rule start.rule), d.tokens = ts := by
  obtain ⟨cs, rest, ts, hsource, hcuts, hrest⟩ := exists_cuts .standard .origin source.toList
  cases hsteps : State.initial.steps start ts with
  | error tok =>
    left
    obtain ⟨before, behind, next, rfl, hbefore, hrefused⟩ := State.exists_refused hsteps
    have hcuts' : Cuts .standard rest .origin cs ((before ++ [tok]) ++ behind) := by
      rwa [List.append_assoc]
    obtain ⟨front, back, rfl, hfront, -⟩ := hcuts'.exists_split
    refine ⟨.token, tok.span.start, .token (hsource.trans (List.append_assoc ..)) hfront
      (viable_iff_steps.mpr ⟨next, hbefore⟩) fun hviable => ?_⟩
    obtain ⟨s, hs⟩ := viable_iff_steps.mp hviable
    rw [hrefused] at hs
    cases hs
  | ok s =>
    have hviable : Viable start ts := viable_iff_steps.mpr ⟨s, hsteps⟩
    by_cases hnil : rest = []
    · subst hnil
      rw [List.append_nil] at hsource
      have hlexes : Lexes .standard .origin source.toList ts := hsource ▸ cuts_iff_lexes.mp hcuts
      by_cases hcomplete : ∃ d : Derivation (.rule start.rule), d.tokens = ts
      · exact .inr ⟨ts, hlexes, hcomplete⟩
      · exact .inl ⟨.ending, _, .ending hlexes hviable hcomplete⟩
    · exact .inl ⟨.character, _, .character hsource hcuts hviable hnil (hrest hnil)⟩

end Sentences

/-! ### What is reported -/

theorem parse_of_parseSentence_error {settings : Settings} (hsettings : settings.Packaged)
    (files : String → Option Vocabulary) {start : Start} {source : String} {e : ParseError}
    (h : parseSentence settings.parser .standard start source = .error e) :
    parse settings files start.name source = .error (.parse e) := by
  rw [parse_packaged hsettings, parseTree, h]
  rfl

theorem exists_firstError_of_rejected {settings : Settings} (hsettings : settings.Packaged)
    {files : String → Option Vocabulary} {start : Start} {source : String}
    (h : ∀ t, parse settings files start.name source ≠ .ok t) :
    ∃ cause m, FirstError start source cause m := by
  rcases exists_firstError start source with hfirst | ⟨ts, hlexes, d, hd⟩
  · exact hfirst
  · obtain ⟨sentence, -, -, htrees⟩ := exists_sentence d
    have hok := (parse_eq_ok_iff hsettings files start source sentence.tree).mpr
      ⟨ts, hlexes, d, hd, htrees⟩
    exact absurd hok (h _)

theorem atEnd_lalr (source : Array Char) (start : Start) (ts : List Token) :
    ParseError.atEnd .lalr source start (ts.map Token.word) =
      .atMark source start .token ((ts.getLast?.map (·.span.start)).getD .origin) := by
  have hlast : (ts.map Token.word).getLast?.map (·.span.start) =
      ts.getLast?.map (·.span.start) := by
    rw [List.getLast?_map, Option.map_map]
    rfl
  exact congrArg (fun last? => ParseError.atMark source start .token (last?.getD .origin)) hlast

/-- The end is reported at the last token, or at none by the other algorithm. -/
theorem FirstError.parseSentence_eq {start : Start} {source : String} {cause : ParseCause} {m : Mark}
    (h : FirstError start source cause m) (kind : ParserKind) :
    (cause ≠ .ending → parseSentence kind .standard start source =
      .error (.atMark (charsOf source) start cause m)) ∧
    (cause = .ending → kind = .lalr → parseSentence kind .standard start source =
      .error (.atMark (charsOf source) start .token m)) ∧
    (cause = .ending → kind = .earley → parseSentence kind .standard start source =
      .error (.atEnd .earley (charsOf source) start [])) := by
  cases h with
  | token hsource hcuts hviable hrefused =>
    exact ⟨fun _ => parseSentence_of_token hsource hcuts hviable hrefused kind, nofun, nofun⟩
  | character hsource hcuts hviable hrest hnone =>
    exact ⟨fun _ => parseSentence_of_character hsource hcuts hviable hrest hnone kind, nofun, nofun⟩
  | @ending ts hlexes hviable hincomplete =>
    have hsentence := parseSentence_of_ending hlexes hviable hincomplete kind
    refine ⟨fun hne => absurd rfl hne, fun _ hkind => ?_, fun _ hkind => ?_⟩
    · rw [hsentence, hkind, atEnd_lalr]
    · rw [hsentence, hkind]
      rfl

end RuleTree
