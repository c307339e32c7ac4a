import RuleTree.Convert
import RuleTree.Proofs.Grammar.Phrase
import RuleTree.Proofs.Source.Lexing

/-!
# Parsing finds the derivation

A source is accepted when it lexes into tokens that the grammar derives from the start, and its tree
is the shape of their one derivation. The two algorithms do not differ in this.

* `parseSentence_eq_ok_iff`: the sentence of a source is the one with the tokens of the source.
* `derivation_unique`: tokens have at most one derivation from a start.
* `parse_accepts_derivable`: what is accepted, and with which tree.
-/

namespace RuleTree

open Grammar Phrase Reading

/-- The settings ask for the packaged grammar. -/
def Settings.Packaged (s : Settings) : Prop := s.grammarPath = none ∨ s.grammarPath = some ""

/-- The rule that a start stands for. -/
def Reading.Start.rule : Start → Rule
  | program => .main
  | expr => .expr

/-! ### Sentences of a source -/

theorem ofName?_start (start : Start) : Start.ofName? start.name = some start := by
  cases start <;> decide

theorem parse_packaged {settings : Settings} (h : settings.Packaged)
    (files : String → Option Vocabulary) (start : Start) (source : String) :
    parse settings files start.name source
      = (parseTree settings.parser .standard start source).mapError .parse := by
  have hgrammar : locateGrammar Vocabulary.standard files settings.grammarPath = .ok .standard := by
    rcases h with h | h <;> rw [h] <;> rfl
  rw [parse, ofName?_start, hgrammar]

/-- What a sentence is a sentence of. -/
def Phrase.Sentence.start : Sentence → Start
  | .program _ => .program
  | .expr _ => .expr

theorem start_of_finish? {start : Start} {s : State} {sentence : Sentence}
    (h : s.finish? start = some sentence) : sentence.start = start := by
  unfold State.finish? at h
  split at h
  · cases h
    rfl
  · cases h
    rfl
  · cases h

theorem finish?_steps_iff {start : Start} {ts : List Token} {sentence : Sentence} :
    ((State.initial.steps start ts).toOption.bind (·.finish? start)) = some sentence ↔
      sentence.start = start ∧ sentence.tokens = ts := by
  constructor
  · intro h
    cases hsteps : State.initial.steps start ts with
    | error t =>
      rw [hsteps] at h
      cases h
    | ok s =>
      rw [hsteps] at h
      refine ⟨start_of_finish? h, ?_⟩
      rw [State.tokens_of_finish? h, State.tokens_of_steps hsteps]
      rfl
  · rintro ⟨rfl, rfl⟩
    cases sentence with
    | program stmts => exact State.finish?_of_program stmts
    | expr e => exact State.finish?_of_expr e

theorem sentence_unique {s s' : Sentence} (hstart : s.start = s'.start)
    (htokens : s.tokens = s'.tokens) : s = s' := by
  have h := finish?_steps_iff.mpr (⟨rfl, rfl⟩ : s.start = s.start ∧ s.tokens = s.tokens)
  rw [finish?_steps_iff.mpr ⟨hstart.symm, htokens.symm⟩] at h
  exact (Option.some.inj h).symm

theorem parseSentence_of_lexes {v : Vocabulary} (hv : v.Clear) {source : String} {ts : List Token}
    (h : Lexes v .origin source.toList ts) (kind : ParserKind) (start : Start) :
    (parseSentence kind v start source).toOption
      = (State.initial.steps start ts).toOption.bind (·.finish? start) := by
  obtain ⟨hfailure, hwords⟩ := words_of_lexes_of_clear hv h
  unfold parseSentence Scan.ofSource
  dsimp only
  rw [hwords, readWords_word, hfailure]
  cases State.initial.steps start ts with
  | error t => rfl
  | ok s =>
    have hmap : Except.map ([·]) (Except.mapError Token.word (.ok s)) = .ok [s] := rfl
    simp only [hmap, List.findSome?_cons, List.findSome?_nil]
    cases hfinish : s.finish? start <;> simp [Except.toOption, hfinish]

theorem parseSentence_eq_ok_of_lexes {v : Vocabulary} (hv : v.Clear) {source : String}
    {sentence : Sentence} (h : Lexes v .origin source.toList sentence.tokens) (kind : ParserKind) :
    parseSentence kind v sentence.start source = .ok sentence := by
  have hread := parseSentence_of_lexes hv h kind sentence.start
  rw [finish?_steps_iff.mpr ⟨rfl, rfl⟩] at hread
  cases hparse : parseSentence kind v sentence.start source with
  | error e =>
    rw [hparse] at hread
    cases hread
  | ok sentence' =>
    rw [hparse] at hread
    exact congrArg Except.ok (Option.some.inj hread)

theorem failure_of_parseSentence {kind : ParserKind} {start : Start} {source : String}
    {sentence : Sentence} (h : parseSentence kind .standard start source = .ok sentence) :
    (Scan.ofChars .standard .origin source.toList).failure = none := by
  unfold parseSentence Scan.ofSource at h
  dsimp only at h
  split at h
  · cases h
  · split at h
    · cases h
    · assumption

theorem parseSentence_eq_ok_iff {kind : ParserKind} {start : Start} {source : String}
    {sentence : Sentence} :
    parseSentence kind .standard start source = .ok sentence ↔
      sentence.start = start ∧ Lexes .standard .origin source.toList sentence.tokens := by
  constructor
  · intro h
    obtain ⟨ts, hts⟩ := exists_lexes (failure_of_parseSentence h)
    have hread := parseSentence_of_lexes Vocabulary.clear_standard hts kind start
    rw [h] at hread
    obtain ⟨hstart, rfl⟩ := finish?_steps_iff.mp hread.symm
    exact ⟨hstart, hts⟩
  · rintro ⟨rfl, hlexes⟩
    exact parseSentence_eq_ok_of_lexes Vocabulary.clear_standard hlexes kind

/-! ### Derivations from a start -/

theorem exists_sentence {start : Start} (d : Derivation (.rule start.rule)) :
    ∃ s : Sentence, s.start = start ∧ s.tokens = d.tokens ∧ d.trees = [s.tree] := by
  cases start with
  | program =>
    obtain ⟨stmts, rfl⟩ := exists_program d
    exact ⟨.program stmts, rfl, (tokens_programDerivation stmts).symm,
      trees_programDerivation stmts⟩
  | expr =>
    obtain ⟨e, rfl⟩ := exists_expr d
    exact ⟨.expr e, rfl, e.tokens_derivation.symm, e.trees_derivation⟩

theorem exists_derivation (s : Sentence) :
    ∃ d : Derivation (.rule s.start.rule), d.tokens = s.tokens ∧ d.trees = [s.tree] := by
  cases s with
  | program stmts =>
    exact ⟨programDerivation stmts, tokens_programDerivation stmts, trees_programDerivation stmts⟩
  | expr e => exact ⟨e.derivation, e.tokens_derivation, e.trees_derivation⟩

theorem program_unique {d d' : Derivation (.rule .main)} (h : d.tokens = d'.tokens) : d = d' := by
  obtain ⟨stmts, rfl⟩ := exists_program d
  obtain ⟨stmts', rfl⟩ := exists_program d'
  rw [tokens_programDerivation, tokens_programDerivation] at h
  have hsentence : Sentence.program stmts = .program stmts' := sentence_unique rfl h
  cases hsentence
  rfl

theorem expr_unique {d d' : Derivation (.rule .expr)} (h : d.tokens = d'.tokens) : d = d' := by
  obtain ⟨e, rfl⟩ := exists_expr d
  obtain ⟨e', rfl⟩ := exists_expr d'
  rw [e.tokens_derivation, e'.tokens_derivation] at h
  have hsentence : Sentence.expr e = .expr e' := sentence_unique rfl h
  cases hsentence
  rfl

/-- Tokens have at most one derivation from a start. -/
theorem derivation_unique {start : Start} {d d' : Derivation (.rule start.rule)}
    (h : d.tokens = d'.tokens) : d = d' := by
  cases start with
  | program => exact program_unique h
  | expr => exact expr_unique h

theorem parse_eq_ok_iff {settings : Settings} (hsettings : settings.Packaged)
    (files : String → Option Vocabulary) (start : Start) (source : String) (t : Tree) :
    parse settings files start.name source = .ok t ↔
      ∃ ts, Lexes .standard .origin source.toList ts ∧
        ∃ d : Derivation (.rule start.rule), d.tokens = ts ∧ d.trees = [t] := by
  rw [parse_packaged hsettings, parseTree]
  constructor
  · intro h
    cases hparse : parseSentence settings.parser .standard start source with
    | error e =>
      rw [hparse] at h
      cases h
    | ok sentence =>
      rw [hparse] at h
      cases h
      obtain ⟨rfl, hlexes⟩ := parseSentence_eq_ok_iff.mp hparse
      exact ⟨_, hlexes, exists_derivation sentence⟩
  · rintro ⟨ts, hlexes, d, rfl, htrees⟩
    obtain ⟨sentence, hstart, htokens, htree⟩ := exists_sentence d
    have hparse : parseSentence settings.parser .standard start source = .ok sentence :=
      parseSentence_eq_ok_iff.mpr ⟨hstart, htokens ▸ hlexes⟩
    rw [hparse]
    rw [htree] at htrees
    cases htrees
    rfl

/-- **A source is accepted when it lexes into tokens that the grammar derives.** Derivable tokens
have one derivation, the tree of the source is the shape of it, and the algorithm does not matter. -/
theorem parse_accepts_derivable {settings : Settings} (hsettings : settings.Packaged)
    (files : String → Option Vocabulary) (start : Start) (source : String) :
    ((∃ t, parse settings files start.name source = .ok t) ↔
        ∃ ts, Lexes .standard .origin source.toList ts ∧
          ∃ d : Derivation (.rule start.rule), d.tokens = ts) ∧
      (∀ ts, (∃ d : Derivation (.rule start.rule), d.tokens = ts) →
        ∃ d : Derivation (.rule start.rule), d.tokens = ts ∧
          ∀ d' : Derivation (.rule start.rule), d'.tokens = ts → d' = d) ∧
      (∀ t, parse settings files start.name source = .ok t ↔
        ∃ ts, Lexes .standard .origin source.toList ts ∧
          ∃ d : Derivation (.rule start.rule), d.tokens = ts ∧ d.trees = [t]) ∧
      ∀ kind t, parse { settings with parser := kind } files start.name source = .ok t ↔
        parse settings files start.name source = .ok t := by
  have htree := parse_eq_ok_iff hsettings files start source
  refine ⟨⟨?_, ?_⟩, ?_, htree, ?_⟩
  · rintro ⟨t, ht⟩
    obtain ⟨ts, hlexes, d, hd, -⟩ := (htree t).mp ht
    exact ⟨ts, hlexes, d, hd⟩
  · rintro ⟨ts, hlexes, d, hd⟩
    obtain ⟨sentence, -, -, htrees⟩ := exists_sentence d
    exact ⟨sentence.tree, (htree _).mpr ⟨ts, hlexes, d, hd, htrees⟩⟩
  · rintro ts ⟨d, hd⟩
    exact ⟨d, hd, fun d' hd' => derivation_unique (hd'.trans hd.symm)⟩
  · intro kind t
    have hkind : ({ settings with parser := kind } : Settings).Packaged := hsettings
    rw [htree t, parse_eq_ok_iff hkind]

/-- An array with a group in it and a comma behind its last item. -/
theorem parse_accepts_derivable_array :
    ({} : Settings).Packaged ∧
      (∃ t, parse {} (fun _ => none) "expr" "[0x1F, (2 ** 'c'),]" = .ok t) ∧
      ∃ ts, Lexes .standard .origin "[0x1F, (2 ** 'c'),]".toList ts ∧
        ∃ d : Derivation (.rule .expr), d.tokens = ts ∧
          ∀ d' : Derivation (.rule .expr), d'.tokens = ts → d' = d := by
  have hsettings : ({} : Settings).Packaged := Or.inl rfl
  have hmain := parse_accepts_derivable hsettings (fun _ => none) .expr "[0x1F, (2 ** 'c'),]"
  have hok : ∃ t, parse {} (fun _ => none) "expr" "[0x1F, (2 ** 'c'),]" = .ok t := by
    have : (parse {} (fun _ => none) "expr" "[0x1F, (2 ** 'c'),]").toOption.isSome = true := by
      decide +kernel
    obtain ⟨t, ht⟩ := Option.isSome_iff_exists.mp this
    cases hparse : parse {} (fun _ => none) "expr" "[0x1F, (2 ** 'c'),]" with
    | error e =>
      rw [hparse] at ht
      cases ht
    | ok t => exact ⟨t, rfl⟩
  obtain ⟨ts, hlexes, hd⟩ := hmain.1.mp hok
  exact ⟨hsettings, hok, ts, hlexes, hmain.2.1 ts hd⟩

end RuleTree
