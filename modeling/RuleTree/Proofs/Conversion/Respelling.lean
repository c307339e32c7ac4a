import RuleTree.Proofs.Conversion.Layout
import RuleTree.Proofs.Source.Respelling

/-!
# Programs with other symbols

Under a grammar that gives the operators new symbols, a source that is written with these symbols is
what it is under the packaged grammar with the packaged ones. An operator is known by its rule, and
its symbol is only how it is written.

* `parse_of_file`: under the grammar at a path a source is parsed in the vocabulary of it.
* `parse_respelled`: the tree, and the typed syntax or its error, do not depend on the symbols.
-/

namespace RuleTree

open Reading Phrase

variable {settings : Settings} {files : String → Option Vocabulary}
  {table : Operator → Option String} {path : String}

theorem parse_of_file {v : Vocabulary} (hpath : path ≠ "") (hfile : files path = some v)
    (start : Start) (source : String) :
    parse { settings with grammarPath := some path } files start.name source =
      (parseTree settings.parser v start source).mapError .parse := by
  have hgrammar : locateGrammar Vocabulary.standard files (some path) = .ok v := by
    rw [locateGrammar, if_neg hpath, hfile]
  rw [parse, ofName?_start, hgrammar]

/-- **The rule decides what an operator is, and not its symbol.** However a table renames the
operators, an accepted source that is written with the new symbols, in the same layout, lexes into
the same lexemes and is accepted under the grammar of the table. Its tree differs in places only,
and so does what is built of it or the error that is reported. -/
theorem parse_respelled (hsettings : settings.Packaged) (htable : NewSymbols table)
    (hpath : path ≠ "") (hfile : files path = some (.ofTable table)) {start : Start}
    {source : String} {t : Tree} (hparse : parse settings files start.name source = .ok t) :
    let settings' := { settings with grammarPath := some path }
    let source' := (Vocabulary.ofTable table).respellSource source
    ∃ ts ts' t', Lexes .standard .origin source.toList ts ∧
      Lexes (.ofTable table) .origin source'.toList ts' ∧
      ts'.map (·.lexeme) = ts.map (·.lexeme) ∧
      parse settings' files start.name source' = .ok t' ∧ t'.unplaced = t.unplaced ∧
      (start = .program →
        (parseProgram settings' files source').result.mapError Error.unplaced =
          (parseProgram settings files source).result.mapError Error.unplaced) ∧
      (start = .expr →
        (parseExpression settings' files source').result.mapError Error.unplaced =
          (parseExpression settings files source).result.mapError Error.unplaced) := by
  intro settings' source'
  obtain ⟨s, rfl, rfl, hlexes⟩ := (parse_eq_ok_iff_sentence hsettings).mp hparse
  have hv := Vocabulary.plain_ofTable htable
  obtain ⟨ts', hts', hlexemes⟩ := hv.exists_lexes hlexes s.loose .origin
  obtain ⟨s', rfl, hs'⟩ := s.exists_placed hlexemes
  have hlexes' : Lexes (.ofTable table) .origin source'.toList s'.tokens := by
    rwa [show source'.toList = _ from String.toList_ofList]
  have hparse' : parse settings' files s'.start.name source' = .ok s'.tree := by
    rw [parse_of_file hpath hfile, parseTree, parseSentence_eq_ok_of_lexes hv.clear hlexes']
    rfl
  have hradix : settings'.radixFloats = settings.radixFloats := rfl
  refine ⟨s.tokens, s'.tokens, s'.tree, hlexes, hlexes', hlexemes, ?_, Sentence.unplaced_tree hs',
    results_of_unplaced hradix hparse hparse' (fun _ h => hlexes.legible h)
      (fun _ h => hlexes'.legible h) hs'⟩
  rw [← Sentence.start_of_unplaced hs']
  exact hparse'

/-- Powers are written with a symbol that begins like that of products, and the comment is left as
it is. -/
theorem parse_respelled_power : ∃ (table : Operator → Option String)
    (files : String → Option Vocabulary) (t t' : Tree),
    ({} : Settings).Packaged ∧ NewSymbols table ∧ files "symbols" = some (.ofTable table) ∧
    parse {} files Start.expr.name "2 ** (3*4) // **" = .ok t ∧
    parse { grammarPath := some "symbols" } files Start.expr.name "2 *^ (3*4) // **" = .ok t' ∧
    t'.unplaced = t.unplaced ∧
    (parseExpression { grammarPath := some "symbols" } files "2 *^ (3*4) // **").result.mapError
        Error.unplaced =
      (parseExpression {} files "2 ** (3*4) // **").result.mapError Error.unplaced := by
  let table : Operator → Option String := fun o => if o = .pow then some "*^" else none
  let files : String → Option Vocabulary := fun _ => some (.ofTable table)
  have hsettings : ({} : Settings).Packaged := .inl rfl
  have htable : NewSymbols table := by
    constructor
    · intro o s hs
      right
      by_cases ho : o = .pow
      · simp only [table, if_pos ho, Option.some.injEq] at hs
        subst hs
        decide
      · simp [table, if_neg ho] at hs
    · intro o o'
      cases o <;> cases o' <;> decide
  have hfile : files "symbols" = some (.ofTable table) := rfl
  have haccepted : errorOf? (parse {} files Start.expr.name "2 ** (3*4) // **") = none := by
    decide +kernel
  have hrespelled : (Vocabulary.ofTable table).respellSource "2 ** (3*4) // **" =
      "2 *^ (3*4) // **" := by
    decide +kernel
  cases hparse : parse {} files Start.expr.name "2 ** (3*4) // **" with
  | error e => simp [hparse, errorOf?] at haccepted
  | ok t =>
    obtain ⟨ts, ts', t', -, -, -, hparse', htree, -, hresult⟩ :=
      parse_respelled hsettings htable (by decide) hfile hparse
    rw [hrespelled] at hparse' hresult
    exact ⟨table, files, t, t', hsettings, htable, hfile, hparse, hparse', htree, hresult rfl⟩

end RuleTree
