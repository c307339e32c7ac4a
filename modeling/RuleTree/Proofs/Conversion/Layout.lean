import RuleTree.Proofs.Conversion.Outcome
import RuleTree.Proofs.Grammar.Relocation
import RuleTree.Proofs.Source.Layout

/-!
# Sources in another layout

The tokens of an accepted source can be laid out anew, close together or with other white space and
comments between them, and nothing but places changes.

* `Error.unplaced`: what remains of an error when the layout is not looked at.
* `Phrase.Sentence.exists_laidOut`: a sentence is read again from every text that its lexemes are
  laid out in.
* `parse_laidOut`: the tree, and the typed syntax or the error of it, do not depend on the layout.
-/

namespace RuleTree

open Reading Phrase

/-! ### Errors without their places -/

namespace FatalError

/-- Whether the error is about a literal, whose text has no layout inside. -/
def isOfLiteral (e : FatalError) : Bool :=
  match e.cause with
  | .badLiteral _ => true
  | _ => false

/-- The error without what depends on the layout of the source: the place of its node, and the text
of the node unless it is a literal. -/
def unplaced (e : FatalError) : FatalError :=
  { e with site := e.site.map fun s => ⟨s.rule, if e.isOfLiteral then s.text else "", {}⟩ }

end FatalError

/-- The failure without what depends on the layout of the source. -/
def Failure.unplaced : Failure → Failure
  | fatal error => fatal error.unplaced
  | failure => failure

/-- The error without what depends on the layout of the source. -/
def Error.unplaced : Error → Error
  | build e => build e.unplaced
  | e => e

theorem Failure.unplaced_movePlace (P : Place → Place) (e : Failure) :
    (e.movePlace P).unplaced = e.unplaced := by
  cases e with
  | fatal error =>
    obtain ⟨site, cause⟩ := error
    cases site <;> rfl
  | _ => rfl

theorem FatalError.unplaced_unplaced (e : FatalError) : e.unplaced.unplaced = e.unplaced := by
  obtain ⟨site, cause⟩ := e
  cases site with
  | none => rfl
  | some site => cases cause <;> rfl

theorem Failure.unplaced_atRoot_of_rule (e : Failure) (kind : Kind) {root root' : Option Site}
    (hroot : root.map (·.rule) = root'.map (·.rule)) :
    (e.atRoot kind root).unplaced = (e.atRoot kind root').unplaced := by
  have hsite : root.map (fun s => (⟨s.rule, "", {}⟩ : Site)) =
      root'.map fun s => ⟨s.rule, "", {}⟩ := by
    have h := congrArg (Option.map fun rule => (⟨rule, "", {}⟩ : Site)) hroot
    rwa [Option.map_map, Option.map_map] at h
  cases e with
  | noMatch mismatch =>
    exact congrArg (fun site => fatal ⟨site, .rootMismatch kind mismatch⟩) hsite
  | tooDeep => exact congrArg (fun site => fatal ⟨site, .rootTooDeep kind⟩) hsite
  | _ => rfl

theorem Failure.unplaced_atRoot_unplaced (e : Failure) (kind : Kind) (root : Option Site) :
    (e.unplaced.atRoot kind root).unplaced = (e.atRoot kind root).unplaced := by
  cases e with
  | fatal error => exact congrArg fatal error.unplaced_unplaced
  | _ => rfl

theorem mapError_atRoot {α : Type} {r r' : Except Failure α}
    (h : r.mapError Failure.unplaced = r'.mapError Failure.unplaced) (kind : Kind)
    {root root' : Option Site} (hroot : root.map (·.rule) = root'.map (·.rule)) :
    (r.mapError fun e => Error.build (e.atRoot kind root)).mapError Error.unplaced =
      (r'.mapError fun e => Error.build (e.atRoot kind root')).mapError Error.unplaced := by
  cases r with
  | ok a =>
    cases r' with
    | ok a' => exact congrArg Except.ok (Except.ok.inj h)
    | error e' => cases h
  | error e =>
    cases r' with
    | ok a' => cases h
    | error e' =>
      have he : e.unplaced = e'.unplaced := Except.error.inj h
      have hatRoot : (e.atRoot kind root).unplaced = (e'.atRoot kind root').unplaced := by
        rw [← e.unplaced_atRoot_unplaced, he, e'.unplaced_atRoot_unplaced,
          e'.unplaced_atRoot_of_rule kind hroot]
      exact congrArg (fun failure => Except.error (Error.build failure)) hatRoot

/-! ### Sentences in another layout -/

namespace Phrase

theorem Expr.build_of_unplaced {e e' : Expr} (h : e'.unplaced = e.unplaced) (radixFloats : Bool)
    (a : Nat) :
    (e'.build radixFloats a).mapError Failure.unplaced =
      (e.build radixFloats a).mapError Failure.unplaced := by
  have hbuild (e : Expr) : (e.unplaced.build radixFloats a).mapError Failure.unplaced =
      (e.build radixFloats a).mapError Failure.unplaced := by
    rw [Expr.unplaced, e.build_relocate (P := fun _ => ⟨some 1, some 1⟩) fun _ => rfl]
    cases e.build radixFloats a with
    | ok a => rfl
    | error e => exact congrArg Except.error (e.unplaced_movePlace _)
  rw [← hbuild, h, hbuild]

theorem buildProgram_of_unplaced {stmts stmts' : List Stmt}
    (h : stmts'.map Stmt.unplaced = stmts.map Stmt.unplaced) (radixFloats : Bool) (a : Nat) :
    (buildProgram radixFloats a stmts').mapError Failure.unplaced =
      (buildProgram radixFloats a stmts).mapError Failure.unplaced := by
  have hbuild (stmts : List Stmt) :
      (buildProgram radixFloats a (stmts.map Stmt.unplaced)).mapError Failure.unplaced =
        (buildProgram radixFloats a stmts).mapError Failure.unplaced := by
    have hrelocate : buildProgram radixFloats a (stmts.map Stmt.unplaced) = _ :=
      buildProgram_relocate (P := fun _ => ⟨some 1, some 1⟩) (fun _ => rfl) stmts a
    rw [hrelocate]
    cases buildProgram radixFloats a stmts with
    | ok p => rfl
    | error e => exact congrArg Except.error (e.unplaced_movePlace _)
  rw [← hbuild, h, hbuild]

theorem Sentence.loose (s : Sentence) : Loose (s.tokens.map (·.lexeme)) := by
  have hfinish := finish?_steps_iff.mpr ⟨(rfl : s.start = s.start), (rfl : s.tokens = s.tokens)⟩
  cases hsteps : State.initial.steps s.start s.tokens with
  | ok state => exact loose_of_steps hsteps
  | error t =>
    rw [hsteps] at hfinish
    cases hfinish

/-- A sentence is read again, at other places, from every text that its lexemes are laid out in. -/
theorem Sentence.exists_laidOut (s : Sentence) (hspelled : ∀ tok ∈ s.tokens, tok.Spelled)
    {cs : List Char} (h : LaidOut .standard (s.tokens.map (·.lexeme)) cs) :
    ∃ s' : Sentence, Lexes .standard .origin cs s'.tokens ∧
      s'.tokens.map (·.lexeme) = s.tokens.map (·.lexeme) ∧ s'.unplaced = s.unplaced := by
  have hlexemes : ∀ l ∈ s.tokens.map (·.lexeme), l.Spelled :=
    List.forall_mem_map.mpr fun tok htok => hspelled tok htok
  obtain ⟨ts, hlexes, hts⟩ := exists_lexes_of_laidOut h hlexemes s.loose .origin
  obtain ⟨s', rfl, hs'⟩ := s.exists_placed hts
  exact ⟨s', hlexes, hts, hs'⟩

end Phrase

/-! ### Results in another layout -/

theorem Phrase.Sentence.start_relocate (g : Mark → Mark) (s : Sentence) :
    (s.relocate g).start = s.start := by
  cases s <;> rfl

theorem Phrase.Sentence.start_of_unplaced {s s' : Sentence} (h : s'.unplaced = s.unplaced) :
    s'.start = s.start := by
  have hstart := congrArg Sentence.start h
  rwa [Sentence.unplaced, Sentence.unplaced, start_relocate, start_relocate] at hstart

theorem rule_rootSite? (source : String) (s : Sentence) :
    (rootSite? source s.tree).map (·.rule) = some s.start.kind.rule := by
  cases s with
  | program stmts =>
    rw [rootSite?, branches_program]
    rfl
  | expr e =>
    rw [rootSite?, show (Sentence.expr e).tree = e.tree from rfl, e.branches_tree]
    exact congrArg some (e.rule_branch _)

variable {settings : Settings} {files : String → Option Vocabulary} {source source' : String}

/-- Sentences that differ in their places only are built alike, under whatever grammar they are
read. -/
theorem results_of_unplaced {settings' : Settings}
    (hradix : settings'.radixFloats = settings.radixFloats) {s s' : Sentence}
    (hparse : parse settings files s.start.name source = .ok s.tree)
    (hparse' : parse settings' files s'.start.name source' = .ok s'.tree)
    (hlegible : ∀ tok ∈ s.tokens, tok.Legible (some (charsOf source)))
    (hlegible' : ∀ tok ∈ s'.tokens, tok.Legible (some (charsOf source')))
    (h : s'.unplaced = s.unplaced) :
    (s.start = .program →
      (parseProgram settings' files source').result.mapError Error.unplaced =
        (parseProgram settings files source).result.mapError Error.unplaced) ∧
    (s.start = .expr →
      (parseExpression settings' files source').result.mapError Error.unplaced =
        (parseExpression settings files source).result.mapError Error.unplaced) := by
  have hstart := Sentence.start_of_unplaced h
  have hroot : (rootSite? source' s'.tree).map (·.rule) =
      (rootSite? source s.tree).map (·.rule) := by
    rw [rule_rootSite?, rule_rootSite?, hstart]
  cases s with
  | program stmts =>
    cases s' with
    | expr e' => cases hstart
    | program stmts' =>
      refine ⟨fun _ => ?_, nofun⟩
      rw [result_parseProgram_of_parse hparse' hlegible',
        result_parseProgram_of_parse hparse hlegible, hradix]
      exact mapError_atRoot (buildProgram_of_unplaced (Sentence.program.inj h) _ _) .program hroot
  | expr e =>
    cases s' with
    | program stmts' => cases hstart
    | expr e' =>
      refine ⟨nofun, fun _ => ?_⟩
      rw [result_parseExpression_of_parse hparse' hlegible',
        result_parseExpression_of_parse hparse hlegible, hradix]
      exact mapError_atRoot (Expr.build_of_unplaced (Sentence.expr.inj h) _ _) .expression hroot

theorem result_of_unplaced (hsettings : settings.Packaged) {s s' : Sentence}
    (hs : Lexes .standard .origin source.toList s.tokens)
    (hs' : Lexes .standard .origin source'.toList s'.tokens) (h : s'.unplaced = s.unplaced) :
    (s.start = .program →
      (parseProgram settings files source').result.mapError Error.unplaced =
        (parseProgram settings files source).result.mapError Error.unplaced) ∧
    (s.start = .expr →
      (parseExpression settings files source').result.mapError Error.unplaced =
        (parseExpression settings files source).result.mapError Error.unplaced) :=
  results_of_unplaced rfl ((parse_eq_ok_iff_sentence hsettings).mpr ⟨s, rfl, rfl, hs⟩)
    ((parse_eq_ok_iff_sentence hsettings).mpr ⟨s', rfl, rfl, hs'⟩)
    (fun _ htok => hs.legible htok) (fun _ htok => hs'.legible htok) h

/-- **Layout never matters in an accepted source.** However the lexemes of the source are laid out,
also without anything between them, the text lexes into the same lexemes and is accepted, its tree
differs in places only, and so does what is built of it or the error that is reported. -/
theorem parse_laidOut (hsettings : settings.Packaged) {start : Start} {t : Tree}
    (hparse : parse settings files start.name source = .ok t) :
    ∃ ts, Lexes .standard .origin source.toList ts ∧
      ∀ source' : String, LaidOut .standard (ts.map (·.lexeme)) source'.toList →
        ∃ ts' t', Lexes .standard .origin source'.toList ts' ∧
          ts'.map (·.lexeme) = ts.map (·.lexeme) ∧
          parse settings files start.name source' = .ok t' ∧ t'.unplaced = t.unplaced ∧
          (start = .program →
            (parseProgram settings files source').result.mapError Error.unplaced =
              (parseProgram settings files source).result.mapError Error.unplaced) ∧
          (start = .expr →
            (parseExpression settings files source').result.mapError Error.unplaced =
              (parseExpression settings files source).result.mapError Error.unplaced) := by
  obtain ⟨s, rfl, rfl, hlexes⟩ := (parse_eq_ok_iff_sentence hsettings).mp hparse
  refine ⟨s.tokens, hlexes, fun source' hlaid => ?_⟩
  obtain ⟨s', hlexes', hlexemes, hs'⟩ :=
    s.exists_laidOut (fun tok htok => hlexes.spelled htok) hlaid
  exact ⟨s'.tokens, s'.tree, hlexes', hlexemes,
    (parse_eq_ok_iff_sentence hsettings).mpr ⟨s', Sentence.start_of_unplaced hs', rfl, hlexes'⟩,
    Sentence.unplaced_tree hs', result_of_unplaced hsettings hlexes hlexes' hs'⟩

/-- The layout of this expression is deleted, and its operator does not run into the number. -/
theorem parse_laidOut_tight : ∃ ts t t', ({} : Settings).Packaged ∧
    Lexes .standard .origin "0 // zero\n ** 0x1".toList ts ∧
    parse {} (fun _ => none) Start.expr.name "0 // zero\n ** 0x1" = .ok t ∧
    LaidOut .standard (ts.map (·.lexeme)) "0**0x1".toList ∧
    parse {} (fun _ => none) Start.expr.name "0**0x1" = .ok t' ∧ t'.unplaced = t.unplaced := by
  let zero : Span := ⟨⟨0, 1, 1⟩, ⟨1, 1, 2⟩⟩
  let power : Span := ⟨⟨11, 2, 2⟩, ⟨13, 2, 4⟩⟩
  let one : Span := ⟨⟨14, 2, 5⟩, ⟨17, 2, 8⟩⟩
  let s : Sentence :=
    .expr (.binary (.literal .decInt "0" zero) .pow power (.literal .hexInt "0x1" one))
  have hsettings : ({} : Settings).Packaged := .inl rfl
  have hlexes : Lexes .standard .origin "0 // zero\n ** 0x1".toList s.tokens := by
    rw [lexes_standard_iff]
    decide +kernel
  have hparse : parse {} (fun _ => none) Start.expr.name "0 // zero\n ** 0x1" = .ok s.tree :=
    (parse_eq_ok_iff_sentence hsettings).mpr ⟨s, rfl, rfl, hlexes⟩
  have htexts : (s.tokens.map (·.lexeme)).flatMap (fun l => (Vocabulary.standard.text l).toList) =
      "0**0x1".toList := by decide +kernel
  have htight : LaidOut .standard (s.tokens.map (·.lexeme)) "0**0x1".toList :=
    htexts ▸ laidOut_texts .standard (s.tokens.map (·.lexeme))
  obtain ⟨ts, hts, h⟩ := parse_laidOut hsettings hparse
  cases lexes_unique hts hlexes
  obtain ⟨ts', t', -, -, hparse', htree, -⟩ := h "0**0x1" htight
  exact ⟨s.tokens, s.tree, t', hsettings, hlexes, hparse, htight, hparse', htree⟩

end RuleTree
