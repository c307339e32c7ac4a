import RuleTree.Proofs.Conversion.Rejection
import RuleTree.Proofs.Conversion.Subexpression
import RuleTree.Proofs.Source.Joint

/-!
# Programs one below the other

A program may begin on the line below another one. It is read there as it is by itself, because
reading a program to its end leads back to where reading begins.

* `Reading.State.outline_steps`: states of one outline read tokens alike, wherever the tokens stand.
* `refusal?_joint`: the lower tokens are refused for the same as by themselves.
* `lexes_joint`, `parseSentence_joint_error`: the lower source in the place of the whole.
* `buildProgram_append`: what is built of both.
* `programs_concatenate`: the tree, the typed syntax and the errors of the whole.
-/

namespace RuleTree

open Phrase Reading

/-! ### Reading on -/

namespace Reading.State

theorem outline_step_of_lexeme (start : Start) (s : State) {t t' : Token}
    (h : t.lexeme = t'.lexeme) : (s.step start t).map outline = (s.step start t').map outline := by
  obtain ⟨l, p⟩ := t
  obtain ⟨l', p'⟩ := t'
  obtain rfl : l = l' := h
  obtain ⟨stmts, frames, slot, term?⟩ := s
  cases term? with
  | none =>
    cases l with
    | closing b =>
      cases slot with
      | right x o m => rfl
      | left =>
        cases frames with
        | nil => rfl
        | cons f frames =>
          simp only [step, stepBefore]
          split <;> rfl
    | _ => rfl
  | some x =>
    cases l with
    | operator o => cases slot <;> rfl
    | comma => cases frames <;> rfl
    | closing b =>
      cases frames with
      | nil => rfl
      | cons f frames =>
        simp only [step, stepBehind]
        split <;> rfl
    | semicolon => cases start <;> cases frames <;> rfl
    | _ => rfl

/-- States of one outline read tokens alike, wherever the tokens stand. -/
theorem outline_steps (start : Start) (g : Mark → Mark) {s s' : State} (h : s'.outline = s.outline)
    (ts : List Token) :
    (s'.steps start (ts.map (Token.relocate g))).map outline =
      ((s.steps start ts).mapError (Token.relocate g)).map outline := by
  induction ts generalizing s s' with
  | nil => exact congrArg Except.ok h
  | cons t ts ih =>
    have hstep : (s'.step start (t.relocate g)).map outline = (s.step start t).map outline :=
      (outline_step h start (t.relocate g)).trans (outline_step_of_lexeme start s rfl)
    rw [List.map_cons, steps, steps]
    cases hnext : s.step start t with
    | none =>
      rw [hnext, Option.map_none, Option.map_eq_none_iff] at hstep
      rw [hstep]
      rfl
    | some next =>
      rw [hnext] at hstep
      obtain ⟨next', hnext', houtline⟩ := Option.map_eq_some_iff.mp hstep
      rw [hnext']
      exact ih houtline

theorem finish?_program_eq_none_iff {s : State} :
    s.finish? .program = none ↔ s.outline ≠ initial.outline := by
  obtain ⟨stmts, frames, slot, term?⟩ := s
  cases frames <;> cases slot <;> cases term? <;> simp [finish?, outline, initial, Slot.isRight]

end Reading.State

/-! ### Parsing on -/

/-- A source below another one. -/
def joint (a b : String) : String := a ++ "\n" ++ b

theorem toList_joint (a b : String) : (joint a b).toList = a.toList ++ '\n' :: b.toList := by
  simp [joint]

/-- A place of the lower source. -/
def Mark.under (a : String) : Mark → Mark := .below (a.toList.length + 1) (a.toList.count '\n' + 1)

/-- The error of a source, so many lines further down. -/
def ParseError.below (lines : Nat) (e : ParseError) : ParseError :=
  { e with line := e.line.map (· + lines) }

theorem exists_words (m : Mark) (cs : List Char) :
    ∃ us : List Token, (Scan.ofChars .standard m cs).words = us.map Token.word := by
  obtain ⟨front, rest, us, rfl, hcuts, hrest⟩ := exists_cuts .standard m cs
  refine ⟨us, ?_⟩
  rw [ofChars_of_cuts hcuts]
  cases rest with
  | nil => rw [Scan.ofChars_nil, List.append_nil]
  | cons c rest => rw [Scan.ofChars_of_none (hrest nofun), List.append_nil]

theorem ParseError.atMark_under {a b : String} {cs rest : List Char} (hb : b.toList = cs ++ rest)
    (start : Start) (cause : ParseCause) :
    atMark (charsOf (joint a b)) start cause ((Mark.origin.after cs).under a) =
      (atMark (charsOf b) start cause (.after .origin cs)).below (a.toList.count '\n' + 1) := by
  have hoffset : (Mark.origin.after cs).offset = cs.length := by
    rw [Mark.offset_after]
    exact Nat.zero_add _
  have hcontext := contextAt_below a.toList cs rest
  rw [← hb, ← toList_joint, ← hoffset] at hcontext
  exact congrArg (fun context => ParseError.mk ("unexpected input for " ++ start.name)
    (some ((Mark.origin.after cs).line + (a.toList.count '\n' + 1) : Nat))
    (some (Mark.origin.after cs).column) context (some cause)) hcontext

/-- Why and where tokens are not read as a sentence, if cutting stops at the failure behind them. A
sentence that ends too early is wrong at its last token. -/
def Reading.refusal? (start : Start) (ts : List Token) (failure : Option Mark) :
    Option (ParseCause × Mark) :=
  match State.initial.steps start ts, failure with
  | .error tok, _ => some (.token, tok.span.start)
  | .ok _, some m => some (.character, m)
  | .ok s, none =>
    match s.finish? start, ts.getLast? with
    | some _, _ => none
    | none, last? => some (.token, (last?.map (·.span.start)).getD .origin)

theorem parseSentence_lalr_eq_error_iff {source : String} {ts : List Token}
    (h : (Scan.ofSource .standard source).words = ts.map Token.word) (start : Start)
    {e : ParseError} :
    parseSentence .lalr .standard start source = .error e ↔
      ∃ cause m, refusal? start ts (Scan.ofSource .standard source).failure = some (cause, m) ∧
        .atMark (charsOf source) start cause m = e := by
  simp only [parseSentence, h, readWords_word, atEnd_lalr, refusal?]
  cases State.initial.steps start ts with
  | error tok => simp [Except.mapError, Except.map, Token.word]
  | ok s =>
    cases (Scan.ofSource .standard source).failure with
    | some m => simp [Except.mapError, Except.map]
    | none =>
      cases h : s.finish? start with
      | some sentence => simp [Except.mapError, Except.map, h]
      | none => simp [Except.mapError, Except.map, h]

theorem exists_getLast?_of_open {us : List Token} {s : State}
    (h : State.initial.steps .program us = .ok s) (hopen : s.finish? .program = none) :
    ∃ last ∈ us, us.getLast? = some last := by
  cases hlast : us.getLast? with
  | some last => exact ⟨last, List.mem_of_getLast? hlast, rfl⟩
  | none =>
    cases List.getLast?_eq_none_iff.mp hlast
    cases h
    cases hopen

theorem mem_places_of_refusal? {source : String} {us : List Token}
    (h : (Scan.ofSource .standard source).words = us.map Token.word) {cause : ParseCause} {m : Mark}
    (hrefusal : refusal? .program us (Scan.ofSource .standard source).failure = some (cause, m)) :
    m ∈ (Scan.ofSource .standard source).places := by
  have hstart {tok : Token} (htok : tok ∈ us) :
      tok.span.start ∈ (Scan.ofSource .standard source).places := by
    refine List.mem_append_left _ (List.mem_map.mpr ⟨tok.word, ?_, rfl⟩)
    rw [h]
    exact List.mem_map_of_mem htok
  unfold refusal? at hrefusal
  split at hrefusal
  · rename_i tok hread
    obtain ⟨before, behind, -, rfl, -⟩ := State.exists_refused hread
    cases hrefusal
    exact hstart (by simp)
  · rename_i k _ hfailure
    cases hrefusal
    exact List.mem_append_right _ (Option.mem_toList.mpr hfailure)
  · rename_i s hread _
    split at hrefusal
    · cases hrefusal
    · rename_i last? hopen
      obtain ⟨last, hmem, hlast⟩ := exists_getLast?_of_open hread hopen
      rw [hlast] at hrefusal
      cases hrefusal
      exact hstart hmem

theorem Phrase.tokens_stmts_relocate (g : Mark → Mark) (stmts : List Stmt) :
    (stmts.map (Stmt.relocate g)).flatMap Stmt.tokens =
      (stmts.flatMap Stmt.tokens).map (Token.relocate g) := by
  rw [List.flatMap_map, List.map_flatMap]
  refine List.flatMap_congr fun stmt _ => ?_
  rw [Stmt.tokens, Stmt.tokens, Stmt.relocate, stmt.expr.tokens_relocate, List.map_append]
  rfl

section Joint

variable {a b : String} {stmts : List Stmt}

theorem scan_joint (ha : Lexes .standard .origin a.toList (stmts.flatMap Stmt.tokens))
    (b : String) :
    Scan.ofSource .standard (joint a b) =
      ⟨(stmts.flatMap Stmt.tokens).map Token.word ++
          ((Scan.ofSource .standard b).words.map (Word.relocate (.under a))),
        (Scan.ofSource .standard b).failure.map (.under a)⟩ := by
  rw [Scan.ofSource, toList_joint, Scan.ofChars_joint ha, Mark.origin_after_line,
    Scan.ofChars_below]
  rfl

theorem outline_steps_joint (a : String) (stmts : List Stmt) (us : List Token) :
    (State.initial.steps .program
        (stmts.flatMap Stmt.tokens ++ us.map (Token.relocate (.under a)))).map State.outline =
      ((State.initial.steps .program us).mapError (Token.relocate (.under a))).map
        State.outline := by
  have hstmts : State.initial.steps .program (stmts.flatMap Stmt.tokens) =
      .ok ⟨stmts.reverse ++ [], [], .left, none⟩ := State.steps_stmts stmts []
  have houtline : State.outline ⟨stmts.reverse ++ [], [], .left, none⟩ = State.initial.outline :=
    rfl
  rw [State.steps_append, hstmts]
  exact State.outline_steps .program (.under a) houtline us

theorem steps_joint_error {us : List Token} {tok : Token}
    (h : State.initial.steps .program us = .error tok) :
    State.initial.steps .program
        (stmts.flatMap Stmt.tokens ++ us.map (Token.relocate (.under a))) =
      .error (tok.relocate (.under a)) := by
  have hsteps := outline_steps_joint a stmts us
  rw [h] at hsteps
  rw [← errorOf?_eq_some_iff, ← errorOf?_map State.outline, hsteps]
  rfl

theorem exists_steps_joint (a : String) (stmts : List Stmt) {us : List Token} {s : State}
    (h : State.initial.steps .program us = .ok s) :
    ∃ s', State.initial.steps .program
        (stmts.flatMap Stmt.tokens ++ us.map (Token.relocate (.under a))) = .ok s' ∧
      s'.outline = s.outline := by
  have hsteps := outline_steps_joint a stmts us
  rw [h] at hsteps
  exact map_eq_ok_iff.mp hsteps

theorem atMark_joint (a : String) {m : Mark} (hm : m ∈ (Scan.ofSource .standard b).places)
    (start : Start) (cause : ParseCause) :
    ParseError.atMark (charsOf (joint a b)) start cause (m.under a) =
      (ParseError.atMark (charsOf b) start cause m).below (a.toList.count '\n' + 1) := by
  obtain ⟨before, behind, hb, rfl⟩ := Scan.exists_split_of_mem hm
  exact ParseError.atMark_under hb start cause

theorem lexes_joint {lower : List Stmt}
    (ha : Lexes .standard .origin a.toList (stmts.flatMap Stmt.tokens))
    (hb : Lexes .standard .origin b.toList (lower.flatMap Stmt.tokens)) :
    Lexes .standard .origin (joint a b).toList
      ((stmts ++ lower.map (Stmt.relocate (.under a))).flatMap Stmt.tokens) := by
  obtain ⟨hfailure, hwords⟩ := words_of_lexes hb
  have hscan := scan_joint ha b
  rw [Scan.ofSource, Scan.ofSource, hfailure, hwords] at hscan
  rw [lexes_standard_iff, hscan, List.flatMap_append, tokens_stmts_relocate]
  refine ⟨rfl, ?_⟩
  rw [List.map_append, List.map_map, List.map_map]
  rfl

theorem refusal?_joint (us : List Token) (failure : Option Mark) :
    refusal? .program (stmts.flatMap Stmt.tokens ++ us.map (Token.relocate (.under a)))
        (failure.map (.under a)) =
      (refusal? .program us failure).map (Prod.map id (.under a)) := by
  unfold refusal?
  cases hread : State.initial.steps .program us with
  | error tok =>
    rw [steps_joint_error hread]
    rfl
  | ok s =>
    obtain ⟨s', hread', houtline⟩ := exists_steps_joint a stmts hread
    rw [hread']
    cases failure with
    | some m => rfl
    | none =>
      have hfinish : s'.finish? .program = none ↔ s.finish? .program = none := by
        rw [State.finish?_program_eq_none_iff, State.finish?_program_eq_none_iff, houtline]
      cases hs : s.finish? .program with
      | some sentence =>
        obtain ⟨sentence', hs'⟩ : ∃ sentence', s'.finish? .program = some sentence' :=
          Option.ne_none_iff_exists'.mp fun hnone => by simp [hfinish.mp hnone] at hs
        simp [hs, hs']
      | none =>
        obtain ⟨last, -, hlast⟩ := exists_getLast?_of_open hread hs
        simp [hfinish.mpr hs, hs, List.getLast?_append, hlast, Token.relocate, Span.map]

/-- A source below a program is refused for the same as by itself. -/
theorem parseSentence_joint_error
    (ha : Lexes .standard .origin a.toList (stmts.flatMap Stmt.tokens)) {e : ParseError}
    (he : parseSentence .lalr .standard .program b = .error e) :
    parseSentence .lalr .standard .program (joint a b) =
      .error (e.below (a.toList.count '\n' + 1)) := by
  obtain ⟨us, hus⟩ := exists_words .origin b.toList
  have hscan := scan_joint ha b
  have hwords : (Scan.ofSource .standard (joint a b)).words =
      (stmts.flatMap Stmt.tokens ++ us.map (Token.relocate (.under a))).map Token.word := by
    rw [hscan, Scan.ofSource, hus, List.map_append, List.map_map, List.map_map]
    rfl
  obtain ⟨cause, m, hrefusal, rfl⟩ := (parseSentence_lalr_eq_error_iff hus .program).mp he
  have hplace := atMark_joint a (mem_places_of_refusal? hus hrefusal) .program cause
  refine (parseSentence_lalr_eq_error_iff hwords .program).mpr ⟨cause, m.under a, ?_, hplace⟩
  rw [hscan, refusal?_joint, hrefusal]
  rfl

end Joint

/-! ### Building on -/

/-- A line and a column of a text that begins so many lines further down. -/
def Place.below (lines : Nat) (p : Place) : Place := { p with line := p.line.map (· + lines) }

/-- A region of a text that begins so many characters and lines further down. -/
def Region.below (chars lines : Nat) (r : Region) : Region where
  line := r.line.map (· + lines)
  column := r.column
  start := r.start.map (· + chars)
  stop := r.stop.map (· + chars)
  endLine := r.endLine.map (· + lines)
  endColumn := r.endColumn

theorem movesPlaces_under (a : String) :
    MovesPlaces (.under a) (Place.below (a.toList.count '\n' + 1)) :=
  fun _ => rfl

theorem movesRegions_under (a : String) :
    MovesRegions (.under a) (Region.below (a.toList.length + 1) (a.toList.count '\n' + 1)) :=
  fun _ => rfl

/-- The error is reported as it is, whatever the root is. -/
def Failure.Settled (e : Failure) : Prop := (∃ error, e = .fatal error) ∨ ∃ fault, e = .limit fault

theorem Failure.Settled.atRoot {e : Failure} (h : e.Settled) (kind : Kind) (root : Option Site) :
    e.atRoot kind root = e := by
  obtain ⟨error, rfl⟩ | ⟨fault, rfl⟩ := h
  · rfl
  · rfl

theorem Failure.Settled.movePlace {e : Failure} (h : e.Settled) (P : Place → Place) :
    (e.movePlace P).Settled := by
  obtain ⟨error, rfl⟩ | ⟨fault, rfl⟩ := h
  · exact .inl ⟨_, rfl⟩
  · exact .inr ⟨_, rfl⟩

theorem Token.settled_of_failure? {radixFloats : Bool} {tok : Token} {e : Failure}
    (h : tok.failure? radixFloats = some e) : e.Settled := by
  unfold Token.failure? at h
  split at h
  · obtain ⟨fault, -, rfl⟩ := Option.map_eq_some_iff.mp h
    cases fault with
    | malformed literal => exact .inl ⟨_, rfl⟩
    | _ => exact .inr ⟨_, rfl⟩
  · cases h

namespace Phrase

theorem settled_of_buildProgram {radixFloats : Bool} {a : Nat} {stmts : List Stmt} {e : Failure}
    (hspelled : ∀ tok ∈ stmts.flatMap Stmt.tokens, tok.Spelled)
    (hnesting : (Sentence.program stmts).tree.nesting ≤ a)
    (h : buildProgram radixFloats a stmts = .error e) : e.Settled := by
  have herror : errorOf? (buildProgram radixFloats a stmts) = _ :=
    errorOf?_buildProgram stmts hspelled a
  rw [h, Sentence.failure?_tree _ hnesting] at herror
  obtain ⟨tok, -, htok⟩ := List.exists_of_findSome?_eq_some herror.symm
  exact Token.settled_of_failure? htok

theorem buildProgram_append (radixFloats : Bool) (a : Nat) (upper lower : List Stmt) :
    buildProgram radixFloats a (upper ++ lower) = do
      let p ← buildProgram radixFloats a upper
      let q ← buildProgram radixFloats a lower
      return ⟨p.statements ++ q.statements⟩ := by
  rw [buildProgram, List.mapM_append, buildProgram, buildProgram]
  cases upper.mapM (Stmt.build radixFloats a) with
  | error e => rfl
  | ok ps => cases lower.mapM (Stmt.build radixFloats a) <;> rfl

end Phrase

theorem mapError_congr {ε ε' α : Type} {r : Except ε α} {f g : ε → ε'}
    (h : ∀ e, r = .error e → f e = g e) : r.mapError f = r.mapError g := by
  cases r with
  | ok x => rfl
  | error e => exact congrArg Except.error (h e rfl)

theorem exists_program_of_parse {settings : Settings} (hsettings : settings.Packaged)
    {files : String → Option Vocabulary} {source : String} {t : Tree}
    (h : parse settings files Start.program.name source = .ok t) :
    ∃ stmts, (Sentence.program stmts).tree = t ∧
      Lexes .standard .origin source.toList (stmts.flatMap Stmt.tokens) := by
  obtain ⟨s, hstart, rfl, hlexes⟩ := (parse_eq_ok_iff_sentence hsettings).mp h
  cases s with
  | program stmts => exact ⟨stmts, rfl, hlexes⟩
  | expr e => cases hstart

theorem exists_parseSentence_error {settings : Settings} (hsettings : settings.Packaged)
    {files : String → Option Vocabulary} {start : Start} {source : String} {e : Error}
    (h : parse settings files start.name source = .error e) :
    ∃ e', e = .parse e' ∧ parseSentence settings.parser .standard start source = .error e' := by
  rw [parse_packaged hsettings, parseTree] at h
  cases hsentence : parseSentence settings.parser .standard start source with
  | ok s =>
    rw [hsentence] at h
    cases h
  | error e' =>
    rw [hsentence] at h
    cases h
    exact ⟨e', rfl, rfl⟩

section Programs

variable {settings : Settings} {files : String → Option Vocabulary} {a b : String}
  {stmts lower : List Stmt}

theorem result_parseProgram_of_nesting (hsettings : settings.Packaged)
    (ha : Lexes .standard .origin a.toList (stmts.flatMap Stmt.tokens))
    (hnesting : (Sentence.program stmts).tree.nesting ≤ defaultAllowance) :
    (parseProgram settings files a).result =
      (buildProgram settings.radixFloats defaultAllowance stmts).mapError .build := by
  rw [result_parseProgram_of_lexes hsettings ha]
  refine mapError_congr fun e he => congrArg Error.build ?_
  exact (settled_of_buildProgram (fun tok htok => ha.spelled htok) hnesting he).atRoot _ _

theorem result_parseProgram_joint (hsettings : settings.Packaged)
    (ha : Lexes .standard .origin a.toList (stmts.flatMap Stmt.tokens))
    (hb : Lexes .standard .origin b.toList (lower.flatMap Stmt.tokens))
    (hstmts : (Sentence.program stmts).tree.nesting ≤ defaultAllowance)
    (hlower : (Sentence.program lower).tree.nesting ≤ defaultAllowance) :
    (parseProgram settings files (joint a b)).result = do
      let p ← (parseProgram settings files a).result
      let q ← (parseProgram settings files b).result.mapError
        (.movePlace (.below (a.toList.count '\n' + 1)))
      return ⟨p.statements ++ q.statements⟩ := by
  have hrelocate : buildProgram settings.radixFloats defaultAllowance
      (lower.map (Stmt.relocate (.under a))) = _ :=
    buildProgram_relocate (movesPlaces_under a) lower defaultAllowance
  rw [result_parseProgram_of_lexes hsettings (lexes_joint ha hb),
    result_parseProgram_of_nesting hsettings ha hstmts,
    result_parseProgram_of_nesting hsettings hb hlower, buildProgram_append, hrelocate]
  -- whatever the root of both is, nothing is reported of it
  generalize rootSite? (joint a b) _ = root
  have hupperError : ∀ e, buildProgram settings.radixFloats defaultAllowance stmts = .error e →
      Error.build (e.atRoot .program root) = .build e := fun e he =>
    congrArg Error.build ((settled_of_buildProgram (fun _ h => ha.spelled h) hstmts he).atRoot _ _)
  have hlowerError : ∀ e, buildProgram settings.radixFloats defaultAllowance lower = .error e →
      Error.build ((e.movePlace (.below (a.toList.count '\n' + 1))).atRoot .program root) =
        .build (e.movePlace (.below (a.toList.count '\n' + 1))) := fun e he =>
    congrArg Error.build
      (((settled_of_buildProgram (fun _ h => hb.spelled h) hlower he).movePlace _).atRoot _ _)
  cases hp : buildProgram settings.radixFloats defaultAllowance stmts with
  | error e => exact congrArg Except.error (hupperError e hp)
  | ok p =>
    cases hq : buildProgram settings.radixFloats defaultAllowance lower with
    | error e => exact congrArg Except.error (hlowerError e hq)
    | ok q => rfl

/-- **Programs can be written one below the other.** A source below a program is accepted together
with it exactly if it is accepted by itself. The statements of the whole are those of both, the
lower ones at places further down. What is built of it is what is built of both, or else the error
of the first that has one. A source that is refused is refused for the same, so many lines further
down. -/
theorem programs_concatenate (hsettings : settings.Packaged) (hparser : settings.parser = .lalr)
    {t : Tree} (ha : parse settings files Start.program.name a = .ok t) (b : String) :
    ((∃ w, parse settings files Start.program.name (joint a b) = .ok w) ↔
        ∃ u, parse settings files Start.program.name b = .ok u) ∧
      (∀ u, parse settings files Start.program.name b = .ok u →
        ∃ w, parse settings files Start.program.name (joint a b) = .ok w ∧
          w.rule? = some "main" ∧
          w.children = t.children ++ Tree.mapRegionsOf
            (.below (a.toList.length + 1) (a.toList.count '\n' + 1)) u.children ∧
          (t.nesting ≤ defaultAllowance → u.nesting ≤ defaultAllowance →
            (parseProgram settings files (joint a b)).result = do
              let p ← (parseProgram settings files a).result
              let q ← (parseProgram settings files b).result.mapError
                (.movePlace (.below (a.toList.count '\n' + 1)))
              return ⟨p.statements ++ q.statements⟩)) ∧
      ∀ e, parse settings files Start.program.name b = .error e →
        ∃ e', e = .parse e' ∧ parse settings files Start.program.name (joint a b) =
          .error (.parse (e'.below (a.toList.count '\n' + 1))) := by
  obtain ⟨stmts, rfl, hstmts⟩ := exists_program_of_parse hsettings ha
  have hok (u : Tree) (hu : parse settings files Start.program.name b = .ok u) :
      ∃ lower, (Sentence.program lower).tree = u ∧
        Lexes .standard .origin b.toList (lower.flatMap Stmt.tokens) ∧
        parse settings files Start.program.name (joint a b) =
          .ok (Sentence.program (stmts ++ lower.map (Stmt.relocate (.under a)))).tree := by
    obtain ⟨lower, rfl, hlower⟩ := exists_program_of_parse hsettings hu
    exact ⟨lower, rfl, hlower,
      (parse_eq_ok_iff_sentence hsettings).mpr ⟨_, rfl, rfl, lexes_joint hstmts hlower⟩⟩
  have herror (e : Error) (he : parse settings files Start.program.name b = .error e) :
      ∃ e', e = .parse e' ∧ parse settings files Start.program.name (joint a b) =
        .error (.parse (e'.below (a.toList.count '\n' + 1))) := by
    obtain ⟨e', rfl, he'⟩ := exists_parseSentence_error hsettings he
    refine ⟨e', rfl, parse_of_parseSentence_error hsettings files ?_⟩
    rw [hparser] at he' ⊢
    exact parseSentence_joint_error hstmts he'
  refine ⟨⟨?_, ?_⟩, ?_, herror⟩
  · rintro ⟨w, hw⟩
    cases hb : parse settings files Start.program.name b with
    | ok u => exact ⟨u, rfl⟩
    | error e =>
      obtain ⟨e', -, he'⟩ := herror e hb
      rw [hw] at he'
      cases he'
  · rintro ⟨u, hu⟩
    obtain ⟨lower, -, -, hw⟩ := hok u hu
    exact ⟨_, hw⟩
  · intro u hu
    obtain ⟨lower, rfl, hlower, hw⟩ := hok u hu
    refine ⟨_, hw, rfl, ?_, result_parseProgram_joint hsettings hstmts hlower⟩
    show (stmts ++ lower.map (Stmt.relocate (.under a))).map Stmt.tree = _
    rw [List.map_append, trees_stmts_relocate (movesRegions_under a)]
    rfl

/-- The upper program ends in a comment that ends with its line. Below it an empty character is
accepted and not built, and an open operator is refused on the second line. -/
theorem programs_concatenate_comment : ∃ t u, ({} : Settings).Packaged ∧
    ({} : Settings).parser = .lalr ∧
    parse {} (fun _ => none) Start.program.name "1; // one" = .ok t ∧
    parse {} (fun _ => none) Start.program.name "'';" = .ok u ∧
    (parseProgram {} (fun _ => none) (joint "1; // one" "'';")).result = (do
      let p ← (parseProgram {} (fun _ => none) "1; // one").result
      let q ← (parseProgram {} (fun _ => none) "'';").result.mapError (.movePlace (.below 1))
      return ⟨p.statements ++ q.statements⟩) ∧
    parse {} (fun _ => none) Start.program.name (joint "1; // one" "2 +") = .error (.parse
      ⟨"unexpected input for main", some 2, some 3, "2 +\n  ^\n", some .token⟩) := by
  let span (m n : Nat) : Span := ⟨⟨m, 1, m + 1⟩, ⟨n, 1, n + 1⟩⟩
  let s : Sentence := .program [⟨.single (.literal .decInt "1" (span 0 1)), span 1 2⟩]
  let s' : Sentence := .program [⟨.single (.literal .char "''" (span 0 2)), span 2 3⟩]
  have hsettings : ({} : Settings).Packaged := .inl rfl
  have hlexes : Lexes .standard .origin "1; // one".toList s.tokens := by
    rw [lexes_standard_iff]
    decide +kernel
  have hlexes' : Lexes .standard .origin "'';".toList s'.tokens := by
    rw [lexes_standard_iff]
    decide +kernel
  have hupper : parse {} (fun _ => none) Start.program.name "1; // one" = .ok s.tree :=
    (parse_eq_ok_iff_sentence hsettings).mpr ⟨s, rfl, rfl, hlexes⟩
  have hlower : parse {} (fun _ => none) Start.program.name "'';" = .ok s'.tree :=
    (parse_eq_ok_iff_sentence hsettings).mpr ⟨s', rfl, rfl, hlexes'⟩
  have hopen : parse {} (fun _ => none) Start.program.name "2 +" = .error (.parse
      ⟨"unexpected input for main", some 1, some 3, "2 +\n  ^\n", some .token⟩) := by
    rw [← errorOf?_eq_some_iff]
    decide +kernel
  obtain ⟨-, haccepted, -⟩ := programs_concatenate hsettings rfl hupper "'';"
  obtain ⟨-, -, hrefused⟩ := programs_concatenate hsettings rfl hupper "2 +"
  obtain ⟨w, -, -, -, hresult⟩ := haccepted _ hlower
  obtain ⟨e, he, hjoint⟩ := hrefused _ hopen
  cases he
  exact ⟨s.tree, s'.tree, hsettings, rfl, hupper, hlower,
    hresult (by decide +kernel) (by decide +kernel), hjoint⟩

end Programs

end RuleTree
