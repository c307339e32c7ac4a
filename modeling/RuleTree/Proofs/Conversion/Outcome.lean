import RuleTree.Proofs.Builder.Trials
import RuleTree.Proofs.Conversion.Scans
import RuleTree.Proofs.Grammar.Parsing

/-!
# What becomes of a source

A source that is accepted is built, or the first of its trials that fails is reported. What can fail
is a literal or the nesting; the grammar and the builders agree on everything else.

* `Reading.Start.outcome`: whether a source is built from a start.
* `errorOf?_outcome`: the error of an accepted source is that of the first trial that fails.
* `outcome_of_accepted`: which sources are built, and the first bad literal of any other.
-/

namespace RuleTree

open Reading Phrase

/-! ### Tokens of a source -/

theorem Token.legible_of_split {source : String} {tok : Token}
    (h : ∀ k text, tok.lexeme = .literal k text → ∃ before behind,
      source.toList = before ++ (text.toList ++ behind) ∧
        tok.span.start.offset = before.length ∧
        tok.span.stop.offset = before.length + text.toList.length) :
    tok.Legible (some (charsOf source)) := by
  intro k text hlexeme
  obtain ⟨before, behind, hsource, hstart, hstop⟩ := h k text hlexeme
  show String.ofList (slice (charsOf source) (some tok.span.start.offset)
    (some tok.span.stop.offset)) = text
  have hsize : (charsOf source).size = before.length + (text.toList.length + behind.length) := by
    rw [charsOf, List.size_toArray, hsource, List.length_append, List.length_append]
  rw [hstart, hstop, slice_natCast _ (by omega) (by omega), charsOf, hsource, ← List.append_assoc,
    List.take_left' (by rw [List.length_append]), List.drop_left, String.ofList_toList]

namespace Lexes

variable {v : Vocabulary} {ts : List Token} {tok : Token}

theorem exists_literal {m : Mark} {cs : List Char} (h : Lexes v m cs ts) (htok : tok ∈ ts)
    {k : LiteralKind} {text : String} (hlexeme : tok.lexeme = .literal k text) :
    ∃ before behind, cs = before ++ (text.toList ++ behind) ∧ k.Spells text.toList ∧
      tok.span = ⟨m.after before, (m.after before).after text.toList⟩ := by
  obtain ⟨terminal, before, chars, behind, hcs, htakes, hterminal, hspan⟩ :=
    h.exists_takes_of_mem htok
  rw [hlexeme] at hterminal
  cases terminal with
  | literal k' =>
    cases hterminal
    rw [String.toList_ofList]
    exact ⟨before, behind, hcs, htakes.spells, hspan⟩
  | fixed l =>
    cases hterminal
    exact absurd htakes.mem_fixedLexemes (by simp [Vocabulary.fixedLexemes])
  | blank => cases hterminal
  | comment => cases hterminal

theorem spelled {m : Mark} {cs : List Char} (h : Lexes v m cs ts) (htok : tok ∈ ts) :
    tok.Spelled := by
  intro k text hlexeme
  obtain ⟨-, -, -, hspells, -⟩ := h.exists_literal htok hlexeme
  exact hspells

theorem legible {source : String} (h : Lexes v .origin source.toList ts) (htok : tok ∈ ts) :
    tok.Legible (some (charsOf source)) := by
  refine Token.legible_of_split fun k text hlexeme => ?_
  obtain ⟨before, behind, hsource, -, hspan⟩ := h.exists_literal htok hlexeme
  have hstart : tok.span.start.offset = before.length := by
    rw [hspan, Mark.offset_after]
    exact Nat.zero_add _
  refine ⟨before, behind, hsource, hstart, ?_⟩
  rw [hspan, Mark.offset_after, ← hstart, hspan]

end Lexes

/-! ### Accepted sources -/

variable {settings : Settings} {files : String → Option Vocabulary} {start : Start}
  {source : String} {t : Tree}

theorem parse_eq_ok_iff_sentence (hsettings : settings.Packaged) :
    parse settings files start.name source = .ok t ↔
      ∃ s : Sentence, s.start = start ∧ s.tree = t ∧
        Lexes .standard .origin source.toList s.tokens := by
  rw [parse_packaged hsettings, parseTree]
  constructor
  · intro hparse
    cases hsentence : parseSentence settings.parser .standard start source with
    | error e =>
      rw [hsentence] at hparse
      cases hparse
    | ok s =>
      rw [hsentence] at hparse
      cases hparse
      obtain ⟨hstart, hlexes⟩ := parseSentence_eq_ok_iff.mp hsentence
      exact ⟨s, hstart, rfl, hlexes⟩
  · rintro ⟨s, hstart, rfl, hlexes⟩
    rw [parseSentence_eq_ok_iff.mpr ⟨hstart, hlexes⟩]
    rfl

theorem lexes_unique {m : Mark} {cs : List Char} {ts us : List Token}
    (hts : Lexes .standard m cs ts) (hus : Lexes .standard m cs us) : ts = us := by
  have h := (words_of_lexes hts).2
  rw [(words_of_lexes hus).2] at h
  exact ((List.map_inj_right fun _ _ => word_injective).mp h).symm

/-- The node at the root of the tree of a source. -/
def rootSite? (source : String) (t : Tree) : Option Site :=
  (t.branches (some (charsOf source))).head?.map (·.site)

theorem ofTree_at (settings : Settings) (source : Option (Array Char)) (t : Tree) :
    (Cursor.ofTree settings source t).At settings (t.branches source) :=
  ⟨Cursor.over_ofTree settings source t, rfl⟩

theorem peek?_ofTree (settings : Settings) (source : String) (t : Tree) :
    (Cursor.ofTree settings (some (charsOf source)) t).peek?.map (·.entry.site) =
      rootSite? source t := by
  have hc := ofTree_at settings (some (charsOf source)) t
  unfold rootSite?
  cases hbranches : t.branches (some (charsOf source)) with
  | nil =>
    rw [hbranches] at hc
    rw [Cursor.peek?, hc.segment.ahead_nil]
    rfl
  | cons b bs =>
    rw [hbranches] at hc
    obtain ⟨i, hi, hsite, -⟩ := hc.exists_item
    rw [hi]
    exact congrArg some hsite

theorem result_convertWith_of_yields {α : Type} {b : Builder α} {kind : Kind}
    {r : Except Failure α} {rest : List Branch}
    (hb : Builder.Yields settings rest
      (b (Cursor.ofTree settings (some (charsOf source)) t)) r) :
    (convertWith b kind settings (some source) t).result =
      r.mapError fun e => .build (e.atRoot kind (rootSite? source t)) := by
  simp only [convertWith, convertFrom, Option.map_some, hb.result_eq, peek?_ofTree]
  cases r <;> rfl

theorem result_parseWith {α : Type} {b : Builder α} {kind : Kind} {r : Except Failure α}
    {rest : List Branch} (hparse : parse settings files start.name source = .ok t)
    (hb : Builder.Yields settings rest
      (b (Cursor.ofTree settings (some (charsOf source)) t)) r) :
    (parseWith b kind start settings files source).result =
      r.mapError fun e => .build (e.atRoot kind (rootSite? source t)) := by
  simp only [parseWith, hparse]
  rw [convertRoot_eq, Option.map_some, if_pos (scannable_of_parse hparse)]
  exact result_convertWith_of_yields hb

theorem result_parseWith_error {α : Type} {b : Builder α} {kind : Kind} {e : Error}
    (hparse : parse settings files start.name source = .error e) :
    (parseWith b kind start settings files source).result = .error e := by
  simp only [parseWith, hparse]

theorem result_parseProgram (settings : Settings) (files : String → Option Vocabulary)
    (source : String) :
    (parseProgram settings files source).result =
      (parseWith (Builder.program defaultAllowance) .program .program settings files
        source).result := by
  unfold parseProgram
  dsimp only
  split
  · rename_i p h
    rw [h]
  · rfl

theorem result_parseExpression_of_parse {e : Expr}
    (hparse : parse settings files Start.expr.name source = .ok e.tree)
    (hlegible : ∀ tok ∈ e.tokens, tok.Legible (some (charsOf source))) :
    (parseExpression settings files source).result =
      (e.build settings.radixFloats defaultAllowance).mapError fun failure =>
        .build (failure.atRoot .expression (rootSite? source e.tree)) := by
  have hat := ofTree_at settings (some (charsOf source)) e.tree
  rw [e.branches_tree] at hat
  exact result_parseWith hparse (e.yields_expression hlegible defaultAllowance _ _ hat)

theorem result_parseProgram_of_parse {stmts : List Stmt}
    (hparse : parse settings files Start.program.name source = .ok (Sentence.program stmts).tree)
    (hlegible : ∀ tok ∈ stmts.flatMap Stmt.tokens, tok.Legible (some (charsOf source))) :
    (parseProgram settings files source).result =
      (buildProgram settings.radixFloats defaultAllowance stmts).mapError fun failure =>
        .build (failure.atRoot .program (rootSite? source (Sentence.program stmts).tree)) := by
  have hat := ofTree_at settings (some (charsOf source)) (Sentence.program stmts).tree
  rw [branches_program] at hat
  exact (result_parseProgram settings files source).trans
    (result_parseWith hparse (yields_program hlegible hat))

theorem result_parseExpression_of_lexes (hsettings : settings.Packaged) {e : Expr}
    (hlexes : Lexes .standard .origin source.toList e.tokens) :
    (parseExpression settings files source).result =
      (e.build settings.radixFloats defaultAllowance).mapError fun failure =>
        .build (failure.atRoot .expression (rootSite? source e.tree)) :=
  result_parseExpression_of_parse
    ((parse_eq_ok_iff_sentence hsettings).mpr ⟨.expr e, rfl, rfl, hlexes⟩)
    fun _ htok => hlexes.legible htok

theorem result_parseProgram_of_lexes (hsettings : settings.Packaged) {stmts : List Stmt}
    (hlexes : Lexes .standard .origin source.toList (stmts.flatMap Stmt.tokens)) :
    (parseProgram settings files source).result =
      (buildProgram settings.radixFloats defaultAllowance stmts).mapError fun failure =>
        .build (failure.atRoot .program (rootSite? source (Sentence.program stmts).tree)) :=
  result_parseProgram_of_parse
    ((parse_eq_ok_iff_sentence hsettings).mpr ⟨.program stmts, rfl, rfl, hlexes⟩)
    fun _ htok => hlexes.legible htok

/-- The kind that a source is built as. -/
def Reading.Start.kind : Start → Kind
  | program => .program
  | expr => .expression

/-- Whether a source is built from a start, or the error that it is refused with. -/
def Reading.Start.outcome (start : Start) (settings : Settings)
    (files : String → Option Vocabulary) (source : String) : Except Error Unit :=
  match start with
  | program => (parseProgram settings files source).result.map fun _ => ()
  | expr => (parseExpression settings files source).result.map fun _ => ()

/-- **The error of an accepted source is that of the first trial that fails.** Without one it is
built. -/
theorem errorOf?_outcome (hsettings : settings.Packaged)
    (hparse : parse settings files start.name source = .ok t) :
    errorOf? (start.outcome settings files source) =
      (t.failure? settings.radixFloats defaultAllowance).map fun e =>
        .build (e.atRoot start.kind (rootSite? source t)) := by
  obtain ⟨s, rfl, rfl, hlexes⟩ := (parse_eq_ok_iff_sentence hsettings).mp hparse
  cases s with
  | program stmts =>
    show errorOf? ((parseProgram settings files source).result.map _) = _
    rw [errorOf?_map, result_parseProgram_of_lexes hsettings hlexes, errorOf?_mapError,
      errorOf?_buildProgram stmts (fun tok htok => hlexes.spelled htok)]
    rfl
  | expr e =>
    show errorOf? ((parseExpression settings files source).result.map _) = _
    rw [errorOf?_map, result_parseExpression_of_lexes hsettings hlexes, errorOf?_mapError,
      e.errorOf?_build (fun tok htok => hlexes.spelled htok)]
    rfl

/-! ### Bad literals -/

/-- What makes a token bad, if it is a bad literal. -/
def Token.defect? (radixFloats : Bool) (tok : Token) : Option Reason :=
  match tok.lexeme with
  | .literal k text => k.defect? radixFloats text.toList
  | _ => none

/-- A decimal integer has no more digits than its decoder takes. -/
def Token.Short (tok : Token) : Prop :=
  ∀ text, tok.lexeme = .literal .decInt text → text.length ≤ maxDecimalDigits

theorem Token.failure?_of_literal {radixFloats : Bool} (tok : Token) (hshort : tok.Short)
    {k : LiteralKind} {text : String} (hlexeme : tok.lexeme = .literal k text) :
    tok.failure? radixFloats = (k.defect? radixFloats text.toList).map fun reason =>
      .fatal ⟨some (k.site text tok.span), .badLiteral (k.malformed radixFloats text reason)⟩ := by
  have hdigits : ¬(k = .decInt ∧ maxDecimalDigits < text.length) := by
    rintro ⟨rfl, hlong⟩
    have := hshort text hlexeme
    omega
  simp only [Token.failure?, hlexeme, LiteralKind.fault?, if_neg hdigits, Option.map_map]
  rfl

theorem Token.failure?_eq_none_iff {radixFloats : Bool} (tok : Token) (hshort : tok.Short) :
    tok.failure? radixFloats = none ↔ tok.defect? radixFloats = none := by
  cases hlexeme : tok.lexeme with
  | literal k text =>
    rw [tok.failure?_of_literal hshort hlexeme, Option.map_eq_none_iff, Token.defect?, hlexeme]
  | _ => simp only [Token.failure?, Token.defect?, hlexeme]

theorem errorOf?_eq_none_iff {ε : Type} {r : Except ε Unit} : errorOf? r = none ↔ r = .ok () := by
  cases r with
  | ok u => exact ⟨fun _ => rfl, fun _ => rfl⟩
  | error e => exact ⟨nofun, nofun⟩

theorem errorOf?_eq_some_iff {ε α : Type} {r : Except ε α} {e : ε} :
    errorOf? r = some e ↔ r = .error e := by
  cases r with
  | ok a => exact ⟨nofun, nofun⟩
  | error e' => exact ⟨fun h => congrArg Except.error (Option.some.inj h),
      fun h => congrArg some (Except.error.inj h)⟩

/-- Where the allowance suffices, the error of an accepted source is that of the first token that
fails. -/
theorem errorOf?_outcome_of_nesting (hsettings : settings.Packaged) {ts : List Token}
    (hlexes : Lexes .standard .origin source.toList ts)
    (hparse : parse settings files start.name source = .ok t)
    (hnesting : t.nesting ≤ defaultAllowance) :
    errorOf? (start.outcome settings files source) =
      (ts.findSome? (Token.failure? settings.radixFloats)).map fun e =>
        .build (e.atRoot start.kind (rootSite? source t)) := by
  rw [errorOf?_outcome hsettings hparse]
  obtain ⟨s, rfl, rfl, hs⟩ := (parse_eq_ok_iff_sentence hsettings).mp hparse
  rw [lexes_unique hlexes hs, s.failure?_tree hnesting]

theorem outcome_of_first_failure (hsettings : settings.Packaged) {before behind : List Token}
    {tok : Token} (hlexes : Lexes .standard .origin source.toList (before ++ tok :: behind))
    (hparse : parse settings files start.name source = .ok t)
    (hnesting : t.nesting ≤ defaultAllowance)
    (hbefore : ∀ u ∈ before, u.failure? settings.radixFloats = none) {e : Failure}
    (htok : tok.failure? settings.radixFloats = some e) :
    start.outcome settings files source =
      .error (.build (e.atRoot start.kind (rootSite? source t))) := by
  rw [← errorOf?_eq_some_iff, errorOf?_outcome_of_nesting hsettings hlexes hparse hnesting,
    List.findSome?_append, List.findSome?_eq_none_iff.mpr hbefore, Option.none_or,
    List.findSome?_cons, htok]
  rfl

theorem Trial.failure?_cases {radixFloats : Bool} {x : Trial} {e : Failure}
    (h : x.failure? radixFloats = some e) :
    (∃ site literal, e = .fatal ⟨some site, .badLiteral literal⟩) ∨ x = .tooDeep ∧ e = .tooDeep ∨
      ∃ leaf, x = .literal leaf ∧ leaf.kind = LiteralKind.decInt.name ∧
        maxDecimalDigits < leaf.text.length ∧ e = .limit (.tooManyDigits leaf.text.length) := by
  cases x with
  | tooDeep =>
    cases h
    exact .inr (.inl ⟨rfl, rfl⟩)
  | literal leaf =>
    obtain ⟨k, hk, hk'⟩ := Option.bind_eq_some_iff.mp h
    obtain ⟨fault, hfault, rfl⟩ := Option.map_eq_some_iff.mp hk'
    have hname : k.name = leaf.kind := by
      have := List.find?_some hk
      simpa using this
    unfold LiteralKind.fault? at hfault
    split at hfault
    · rename_i hlong
      cases hfault
      rw [hlong.1] at hname
      exact .inr (.inr ⟨leaf, rfl, hname.symm, hlong.2, rfl⟩)
    · obtain ⟨reason, -, rfl⟩ := Option.map_eq_some_iff.mp hfault
      exact .inl ⟨_, _, rfl⟩

theorem outcome_error_cases (hsettings : settings.Packaged)
    (hparse : parse settings files start.name source = .ok t) {e : Error}
    (h : start.outcome settings files source = .error e) :
    (∃ site literal, e = .build (.fatal ⟨some site, .badLiteral literal⟩)) ∨
      e = .build (.fatal ⟨rootSite? source t, .rootTooDeep start.kind⟩) ∨
      ∃ n, maxDecimalDigits < n ∧ e = .build (.limit (.tooManyDigits n)) := by
  have herror := errorOf?_outcome hsettings hparse
  rw [errorOf?_eq_some_iff.mpr h] at herror
  obtain ⟨failure, hfailure, rfl⟩ := Option.map_eq_some_iff.mp herror.symm
  obtain ⟨x, -, hx⟩ := List.exists_of_findSome?_eq_some hfailure
  rcases Trial.failure?_cases hx with ⟨site, literal, rfl⟩ | ⟨-, rfl⟩ | ⟨leaf, -, -, hlong, rfl⟩
  · exact .inl ⟨site, literal, rfl⟩
  · exact .inr (.inl rfl)
  · exact .inr (.inr ⟨_, hlong, rfl⟩)

theorem length_of_mapM {ε α β : Type} {f : α → Except ε β} {xs : List α} {ys : List β}
    (h : xs.mapM f = .ok ys) : ys.length = xs.length := by
  induction xs generalizing ys with
  | nil =>
    cases h
    rfl
  | cons x xs ih =>
    rw [List.mapM_cons] at h
    cases hx : f x with
    | error e =>
      rw [hx] at h
      cases h
    | ok y =>
      cases hxs : xs.mapM f with
      | error e =>
        rw [hx, hxs] at h
        cases h
      | ok ys' =>
        rw [hx, hxs] at h
        cases h
        rw [List.length_cons, List.length_cons, ih hxs]

theorem length_statements (hsettings : settings.Packaged) {ts : List Token}
    (hlexes : Lexes .standard .origin source.toList ts) {p : Program}
    (h : (parseProgram settings files source).result = .ok p) :
    p.statements.length = ts.countP (·.lexeme = .semicolon) := by
  cases hparse : parse settings files Start.program.name source with
  | error e =>
    rw [result_parseProgram, result_parseWith_error hparse] at h
    cases h
  | ok t =>
    obtain ⟨s, hstart, rfl, hs⟩ := (parse_eq_ok_iff_sentence hsettings).mp hparse
    cases s with
    | expr e => cases hstart
    | program stmts =>
      rw [result_parseProgram_of_lexes hsettings hs, buildProgram] at h
      cases hstmts : stmts.mapM (Stmt.build settings.radixFloats defaultAllowance) with
      | error e =>
        rw [hstmts] at h
        cases h
      | ok statements =>
        rw [hstmts] at h
        cases h
        rw [lexes_unique hlexes hs]
        exact (length_of_mapM hstmts).trans (countP_semicolon stmts).symm

/-- **The grammar and the builders agree.** A source that is accepted from a start, is not nested
too deep and has no overlong decimal integer is built exactly if none of its tokens is a bad
literal, and otherwise the first bad one is reported with its rule, text and place. No accepted
source fails in any other way, and a program has a statement for each semicolon. -/
theorem outcome_of_accepted (hsettings : settings.Packaged) {ts : List Token}
    (hlexes : Lexes .standard .origin source.toList ts)
    (hparse : parse settings files start.name source = .ok t) :
    (t.nesting ≤ defaultAllowance → (∀ tok ∈ ts, tok.Short) →
      (start.outcome settings files source = .ok () ↔
        ∀ tok ∈ ts, tok.defect? settings.radixFloats = none) ∧
      ∀ before tok behind, ts = before ++ tok :: behind →
        (∀ u ∈ before, u.defect? settings.radixFloats = none) →
        ∀ k text reason, tok.lexeme = .literal k text →
          k.defect? settings.radixFloats text.toList = some reason →
          start.outcome settings files source = .error (.build (.fatal
            ⟨some (k.site text tok.span),
              .badLiteral (k.malformed settings.radixFloats text reason)⟩))) ∧
    (∀ e, start.outcome settings files source = .error e →
      (∃ site literal, e = .build (.fatal ⟨some site, .badLiteral literal⟩)) ∨
        e = .build (.fatal ⟨rootSite? source t, .rootTooDeep start.kind⟩) ∨
        ∃ n, maxDecimalDigits < n ∧ e = .build (.limit (.tooManyDigits n))) ∧
    ∀ p, (parseProgram settings files source).result = .ok p →
      p.statements.length = ts.countP (·.lexeme = .semicolon) := by
  refine ⟨fun hnesting hshort => ⟨?_, ?_⟩, fun e => outcome_error_cases hsettings hparse,
    fun p => length_statements hsettings hlexes⟩
  · rw [← errorOf?_eq_none_iff, errorOf?_outcome_of_nesting hsettings hlexes hparse hnesting,
      Option.map_eq_none_iff, List.findSome?_eq_none_iff]
    constructor
    · intro h tok htok
      exact (tok.failure?_eq_none_iff (hshort tok htok)).mp (h tok htok)
    · intro h tok htok
      exact (tok.failure?_eq_none_iff (hshort tok htok)).mpr (h tok htok)
  · rintro before tok behind rfl hbefore k text reason hlexeme hreason
    have htok : tok.failure? settings.radixFloats = _ :=
      tok.failure?_of_literal (hshort tok (by simp)) hlexeme
    rw [hreason] at htok
    exact outcome_of_first_failure hsettings hlexes hparse hnesting
      (fun u hu => (u.failure?_eq_none_iff
        (hshort u (List.mem_append_left _ hu))).mpr (hbefore u hu)) htok

/-- The only bad literal in this program is the empty character. -/
theorem outcome_of_accepted_empty_char : ∃ ts t, ({} : Settings).Packaged ∧
    Lexes .standard .origin "1 + '';".toList ts ∧
    parse {} (fun _ => none) Start.program.name "1 + '';" = .ok t ∧
    Start.program.outcome {} (fun _ => none) "1 + '';" = .error (.build (.fatal
      ⟨some ⟨"char", "''", ⟨some 1, some 5⟩⟩, .badLiteral ⟨"''", .emptyChar, false⟩⟩)) := by
  let span (m n : Nat) : Span := ⟨⟨m, 1, m + 1⟩, ⟨n, 1, n + 1⟩⟩
  let one : Token := ⟨.literal .decInt "1", span 0 1⟩
  let plus : Token := ⟨.operator .add, span 2 3⟩
  let empty : Token := ⟨.literal .char "''", span 4 6⟩
  let semicolon : Token := ⟨.semicolon, span 6 7⟩
  let s : Sentence := .program [⟨.binary (.literal .decInt "1" (span 0 1)) .add (span 2 3)
    (.literal .char "''" (span 4 6)), span 6 7⟩]
  have hsettings : ({} : Settings).Packaged := .inl rfl
  have hlexes : Lexes .standard .origin "1 + '';".toList [one, plus, empty, semicolon] := by
    rw [lexes_standard_iff]
    decide +kernel
  have hparse : parse {} (fun _ => none) Start.program.name "1 + '';" = .ok s.tree :=
    (parse_eq_ok_iff_sentence hsettings).mpr ⟨s, rfl, rfl, hlexes⟩
  have hshort : ∀ tok ∈ [one, plus, empty, semicolon], tok.Short := by
    intro tok htok text hlexeme
    have htext : text = "1" := by
      simp only [List.mem_cons, List.not_mem_nil, or_false] at htok
      rcases htok with rfl | rfl | rfl | rfl <;> cases hlexeme
      rfl
    rw [htext]
    decide
  have hnesting : s.tree.nesting ≤ defaultAllowance := by decide +kernel
  have hbefore : ∀ tok ∈ [one, plus], tok.defect? false = none := by decide +kernel
  have hempty : LiteralKind.char.defect? false "''".toList = some .emptyChar := by decide
  refine ⟨_, _, hsettings, hlexes, hparse, ?_⟩
  exact ((outcome_of_accepted hsettings hlexes hparse).1 hnesting hshort).2 [one, plus] empty
    [semicolon] rfl hbefore .char "''" .emptyChar rfl hempty

end RuleTree
