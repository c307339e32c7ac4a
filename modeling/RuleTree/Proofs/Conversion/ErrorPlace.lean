import RuleTree.Proofs.Conversion.Rejection
import RuleTree.Proofs.Source.Line

/-!
# Reports of parse errors

What is reported of a source is its first error. The place that the report names is a place of the
source, the same whatever the algorithm, and its context shows the line that it is on. The only
reports without a place are those of one algorithm for sources that end too early.

* `ParseError.PointsAt`, `ParseError.PointsNowhere`: the error names a place on a line of the source,
  or none.
* `FirstError.exists_split`: the place of a first error divides the source.
* `earliest_error`: the cause, the place and the context that are reported.
* `parseError_place`: the places of all errors.
-/

namespace RuleTree

open Grammar Reading

/-- The error names the line and the column, the line is the given text, and the context shows it
around the column: no more than forty characters on either side, with a mark below. -/
structure ParseError.PointsAt (e : ParseError) (source : String) (line column : Nat)
    (text : List Char) : Prop where
  line_eq : e.line = some line
  column_eq : e.column = some column
  line_pos : 1 ≤ line
  line_le : line ≤ 1 + source.toList.count '\n'
  text_eq : (source.toList.splitOn '\n')[line - 1]? = some text
  column_pos : 1 ≤ column
  column_le : column ≤ text.length + 1
  context_eq :
    let before := (text.take (column - 1)).drop (column - 1 - 40)
    let behind := (text.drop (column - 1)).take 40
    e.context = String.ofList (before ++ behind ++
      '\n' :: List.replicate (ParseError.displayWidth 0 before) ' ' ++ ['^', '\n'])

/-- The error names no place, and the context shows what stands last in the source: the last line, of
which the last character is left out if there are more than thirty-nine characters. -/
structure ParseError.PointsNowhere (e : ParseError) (source : String) : Prop where
  line_eq : e.line = some (-1)
  column_eq : e.column = some (-1)
  context_eq :
    let chars := source.toList
    let before := (chars.dropLast.reverse.takeWhile (· ≠ '\n')).reverse
    let last := if chars.length ≤ 39 then chars.drop (chars.length - 1) else []
    e.context = String.ofList (before ++ last.takeWhile (· ≠ '\n') ++
      '\n' :: List.replicate (ParseError.displayWidth 0 before) ' ' ++ ['^', '\n'])

theorem ParseError.pointsAt_atMark {source : String} {cs rest : List Char}
    (hsource : source.toList = cs ++ rest) (start : Start) (cause : ParseCause) :
    (ParseError.atMark (charsOf source) start cause (Mark.origin.after cs)).PointsAt source
      (Mark.origin.after cs).line (Mark.origin.after cs).column
      (lastLine cs ++ firstLine rest) := by
  have hline := line_origin_after cs
  have hcolumn := column_origin_after cs
  have hoffset : (Mark.origin.after cs).offset = cs.length := by
    rw [Mark.offset_after]
    exact Nat.zero_add _
  have hbefore : (Mark.origin.after cs).column - 1 = (lastLine cs).length := by omega
  refine ⟨rfl, rfl, by omega, ?_, ?_, by omega, ?_, ?_⟩
  · rw [hline, hsource, List.count_append]
    omega
  · rw [hline, Nat.add_sub_cancel_left, hsource, getElem?_splitOn]
  · rw [List.length_append]
    omega
  · have hcontext := contextAt_eq hsource
    rw [← hoffset] at hcontext
    rw [hbefore, List.take_left, List.drop_left]
    exact hcontext

/-- The place of a first error is that behind a part of the source. -/
theorem FirstError.exists_split {start : Start} {source : String} {cause : ParseCause} {m : Mark}
    (h : FirstError start source cause m) :
    ∃ cs rest, source.toList = cs ++ rest ∧ m = Mark.origin.after cs := by
  cases h with
  | @token cs rest before tok hsource hcuts hviable hrefused =>
    obtain ⟨front, back, rfl, -, hback, -⟩ := hcuts.exists_split
    obtain ⟨gap, behind, rfl, -, -, hstart, -⟩ := hback.exists_skip
    refine ⟨front ++ gap, behind ++ rest, ?_, ?_⟩
    · rw [hsource]
      simp only [List.append_assoc]
    · rw [hstart, Mark.after_append]
  | character hsource hcuts hviable hrest hnone => exact ⟨_, _, hsource, rfl⟩
  | @ending ts hlexes hviable hincomplete =>
    cases hlast : ts.getLast? with
    | none => exact ⟨[], source.toList, rfl, rfl⟩
    | some tok =>
      obtain ⟨t, before, text, behind, hsource, -, -, hspan⟩ :=
        hlexes.exists_takes_of_mem (List.mem_of_getLast? hlast)
      exact ⟨before, text ++ behind, hsource, congrArg Span.start hspan⟩

theorem FirstError.exists_before {start : Start} {source : String} {cause : ParseCause} {m : Mark}
    (h : FirstError start source cause m) :
    ∃ before behind, source.toList = before ++ behind ∧ m.offset = before.length ∧
      m.line = 1 + before.count '\n' ∧
      m.column = 1 + (before.reverse.takeWhile (· ≠ '\n')).length := by
  obtain ⟨before, behind, hsource, rfl⟩ := h.exists_split
  refine ⟨before, behind, hsource, ?_, ParseError.line_origin_after before, ?_⟩
  · rw [Mark.offset_after]
    exact Nat.zero_add _
  · rw [ParseError.column_origin_after, ParseError.lastLine, List.length_reverse, Nat.add_comm]

/-- **What is reported is the first error of the source.** Both algorithms report a token or a
character alike, at the place where it stands and with the line around it. Where the source ends too
early, one names its last token, or its beginning if there is none, and the other only that it
ends. -/
theorem earliest_error {settings : Settings} (hsettings : settings.Packaged)
    (files : String → Option Vocabulary) (start : Start) {source : String}
    (h : ∀ t, parse settings files start.name source ≠ .ok t) :
    (∃ cause m, FirstError start source cause m) ∧
      ∀ cause m, FirstError start source cause m →
        (∃ before behind, source.toList = before ++ behind ∧ m.offset = before.length ∧
          m.line = 1 + before.count '\n' ∧
          m.column = 1 + (before.reverse.takeWhile (· ≠ '\n')).length) ∧
        (cause ≠ .ending → ∃ e text,
          (∀ kind, parse { settings with parser := kind } files start.name source =
            .error (.parse e)) ∧
          e.cause = some cause ∧ e.bare = "unexpected input for " ++ start.name ∧
          e.PointsAt source m.line m.column text) ∧
        (cause = .ending →
          (∃ e text, parse { settings with parser := .lalr } files start.name source =
              .error (.parse e) ∧
            e.cause = some .token ∧ e.bare = "unexpected input for " ++ start.name ∧
            e.PointsAt source m.line m.column text) ∧
          ∃ e, parse { settings with parser := .earley } files start.name source =
              .error (.parse e) ∧
            e.cause = some .ending ∧ e.bare = "unexpected input for " ++ start.name ∧
            e.PointsNowhere source) := by
  refine ⟨exists_firstError_of_rejected hsettings h, fun cause m hfirst => ?_⟩
  have hbefore := hfirst.exists_before
  have hpackaged (kind : ParserKind) : ({ settings with parser := kind } : Settings).Packaged :=
    hsettings
  obtain ⟨cs, rest, hsource, rfl⟩ := hfirst.exists_split
  refine ⟨hbefore, fun hne => ?_, fun hending => ⟨?_, ?_⟩⟩
  · exact ⟨_, _, fun kind => parse_of_parseSentence_error (hpackaged kind) files
      ((hfirst.parseSentence_eq kind).1 hne), rfl, rfl,
      ParseError.pointsAt_atMark hsource start cause⟩
  · exact ⟨_, _, parse_of_parseSentence_error (hpackaged .lalr) files
      ((hfirst.parseSentence_eq .lalr).2.1 hending rfl), rfl, rfl,
      ParseError.pointsAt_atMark hsource start .token⟩
  · exact ⟨_, parse_of_parseSentence_error (hpackaged .earley) files
      ((hfirst.parseSentence_eq .earley).2.2 hending rfl), rfl, rfl, rfl, rfl,
      ParseError.contextAt_end source.toList⟩

/-- A number stands where none can, and the character behind it does not matter. -/
theorem earliest_error_number :
    ({} : Settings).Packaged ∧
      (∀ t, parse {} (fun _ => none) Start.expr.name "(1 + 2 3 $" ≠ .ok t) ∧
      ∃ m e text, FirstError .expr "(1 + 2 3 $" .token m ∧ m.line = 1 ∧ m.column = 8 ∧
        (∀ kind, parse { parser := kind } (fun _ => none) Start.expr.name "(1 + 2 3 $" =
          .error (.parse e)) ∧
        e.cause = some .token ∧ e.line = some 1 ∧ e.column = some 8 ∧
        e.context = "(1 + 2 3 $\n       ^\n" ∧ e.PointsAt "(1 + 2 3 $" 1 8 text := by
  have hsettings : ({} : Settings).Packaged := Or.inl rfl
  have hsentence (kind : ParserKind) : errorOf? (parseSentence kind .standard .expr "(1 + 2 3 $") =
      some ⟨"unexpected input for expr", some 1, some 8, "(1 + 2 3 $\n       ^\n", some .token⟩ := by
    cases kind <;> decide +kernel
  have hpackaged (kind : ParserKind) : ({ parser := kind } : Settings).Packaged := Or.inl rfl
  have hparse (kind : ParserKind) :=
    parse_of_parseSentence_error (hpackaged kind) (fun _ => none)
      (errorOf?_eq_some_iff.mp (hsentence kind))
  have hrejected : ∀ t, parse {} (fun _ => none) Start.expr.name "(1 + 2 3 $" ≠ .ok t := by
    intro t ht
    rw [hparse .lalr] at ht
    cases ht
  obtain ⟨⟨cause, m, hfirst⟩, hreport⟩ := earliest_error hsettings (fun _ => none) .expr hrejected
  obtain ⟨-, hplain, hending⟩ := hreport cause m hfirst
  have hne : cause ≠ .ending := by
    intro hcause
    obtain ⟨-, e, he, hcause, -⟩ := hending hcause
    rw [hparse .earley] at he
    cases he
    cases hcause
  obtain ⟨e, text, hsame, hcause, -, hat⟩ := hplain hne
  have herror : e = _ := Error.parse.inj (Except.error.inj ((hsame .earley).symm.trans
    (hparse .earley)))
  have hline := hat.line_eq
  have hcolumn := hat.column_eq
  rw [herror] at hcause hline hcolumn
  obtain rfl : cause = .token := (Option.some.inj hcause).symm
  have hline : m.line = 1 := (Int.ofNat_inj.mp (Option.some.inj hline)).symm
  have hcolumn : m.column = 8 := (Int.ofNat_inj.mp (Option.some.inj hcolumn)).symm
  rw [hline, hcolumn] at hat
  refine ⟨hsettings, hrejected, m, e, text, hfirst, hline, hcolumn, hsame, ?_⟩
  rw [herror] at hat ⊢
  exact ⟨rfl, rfl, rfl, rfl, hat⟩

/-- **A parse error names a real place of the source, unless it is that of a premature end.** There
one of the algorithms names the place of the last token, and the other names line and column minus
one, which no source has. Every other error is at one place for both. -/
theorem parseError_place {settings : Settings} (hsettings : settings.Packaged)
    (files : String → Option Vocabulary) (start : Start) {source : String}
    (h : ∀ t, parse settings files start.name source ≠ .ok t) :
    ∃ cause m text, FirstError start source cause m ∧
      (∀ kind, kind = .lalr ∨ cause ≠ .ending →
        ∃ e, parse { settings with parser := kind } files start.name source = .error (.parse e) ∧
          e.PointsAt source m.line m.column text) ∧
      (cause = .ending →
        ∃ e, parse { settings with parser := .earley } files start.name source = .error (.parse e) ∧
          e.line = some (-1) ∧ e.column = some (-1)) := by
  obtain ⟨cause, m, hfirst⟩ := exists_firstError_of_rejected hsettings h
  obtain ⟨cs, rest, hsource, rfl⟩ := hfirst.exists_split
  have hpackaged (kind : ParserKind) : ({ settings with parser := kind } : Settings).Packaged :=
    hsettings
  refine ⟨cause, _, ParseError.lastLine cs ++ ParseError.firstLine rest, hfirst,
    fun kind hkind => ?_, fun hending => ?_⟩
  · by_cases hcause : cause = .ending
    · obtain rfl : kind = .lalr := hkind.resolve_right fun hne => hne hcause
      have hsentence := (hfirst.parseSentence_eq .lalr).2.1 hcause rfl
      exact ⟨_, parse_of_parseSentence_error (hpackaged .lalr) files hsentence,
        ParseError.pointsAt_atMark hsource start .token⟩
    · have hsentence := (hfirst.parseSentence_eq kind).1 hcause
      exact ⟨_, parse_of_parseSentence_error (hpackaged kind) files hsentence,
        ParseError.pointsAt_atMark hsource start cause⟩
  · have hsentence := (hfirst.parseSentence_eq .earley).2.2 hending rfl
    exact ⟨_, parse_of_parseSentence_error (hpackaged .earley) files hsentence, rfl, rfl⟩

/-- The semicolon behind the number on the second line is missing. -/
theorem parseError_place_number :
    ({} : Settings).Packaged ∧
      (∀ t, parse {} (fun _ => none) Start.program.name "1;\n2" ≠ .ok t) ∧
      ∃ e text, parse {} (fun _ => none) Start.program.name "1;\n2" = .error (.parse e) ∧
        e.PointsAt "1;\n2" 2 1 text := by
  have hsettings : ({} : Settings).Packaged := Or.inl rfl
  have hsentence : errorOf? (parseSentence .lalr .standard .program "1;\n2") =
      some ⟨"unexpected input for main", some 2, some 1, "2\n^\n", some .token⟩ := by
    decide +kernel
  have hparse := parse_of_parseSentence_error hsettings (fun _ => none)
    (errorOf?_eq_some_iff.mp hsentence)
  have hrejected : ∀ t, parse {} (fun _ => none) Start.program.name "1;\n2" ≠ .ok t := by
    intro t ht
    rw [hparse] at ht
    cases ht
  obtain ⟨cause, m, text, -, hpoints, -⟩ :=
    parseError_place hsettings (fun _ => none) .program hrejected
  obtain ⟨e, he, hat⟩ := hpoints .lalr (.inl rfl)
  have herror : e = _ := Error.parse.inj (Except.error.inj (he.symm.trans hparse))
  have hline : m.line = 2 := by
    have hline := hat.line_eq
    rw [herror] at hline
    exact (Int.ofNat_inj.mp (Option.some.inj hline)).symm
  have hcolumn : m.column = 1 := by
    have hcolumn := hat.column_eq
    rw [herror] at hcolumn
    exact (Int.ofNat_inj.mp (Option.some.inj hcolumn)).symm
  rw [hline, hcolumn] at hat
  exact ⟨hsettings, hrejected, e, text, he, hat⟩

/-- The other algorithm names line minus one for the same source. -/
theorem parseError_place_missing :
    ∃ e, parse { parser := .earley } (fun _ => none) Start.program.name "1;\n2" =
        .error (.parse e) ∧
      e.line = some (-1) ∧ e.column = some (-1) ∧
      ∀ line column text, ¬ e.PointsAt "1;\n2" line column text := by
  have hsettings : ({ parser := .earley } : Settings).Packaged := Or.inl rfl
  have hsentence : errorOf? (parseSentence .earley .standard .program "1;\n2") =
      some ⟨"unexpected input for main", some (-1), some (-1), "2\n^\n", some .ending⟩ := by
    decide +kernel
  refine ⟨_, parse_of_parseSentence_error hsettings (fun _ => none)
    (errorOf?_eq_some_iff.mp hsentence), rfl, rfl, fun line column text hat => ?_⟩
  have hline : (-1 : Int) = line := Option.some.inj hat.line_eq
  omega

end RuleTree
