import RuleTree.Proofs.Conversion.Outcome
import RuleTree.Proofs.Source.Taking

/-!
# The limit of the decoder of decimal integers

A source comes out as typed syntax, as a parse error or as a fatal error, with one exception. The
decoder of decimal integers gives up on a text with too many digits, and what it reports then is
none of these.

* `parse_digits`: a source of digits is a decimal integer, however many they are.
* `outcome_classified`: how a source can come out, and when the decoder gives up on it.
* `outcome_escapes`: it does give up.
-/

namespace RuleTree

open Reading Phrase

/-! ### Sources of digits -/

theorem parse_digits {digits : List Char} (hdigits : ∀ c ∈ digits, isDecimalDigit c = true)
    {settings : Settings} (hsettings : settings.Packaged) (files : String → Option Vocabulary)
    (hne : digits ≠ []) :
    ∃ p, parse settings files Start.expr.name (String.ofList digits) =
      .ok (Sentence.expr (.single (.literal .decInt (String.ofList digits) p))).tree := by
  have hspells : LiteralKind.decInt.Spells digits := ⟨digits, rfl, hne, hdigits⟩
  have hends : NumberEnds [] := by
    intro c hc
    cases hc
  have htakes : Vocabulary.standard.Takes (.literal .decInt) digits [] :=
    Vocabulary.takes_literal hspells fun _ => hends
  refine ⟨⟨.origin, Mark.origin.after digits⟩, (parse_eq_ok_iff_sentence hsettings).mpr
    ⟨_, rfl, rfl, ?_⟩⟩
  have hlexes := Lexes.piece (m := .origin) htakes (.ending _)
  rw [List.append_nil] at hlexes
  rw [String.toList_ofList]
  exact hlexes

theorem trials_decInt (text : String) (p : Span) (a : Nat) :
    (Sentence.expr (.single (.literal .decInt text p))).tree.trials a =
      [.literal ⟨LiteralKind.decInt.name, text, .ofSpan p⟩] := by
  refine (Tree.trials_of_cost rfl _ a).trans ?_
  rw [Tree.trialsOf, Tree.trialsOf, List.append_nil, Tree.trials_literal]

/-! ### How sources come out -/

variable {settings : Settings} {files : String → Option Vocabulary} {start : Start}
  {source : String}

theorem outcome_of_parse_error (hsettings : settings.Packaged) {e : Error}
    (hparse : parse settings files start.name source = .error e) :
    ∃ e, start.outcome settings files source = .error (.parse e) := by
  have herror : ∃ e', e = .parse e' := by
    rw [parse_packaged hsettings] at hparse
    cases htree : parseTree settings.parser .standard start source with
    | error e' =>
      rw [htree] at hparse
      cases hparse
      exact ⟨e', rfl⟩
    | ok t =>
      rw [htree] at hparse
      cases hparse
  obtain ⟨e', rfl⟩ := herror
  refine ⟨e', ?_⟩
  cases start with
  | program =>
    have h : (parseProgram settings files source).result = .error (.parse e') :=
      (result_parseProgram ..).trans (result_parseWith_error hparse)
    rw [Start.outcome, h]
    rfl
  | expr =>
    have h : (parseExpression settings files source).result = .error (.parse e') :=
      result_parseWith_error hparse
    rw [Start.outcome, h]
    rfl

/-- A decoder gives up on an accepted source when the first trial that fails is an overlong decimal
integer. -/
theorem outcome_limit_iff_of_accepted (hsettings : settings.Packaged) {t : Tree}
    (hparse : parse settings files start.name source = .ok t) (n : Nat) :
    start.outcome settings files source = .error (.build (.limit (.tooManyDigits n))) ↔
      ∃ before leaf behind, t.trials defaultAllowance = before ++ .literal leaf :: behind ∧
        (∀ x ∈ before, x.failure? settings.radixFloats = none) ∧
        leaf.kind = LiteralKind.decInt.name ∧ leaf.text.length = n ∧ maxDecimalDigits < n := by
  have herror := errorOf?_outcome hsettings hparse
  constructor
  · intro h
    rw [errorOf?_eq_some_iff.mpr h] at herror
    obtain ⟨failure, hfailure, hlimit⟩ := Option.map_eq_some_iff.mp herror.symm
    obtain ⟨before, x, behind, htrials, hx, hbefore⟩ := List.findSome?_eq_some_iff.mp hfailure
    rcases Trial.failure?_cases hx with ⟨site, literal, rfl⟩ | ⟨-, rfl⟩ |
      ⟨leaf, rfl, hkind, hlong, rfl⟩
    · cases hlimit
    · cases hlimit
    · cases hlimit
      exact ⟨before, leaf, behind, htrials, hbefore, hkind, rfl, hlong⟩
  · rintro ⟨before, leaf, behind, htrials, hbefore, hkind, rfl, hlong⟩
    have hleaf : leaf.failure? settings.radixFloats =
        some (.limit (.tooManyDigits leaf.text.length)) := by
      rw [Leaf.failure?, hkind, LiteralKind.ofName?_name, Option.bind_some, LiteralKind.fault?,
        if_pos ⟨rfl, hlong⟩]
      rfl
    have hfailure : t.failure? settings.radixFloats defaultAllowance =
        some (.limit (.tooManyDigits leaf.text.length)) :=
      List.findSome?_eq_some_iff.mpr ⟨before, _, behind, htrials, hleaf, hbefore⟩
    rw [hfailure] at herror
    exact errorOf?_eq_some_iff.mp herror

theorem outcome_of_bad_literal (hsettings : settings.Packaged) {before behind : List Token}
    {tok : Token} (hlexes : Lexes .standard .origin source.toList (before ++ tok :: behind))
    {t : Tree} (hparse : parse settings files start.name source = .ok t)
    (hnesting : t.nesting ≤ defaultAllowance)
    (hbefore : ∀ u ∈ before, u.failure? settings.radixFloats = none) {k : LiteralKind}
    {text : String} {reason : Reason} (hlexeme : tok.lexeme = .literal k text)
    (hreason : k.defect? settings.radixFloats text.toList = some reason) :
    start.outcome settings files source = .error (.build
      (if k = .decInt ∧ maxDecimalDigits < text.length then .limit (.tooManyDigits text.length)
      else .fatal ⟨some (k.site text tok.span),
        .badLiteral (k.malformed settings.radixFloats text reason)⟩)) := by
  by_cases hlong : k = .decInt ∧ maxDecimalDigits < text.length
  · rw [if_pos hlong]
    refine outcome_of_first_failure hsettings hlexes hparse hnesting hbefore
      (e := .limit (.tooManyDigits text.length)) ?_
    simp only [Token.failure?, hlexeme, LiteralKind.fault?, if_pos hlong, Option.map_some]
    rfl
  · rw [if_neg hlong]
    refine outcome_of_first_failure hsettings hlexes hparse hnesting hbefore
      (e := .fatal ⟨some (k.site text tok.span), .badLiteral (k.malformed _ text reason)⟩) ?_
    simp only [Token.failure?, hlexeme, LiteralKind.fault?, if_neg hlong, hreason, Option.map_some]
    rfl

/-- **How a source can come out.** It is built, or there is a parse error or a fatal error, unless a
decoder gives up; and that happens exactly when the source is accepted and the first trial of its
tree that fails is a decimal integer with too many digits. Where the allowance suffices, a bad
literal before which no token fails is reported with its rule, text and place otherwise. -/
theorem outcome_classified (hsettings : settings.Packaged) (files : String → Option Vocabulary)
    (start : Start) (source : String) :
    (start.outcome settings files source = .ok () ∨
        (∃ e, start.outcome settings files source = .error (.parse e)) ∨
        (∃ e, start.outcome settings files source = .error (.build (.fatal e))) ∨
        ∃ n, start.outcome settings files source =
          .error (.build (.limit (.tooManyDigits n)))) ∧
      (∀ n, start.outcome settings files source = .error (.build (.limit (.tooManyDigits n))) ↔
        ∃ t before leaf behind, parse settings files start.name source = .ok t ∧
          t.trials defaultAllowance = before ++ .literal leaf :: behind ∧
          (∀ x ∈ before, x.failure? settings.radixFloats = none) ∧
          leaf.kind = LiteralKind.decInt.name ∧ leaf.text.length = n ∧ maxDecimalDigits < n) ∧
      ∀ t before tok behind, parse settings files start.name source = .ok t →
        t.nesting ≤ defaultAllowance →
        Lexes .standard .origin source.toList (before ++ tok :: behind) →
        (∀ u ∈ before, u.failure? settings.radixFloats = none) →
        ∀ k text reason, tok.lexeme = .literal k text →
          k.defect? settings.radixFloats text.toList = some reason →
          start.outcome settings files source = .error (.build
            (if k = .decInt ∧ maxDecimalDigits < text.length then
              .limit (.tooManyDigits text.length)
            else .fatal ⟨some (k.site text tok.span),
              .badLiteral (k.malformed settings.radixFloats text reason)⟩)) := by
  cases hparse : parse settings files start.name source with
  | error e =>
    obtain ⟨e', he'⟩ := outcome_of_parse_error hsettings hparse
    rw [he']
    refine ⟨.inr (.inl ⟨e', rfl⟩), fun n => ⟨nofun, ?_⟩, fun t _ _ _ ht => nomatch ht⟩
    rintro ⟨t, before, leaf, behind, ⟨⟩, -⟩
  | ok t =>
    refine ⟨?_, ?_, ?_⟩
    · cases houtcome : start.outcome settings files source with
      | ok u => exact .inl rfl
      | error e =>
        rcases outcome_error_cases hsettings hparse houtcome with ⟨site, literal, rfl⟩ | rfl |
          ⟨n, -, rfl⟩
        · exact .inr (.inr (.inl ⟨_, rfl⟩))
        · exact .inr (.inr (.inl ⟨_, rfl⟩))
        · exact .inr (.inr (.inr ⟨n, rfl⟩))
    · intro n
      rw [outcome_limit_iff_of_accepted hsettings hparse]
      constructor
      · rintro ⟨before, leaf, behind, h⟩
        exact ⟨t, before, leaf, behind, rfl, h⟩
      · rintro ⟨t', before, leaf, behind, ht', h⟩
        cases ht'
        exact ⟨before, leaf, behind, h⟩
    · intro t' before tok behind ht' hnesting hlexes hbefore k text reason hlexeme hreason
      cases ht'
      exact outcome_of_bad_literal hsettings hlexes hparse hnesting hbefore hlexeme hreason

/-- A decimal integer with one digit more than allowed. -/
def overlong : List Char := List.replicate 4301 '9'

theorem isDecimalDigit_overlong : ∀ c ∈ overlong, isDecimalDigit c = true := by
  intro c hc
  rw [List.eq_of_mem_replicate hc]
  decide

theorem length_overlong : (String.ofList overlong).length = 4301 := by
  rw [← String.length_toList, String.toList_ofList, overlong, List.length_replicate]

/-- An overlong decimal integer is the first trial that fails. -/
theorem outcome_classified_overlong : ({} : Settings).Packaged ∧
    Start.expr.outcome {} (fun _ => none) (String.ofList overlong) =
      .error (.build (.limit (.tooManyDigits 4301))) := by
  have hsettings : ({} : Settings).Packaged := .inl rfl
  refine ⟨hsettings, ((outcome_classified hsettings _ .expr _).2.1 4301).mpr ?_⟩
  obtain ⟨p, hparse⟩ := parse_digits isDecimalDigit_overlong hsettings (fun _ => none)
    (by rw [overlong]; nofun)
  have htrials := trials_decInt (String.ofList overlong) p defaultAllowance
  exact ⟨_, [], _, [], hparse, htrials, fun x hx => absurd hx List.not_mem_nil, rfl,
    length_overlong, by decide⟩

/-- Not every source is built or has a parse error or a fatal error. -/
theorem outcome_escapes : ¬∀ (settings : Settings) (files : String → Option Vocabulary)
    (start : Start) (source : String), settings.Packaged →
      start.outcome settings files source = .ok () ∨
        (∃ e, start.outcome settings files source = .error (.parse e)) ∨
        ∃ e, start.outcome settings files source = .error (.build (.fatal e)) := by
  intro h
  have hsettings : ({} : Settings).Packaged := .inl rfl
  obtain ⟨p, hparse⟩ := parse_digits isDecimalDigit_overlong hsettings (fun _ => none)
    (by rw [overlong]; nofun)
  have hlimit := (outcome_limit_iff_of_accepted hsettings hparse 4301).mpr
    ⟨[], _, [], trials_decInt _ p _, fun x hx => absurd hx List.not_mem_nil, rfl,
      length_overlong, by decide⟩
  have hcases := h {} (fun _ => none) .expr (String.ofList overlong) hsettings
  rw [hlimit] at hcases
  rcases hcases with hok | ⟨e, he⟩ | ⟨e, he⟩
  · cases hok
  · cases he
  · cases he

end RuleTree
