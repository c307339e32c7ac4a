import RuleTree.Proofs.Conversion.Outcome
import RuleTree.Proofs.Literal.PrefixedFloat

/-!
# Runs with and without radix floats

Allowing floats with the prefix of a radix takes nothing away. The two runs of a source meet the
same trials in the same order and differ at floats with a prefix only, which fail in one of them.

* `Trial.failure?_cases_of_switch`: how the two runs fare at one trial.
* `findSome?_failure?_of_switch`: how they fare at all of them.
* `Phrase.Expr.build_of_ok`: what is built without radix floats is built with them.
* `Extends`: what a run with radix floats comes to, compared with the run without.
* `radixFloats_extend`: so it is for programs and for expressions.
-/

namespace RuleTree

open Reading Phrase

/-! ### Bad floats -/

/-- The failure says that a float is bad. -/
def Failure.IsBadFloat (e : Failure) : Prop :=
  ∃ text place literal, e = .fatal ⟨some ⟨Kind.float.rule, text, place⟩, .badLiteral literal⟩

/-- The failure of a token that is a bad float. -/
def Leaf.badFloat (leaf : Leaf) (reason : Reason) (derived : Bool) : Failure :=
  .fatal ⟨some ⟨Kind.float.rule, leaf.text, leaf.place⟩, .badLiteral ⟨leaf.text, reason, derived⟩⟩

/-- The token is a float with the prefix of a radix. -/
structure Leaf.Prefixed (leaf : Leaf) (r : Radix) : Prop where
  kind_eq : leaf.kind = LiteralKind.float.name
  prefixRadix?_eq : prefixRadix? leaf.text.toList = some r

/-- The integer part of the float does not fit in a signed word of 64 bits. -/
def Leaf.TooLarge (leaf : Leaf) (r : Radix) : Prop :=
  maxWord < r.number (integerPart leaf.text.toList)

instance (leaf : Leaf) (r : Radix) : Decidable (leaf.TooLarge r) :=
  inferInstanceAs (Decidable (_ < _))

/-! ### Trials -/

theorem LiteralKind.not_isBadFloat {k : LiteralKind} (hk : k ≠ .float) {text : String}
    {place : Place} (fault : Fault) : ¬(fault.at ⟨k.kind.rule, text, place⟩).IsBadFloat := by
  rintro ⟨text', place', literal, h⟩
  cases fault with
  | malformed m =>
    have hrule : k.kind.rule = Kind.float.rule := by
      injection h with h
      injection h with hsite
      exact congrArg Site.rule (Option.some.inj hsite)
    revert hrule
    cases k <;> first | decide | exact absurd rfl hk
  | _ => cases h

/-- **One trial.** Either it makes no difference to a trial whether there are radix floats, and it
does not fail for a bad float, or it is a float with a prefix. -/
theorem Trial.failure?_cases_of_switch (x : Trial) :
    (x.failure? true = x.failure? false ∧ ∀ e, x.failure? false = some e → ¬e.IsBadFloat) ∨
      ∃ leaf r, x = .literal leaf ∧ leaf.Prefixed r ∧
        x.failure? false = some (leaf.badFloat .notFloat false) ∧
        x.failure? true =
          if leaf.TooLarge r then some (leaf.badFloat .tooLarge true) else none := by
  cases x with
  | tooDeep =>
    refine .inl ⟨rfl, fun e he => ?_⟩
    cases he
    rintro ⟨text, place, literal, h⟩
    cases h
  | literal leaf =>
    cases hk : LiteralKind.ofName? leaf.kind with
    | none =>
      have hnone (radixFloats : Bool) : leaf.failure? radixFloats = none := by
        rw [Leaf.failure?, hk]
        rfl
      refine .inl ⟨(hnone true).trans (hnone false).symm, fun e he => ?_⟩
      cases he.symm.trans (hnone false)
    | some k =>
      have hfailure (radixFloats : Bool) : leaf.failure? radixFloats =
          (k.fault? radixFloats leaf.text).map (Fault.at ⟨k.kind.rule, leaf.text, leaf.place⟩) := by
        rw [Leaf.failure?, hk]
        rfl
      have hname : leaf.kind = k.name := by
        have hfound := List.find?_some hk
        exact (beq_iff_eq.mp hfound).symm
      rw [failure?, failure?, hfailure, hfailure]
      by_cases hfloat : k = .float
      · subst hfloat
        cases hr : prefixRadix? leaf.text.toList with
        | none =>
          left
          rw [LiteralKind.fault?_of_not_prefixed hr, LiteralKind.fault?_of_not_prefixed hr]
          exact ⟨rfl, fun e he => by cases he⟩
        | some r =>
          right
          obtain ⟨hoff, hon⟩ := LiteralKind.fault?_of_prefixed hr
          refine ⟨leaf, r, rfl, ⟨hname, hr⟩, ?_, ?_⟩
          · rw [hoff]
            rfl
          · rw [hon]
            by_cases hlarge : leaf.TooLarge r
            · rw [if_pos hlarge, if_pos (show maxWord < _ from hlarge)]
              rfl
            · rw [if_neg hlarge, if_neg (show ¬maxWord < _ from hlarge)]
              rfl
      · left
        rw [LiteralKind.fault?_of_ne hfloat]
        refine ⟨rfl, fun e he => ?_⟩
        obtain ⟨fault, -, rfl⟩ := Option.map_eq_some_iff.mp he
        exact LiteralKind.not_isBadFloat hfloat fault

/-- **All trials.** Either the first failure is the same and is not about a bad float, or without
radix floats it is that of a float with a prefix. With them the same float fails if its integer part
is too large, and otherwise what fails stands behind it. -/
theorem findSome?_failure?_of_switch (xs : List Trial) :
    (xs.findSome? (Trial.failure? true) = xs.findSome? (Trial.failure? false) ∧
        ∀ e, xs.findSome? (Trial.failure? false) = some e → ¬e.IsBadFloat) ∨
      ∃ before leaf r behind, xs = before ++ .literal leaf :: behind ∧
        (∀ x ∈ before, ∀ radixFloats, x.failure? radixFloats = none) ∧ leaf.Prefixed r ∧
        xs.findSome? (Trial.failure? false) = some (leaf.badFloat .notFloat false) ∧
        xs.findSome? (Trial.failure? true) =
          if leaf.TooLarge r then some (leaf.badFloat .tooLarge true)
          else behind.findSome? (Trial.failure? true) := by
  induction xs with
  | nil => exact .inl ⟨rfl, fun e he => by cases he⟩
  | cons x xs ih =>
    rw [List.findSome?_cons, List.findSome?_cons]
    rcases x.failure?_cases_of_switch with ⟨hsame, hother⟩ | ⟨leaf, r, rfl, hleaf, hoff, hon⟩
    · rw [hsame]
      cases hx : x.failure? false with
      | some e => exact .inl ⟨rfl, fun e' he' => hother e' (hx.trans he')⟩
      | none =>
        rcases ih with hxs | ⟨before, leaf, r, behind, rfl, hbefore, hleaf, hoff, hon⟩
        · exact .inl hxs
        · have hnone (radixFloats : Bool) : x.failure? radixFloats = none := by
            cases radixFloats with
            | false => exact hx
            | true => exact hsame.trans hx
          exact .inr ⟨x :: before, leaf, r, behind, rfl,
            List.forall_mem_cons.mpr ⟨hnone, hbefore⟩, hleaf, hoff, hon⟩
    · right
      refine ⟨[], leaf, r, xs, rfl, fun _ hx => absurd hx List.not_mem_nil, hleaf, ?_, ?_⟩
      · rw [hoff]
      · rw [hon]
        by_cases hlarge : leaf.TooLarge r
        · rw [if_pos hlarge, if_pos hlarge]
        · rw [if_neg hlarge, if_neg hlarge]

/-! ### What is built -/

namespace Phrase

theorem build_enclosed_of_ok {is : Items}
    (his : ∀ {a xs}, is.build false a = .ok xs → is.build true a = .ok xs) (b : Bracket)
    (p q : Span) {a : Nat} {x : RuleTree.Term}
    (hx : (Term.enclosed b p is q).build false a = .ok x) :
    (Term.enclosed b p is q).build true a = .ok x := by
  have hsequence {f : List Expression → RuleTree.Term}
      (hx : (if sequenceCost ≤ a then (is.build false (a - sequenceCost)).map f
        else .error .tooDeep) = .ok x) :
      (if sequenceCost ≤ a then (is.build true (a - sequenceCost)).map f
        else .error .tooDeep) = .ok x := by
    split at hx
    case isTrue ha =>
      obtain ⟨xs, hxs, rfl⟩ := map_eq_ok_iff.mp hx
      rw [if_pos ha, his hxs]
      rfl
    case isFalse => cases hx
  cases b with
  | square => exact hsequence hx
  | round =>
    cases is with
    | nil => exact hsequence hx
    | cons e m is => exact hsequence hx
    | last e =>
      rw [Term.build] at hx ⊢
      split at hx
      case isTrue ha =>
        obtain ⟨y, hy, rfl⟩ := map_eq_ok_iff.mp hx
        have hlast : (Items.last e).build true (a - groupCost) = .ok [y] := his (by
          rw [Items.build, hy]
          rfl)
        obtain ⟨y', hy', heq⟩ := map_eq_ok_iff.mp hlast
        rw [if_pos ha, hy', List.singleton_inj.mp heq]
        rfl
      case isFalse => cases hx

mutual

/-- What is built of an expression without radix floats is built of it with them. -/
theorem Expr.build_of_ok (e : Expr) (h : ∀ tok ∈ e.tokens, tok.Spelled) {a : Nat}
    {x : Expression} (hx : e.build false a = .ok x) : e.build true a = .ok x := by
  match e with
  | .single t =>
    rw [Expr.build] at hx ⊢
    obtain ⟨y, hy, rfl⟩ := map_eq_ok_iff.mp hx
    rw [t.build_of_ok h hy]
    rfl
  | .binary l o m r =>
    have hl : ∀ tok ∈ l.tokens, tok.Spelled := fun tok htok => h tok (List.mem_append_left _ htok)
    have hr : ∀ tok ∈ r.tokens, tok.Spelled := fun tok htok =>
      h tok (List.mem_append_right _ (List.mem_cons_of_mem _ htok))
    rw [Expr.build] at hx ⊢
    obtain ⟨left, hleft, hx⟩ := bind_eq_ok_iff.mp hx
    obtain ⟨right, hright, hx⟩ := bind_eq_ok_iff.mp hx
    rw [l.build_of_ok hl hleft, r.build_of_ok hr hright]
    exact hx

theorem Term.build_of_ok (t : Term) (h : ∀ tok ∈ t.tokens, tok.Spelled) {a : Nat}
    {x : RuleTree.Term} (hx : t.build false a = .ok x) : t.build true a = .ok x := by
  match t with
  | .literal k text p =>
    rw [Term.build] at hx ⊢
    obtain ⟨v, hv, rfl⟩ := map_eq_ok_iff.mp hx
    have hvalue : k.value false text = .ok v := mapError_eq_ok_iff.mp hv
    rw [LiteralKind.value_of_ok (h _ List.mem_cons_self k text rfl) hvalue]
    rfl
  | .enclosed b p is q =>
    have his : ∀ tok ∈ is.tokens, tok.Spelled := fun tok htok =>
      h tok (List.mem_cons_of_mem _ (List.mem_append_left _ htok))
    exact build_enclosed_of_ok (fun hxs => is.build_of_ok his hxs) b p q hx

theorem Items.build_of_ok (is : Items) (h : ∀ tok ∈ is.tokens, tok.Spelled) {a : Nat}
    {xs : List Expression} (hxs : is.build false a = .ok xs) : is.build true a = .ok xs := by
  match is with
  | .nil => exact hxs
  | .last e =>
    rw [Items.build] at hxs ⊢
    obtain ⟨y, hy, rfl⟩ := map_eq_ok_iff.mp hxs
    rw [e.build_of_ok h hy]
    rfl
  | .cons e m is =>
    have he : ∀ tok ∈ e.tokens, tok.Spelled := fun tok htok => h tok (List.mem_append_left _ htok)
    have his : ∀ tok ∈ is.tokens, tok.Spelled := fun tok htok =>
      h tok (List.mem_append_right _ (List.mem_cons_of_mem _ htok))
    rw [Items.build] at hxs ⊢
    obtain ⟨first, hfirst, hxs⟩ := bind_eq_ok_iff.mp hxs
    obtain ⟨others, hothers, hxs⟩ := bind_eq_ok_iff.mp hxs
    rw [e.build_of_ok he hfirst, is.build_of_ok his hothers]
    exact hxs

end

theorem buildProgram_of_ok {stmts : List Stmt}
    (h : ∀ tok ∈ stmts.flatMap Stmt.tokens, tok.Spelled) {a : Nat} {p : Program}
    (hp : buildProgram false a stmts = .ok p) : buildProgram true a stmts = .ok p := by
  obtain ⟨ss, hss, rfl⟩ := map_eq_ok_iff.mp hp
  have hbuild : stmts.mapM (Stmt.build true a) = .ok ss := by
    clear hp
    induction stmts generalizing ss with
    | nil => exact hss
    | cons stmt stmts ih =>
      rw [List.flatMap_cons] at h
      rw [List.mapM_cons] at hss ⊢
      obtain ⟨s, hs, hss⟩ := bind_eq_ok_iff.mp hss
      obtain ⟨rest, hrest, hss⟩ := bind_eq_ok_iff.mp hss
      obtain ⟨x, hx, rfl⟩ := map_eq_ok_iff.mp hs
      have hstmt : stmt.build true a = .ok {} := by
        have hexpr : ∀ tok ∈ stmt.expr.tokens, tok.Spelled := fun tok htok =>
          h tok (List.mem_append_left _ (List.mem_append_left _ htok))
        rw [Stmt.build, stmt.expr.build_of_ok hexpr hx]
        rfl
      rw [hstmt, ih (fun tok htok => h tok (List.mem_append_right _ htok)) rest hrest]
      exact hss
  rw [buildProgram, hbuild]
  rfl

end Phrase

/-! ### The two runs of a source -/

variable {settings : Settings} {files : String → Option Vocabulary} {start : Start}
  {source : String}

/-- How a run with radix floats comes out, compared with the run of the same source without. -/
structure Extends {α : Type} (settings : Settings) (files : String → Option Vocabulary)
    (start : Start) (source : String) (off on : Except Error α) : Prop where
  /-- Nothing changes, unless the run without radix floats fails for a bad float. -/
  same : (∀ e, off = .error (.build e) → ¬e.IsBadFloat) → on = off
  /-- The float has a prefix, and nothing before it fails in either run. The run with radix floats
  fails at the same float if its integer part is too large. Otherwise it gets past the float and
  comes out as what stands behind it does. -/
  differs : ∀ e, off = .error (.build e) → e.IsBadFloat → ∃ t before leaf r behind,
    parse settings files start.name source = .ok t ∧
      t.trials defaultAllowance = before ++ .literal leaf :: behind ∧
      (∀ x ∈ before, ∀ radixFloats, x.failure? radixFloats = none) ∧ leaf.Prefixed r ∧
      e = leaf.badFloat .notFloat false ∧
      (leaf.TooLarge r ∧ on = .error (.build (leaf.badFloat .tooLarge true)) ∨
        ¬leaf.TooLarge r ∧
          errorOf? on = (behind.findSome? (Trial.failure? true)).map fun e =>
            .build (e.atRoot start.kind (rootSite? source t)))

theorem Failure.isBadFloat_of_atRoot {e : Failure} {kind : Kind} {root : Option Site}
    (h : (e.atRoot kind root).IsBadFloat) : e.IsBadFloat := by
  obtain ⟨text, place, literal, h⟩ := h
  cases e with
  | fatal error => exact ⟨text, place, literal, h⟩
  | _ => cases h

theorem extends_of_trials {α : Type} {f : Bool → Except Failure α} {t : Tree}
    (hparse : parse settings files start.name source = .ok t)
    (herror : ∀ radixFloats, errorOf? (f radixFloats) = t.failure? radixFloats defaultAllowance)
    (hok : ∀ a, f false = .ok a → f true = .ok a) :
    Extends settings files start source
      ((f false).mapError fun e => .build (e.atRoot start.kind (rootSite? source t)))
      ((f true).mapError fun e => .build (e.atRoot start.kind (rootSite? source t))) := by
  rcases findSome?_failure?_of_switch (t.trials defaultAllowance) with ⟨hsame, hother⟩ |
    ⟨before, leaf, r, behind, htrials, hbefore, hleaf, hoff, hon⟩
  · have heq : f true = f false := by
      cases hf : f false with
      | ok a => exact hok a hf
      | error e =>
        have hfailure : errorOf? (f true) = errorOf? (f false) := by
          rw [herror, herror]
          exact hsame
        rw [hf] at hfailure
        exact errorOf?_eq_some_iff.mp hfailure
    refine ⟨fun _ => by rw [heq], fun e he hbad => ?_⟩
    have hfailure := congrArg errorOf? he
    rw [errorOf?_mapError, herror] at hfailure
    obtain ⟨e', he', hbuild⟩ := Option.map_eq_some_iff.mp hfailure
    cases hbuild
    exact absurd (Failure.isBadFloat_of_atRoot hbad) (hother e' he')
  · have hoff' : f false = .error (leaf.badFloat .notFloat false) :=
      errorOf?_eq_some_iff.mp ((herror false).trans hoff)
    rw [hoff']
    have hbad : (leaf.badFloat .notFloat false).IsBadFloat := ⟨_, _, _, rfl⟩
    refine ⟨fun h => absurd hbad (h _ rfl), fun e he _ => ?_⟩
    cases he
    refine ⟨t, before, leaf, r, behind, hparse, htrials, hbefore, hleaf, rfl, ?_⟩
    by_cases hlarge : leaf.TooLarge r
    · left
      rw [if_pos hlarge] at hon
      have hon' : f true = .error (leaf.badFloat .tooLarge true) :=
        errorOf?_eq_some_iff.mp ((herror true).trans hon)
      rw [hon']
      exact ⟨hlarge, rfl⟩
    · right
      rw [if_neg hlarge] at hon
      refine ⟨hlarge, ?_⟩
      rw [errorOf?_mapError, herror, ← hon]
      rfl

theorem extends_of_parse_error {α : Type} (hsettings : settings.Packaged) {e : Error}
    (hparse : parse settings files start.name source = .error e) :
    Extends (α := α) settings files start source (.error e) (.error e) := by
  refine ⟨fun _ => rfl, fun e' he' _ => ?_⟩
  cases he'
  rw [parse_packaged hsettings] at hparse
  cases htree : parseTree settings.parser .standard start source with
  | ok t =>
    rw [htree] at hparse
    cases hparse
  | error e =>
    rw [htree] at hparse
    cases hparse

/-- The settings with or without radix floats. -/
def Settings.withRadixFloats (settings : Settings) (radixFloats : Bool) : Settings :=
  { settings with radixFloats := radixFloats }

theorem Settings.Packaged.withRadixFloats (h : settings.Packaged) (radixFloats : Bool) :
    (settings.withRadixFloats radixFloats).Packaged := h

theorem extends_parseProgram (hsettings : settings.Packaged) (files : String → Option Vocabulary)
    (source : String) :
    Extends settings files .program source
      (parseProgram (settings.withRadixFloats false) files source).result
      (parseProgram (settings.withRadixFloats true) files source).result := by
  cases hparse : parse settings files Start.program.name source with
  | error e =>
    have herror (radixFloats : Bool) :
        (parseProgram (settings.withRadixFloats radixFloats) files source).result = .error e :=
      (result_parseProgram ..).trans (result_parseWith_error hparse)
    rw [herror, herror]
    exact extends_of_parse_error hsettings hparse
  | ok t =>
    obtain ⟨s, hstart, rfl, hlexes⟩ := (parse_eq_ok_iff_sentence hsettings).mp hparse
    cases s with
    | expr e => cases hstart
    | program stmts =>
      have hspelled : ∀ tok ∈ stmts.flatMap Stmt.tokens, tok.Spelled :=
        fun tok htok => hlexes.spelled htok
      have hresult (radixFloats : Bool) :
          (parseProgram (settings.withRadixFloats radixFloats) files source).result = _ :=
        result_parseProgram_of_lexes (hsettings.withRadixFloats radixFloats) hlexes
      rw [hresult, hresult]
      exact extends_of_trials (f := fun b => buildProgram b defaultAllowance stmts) hparse
        (fun _ => errorOf?_buildProgram stmts hspelled _)
        fun _ hp => buildProgram_of_ok hspelled hp

theorem extends_parseExpression (hsettings : settings.Packaged)
    (files : String → Option Vocabulary) (source : String) :
    Extends settings files .expr source
      (parseExpression (settings.withRadixFloats false) files source).result
      (parseExpression (settings.withRadixFloats true) files source).result := by
  cases hparse : parse settings files Start.expr.name source with
  | error e =>
    have herror (radixFloats : Bool) :
        (parseExpression (settings.withRadixFloats radixFloats) files source).result = .error e :=
      result_parseWith_error hparse
    rw [herror, herror]
    exact extends_of_parse_error hsettings hparse
  | ok t =>
    obtain ⟨s, hstart, rfl, hlexes⟩ := (parse_eq_ok_iff_sentence hsettings).mp hparse
    cases s with
    | program stmts => cases hstart
    | expr e =>
      have hspelled : ∀ tok ∈ e.tokens, tok.Spelled := fun tok htok => hlexes.spelled htok
      have hresult (radixFloats : Bool) :
          (parseExpression (settings.withRadixFloats radixFloats) files source).result = _ :=
        result_parseExpression_of_lexes (hsettings.withRadixFloats radixFloats) hlexes
      rw [hresult, hresult]
      exact extends_of_trials (f := fun b => e.build b defaultAllowance) hparse
        (fun _ => e.errorOf?_build hspelled _) fun _ hx => e.build_of_ok hspelled hx

/-- **Radix floats take nothing away.** Whatever the source, the parsing algorithm and the start, a
run without radix floats that yields typed syntax, a parse error or any error but that of a bad
float comes out the same with them. If it fails for a bad float, that is the first literal to fail
and has the prefix of a radix; with radix floats the source fails at the same float if its integer
part is too large, and otherwise for what stands behind it, if at all. -/
theorem radixFloats_extend (hsettings : settings.Packaged) (files : String → Option Vocabulary)
    (source : String) :
    Extends settings files .program source
        (parseProgram (settings.withRadixFloats false) files source).result
        (parseProgram (settings.withRadixFloats true) files source).result ∧
      Extends settings files .expr source
        (parseExpression (settings.withRadixFloats false) files source).result
        (parseExpression (settings.withRadixFloats true) files source).result :=
  ⟨extends_parseProgram hsettings files source, extends_parseExpression hsettings files source⟩

/-- A source that is a hexadecimal float. -/
def hexadecimalFloat : Leaf :=
  ⟨LiteralKind.float.name, "0x1A.8", .ofSpan ⟨⟨0, 1, 1⟩, ⟨6, 1, 7⟩⟩⟩

/-- The runs of that source. -/
def hexadecimalRun (radixFloats : Bool) : Except Error Expression :=
  (parseExpression (Settings.withRadixFloats {} radixFloats) (fun _ => none)
    hexadecimalFloat.text).result

/-- The hexadecimal float fails in one run, and the other run gets past it. -/
theorem radixFloats_extend_hexadecimal : ({} : Settings).Packaged ∧
    hexadecimalRun false = .error (.build (hexadecimalFloat.badFloat .notFloat false)) ∧
      ∃ x, hexadecimalRun true = .ok x := by
  let e : Expr := .single (.literal .float "0x1A.8" ⟨⟨0, 1, 1⟩, ⟨6, 1, 7⟩⟩)
  have hsettings : ({} : Settings).Packaged := .inl rfl
  have hlexes : Lexes .standard .origin hexadecimalFloat.text.toList e.tokens := by
    rw [lexes_standard_iff]
    decide +kernel
  have hoff : hexadecimalRun false =
      .error (.build (hexadecimalFloat.badFloat .notFloat false)) :=
    (result_parseExpression_of_lexes hsettings hlexes).trans (by rfl)
  refine ⟨hsettings, hoff, ?_⟩
  obtain ⟨t, before, leaf, r, behind, hparse, htrials, -, hleaf, -, hon⟩ :=
    (radixFloats_extend hsettings (fun _ => none) hexadecimalFloat.text).2.differs _ hoff
      ⟨_, _, _, rfl⟩
  have hparse' : parse {} (fun _ => none) Start.expr.name hexadecimalFloat.text =
      .ok (Sentence.expr e).tree :=
    (parse_eq_ok_iff_sentence hsettings).mpr ⟨_, rfl, rfl, hlexes⟩
  cases hparse.symm.trans hparse'
  have hone : (Sentence.expr e).tree.trials defaultAllowance = [.literal hexadecimalFloat] := by
    refine (Tree.trials_of_cost rfl _ _).trans ?_
    rw [Tree.trialsOf, Tree.trialsOf, List.append_nil, Tree.trials_literal]
    rfl
  rcases List.append_eq_singleton_iff.mp (htrials.symm.trans hone) with ⟨rfl, hlast⟩ | ⟨-, hnil⟩
  · cases hlast
    have hr : prefixRadix? hexadecimalFloat.text.toList = some .hexadecimal := by decide
    cases hleaf.prefixRadix?_eq.symm.trans hr
    rcases hon with ⟨hlarge, -⟩ | ⟨-, hon⟩
    · exact absurd hlarge (by decide)
    · have hnone : errorOf? (hexadecimalRun true) = none := hon
      cases hresult : hexadecimalRun true with
      | ok x => exact ⟨x, rfl⟩
      | error e =>
        rw [hresult] at hnone
        cases hnone
  · cases hnil

end RuleTree
