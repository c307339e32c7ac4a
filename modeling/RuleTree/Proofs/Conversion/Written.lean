import RuleTree.Proofs.Conversion.Layout
import RuleTree.Proofs.Literal.Numeral

/-!
# Written syntax

Typed syntax can be written as lexemes in many ways: every literal has several texts, and a comma
may end the items of an array or a tuple. However it is written and laid out, it is read back as it
was.

* `Expression.Written`: an expression and a list of lexemes that write it.
* `Expression.nesting`: the allowance that an expression takes to be built.
* `written_numeral`: every number that fits in a word can be written in each radix.
* `Expression.Written.exists_phrase`: what is written is a phrase that means the expression.
* `parseExpression_of_written`: a source in which an expression is written is that expression.
-/

namespace RuleTree

open Reading Phrase

/-! ### Writing -/

mutual

/-- The lexemes write the expression. `radixFloats` is how float literals are read. -/
inductive Expression.Written (radixFloats : Bool) : Expression → List Lexeme → Prop
  | single {t : Term} {ls : List Lexeme} (ht : t.Written radixFloats ls) :
    Expression.Written radixFloats (.single t) ls
  | binary {l r : Term} {o : Operator} {ls ms : List Lexeme} (hl : l.Written radixFloats ls)
    (hr : r.Written radixFloats ms) :
    Expression.Written radixFloats (.binary l o r) (ls ++ .operator o :: ms)

/-- The lexemes write the term. -/
inductive Term.Written (radixFloats : Bool) : Term → List Lexeme → Prop
  | value {v : Value} {ls : List Lexeme} (hv : v.Written radixFloats ls) :
    Term.Written radixFloats (.value v) ls
  | group {e : Expression} {ls : List Lexeme} (he : e.Written radixFloats ls) :
    Term.Written radixFloats (.group e) (.opening .round :: (ls ++ [.closing .round]))

/-- The lexemes write the value. A literal is written by any text of its kind that has the value,
and a tuple of one item with a comma behind it. -/
inductive Value.Written (radixFloats : Bool) : Value → List Lexeme → Prop
  | literal {k : LiteralKind} {text : String} {v : Value} (hspells : k.Spells text.toList)
    (hvalue : k.value radixFloats text = .ok v) :
    Value.Written radixFloats v [.literal k text]
  | array {es : List Expression} {ls : List Lexeme} (hes : ItemsWritten radixFloats es ls) :
    Value.Written radixFloats (.array es) (.opening .square :: (ls ++ [.closing .square]))
  | unit : Value.Written radixFloats (.tuple []) [.opening .round, .closing .round]
  | tuple {e : Expression} {es : List Expression} {ls ms : List Lexeme}
    (he : e.Written radixFloats ls) (hes : ItemsWritten radixFloats es ms) :
    Value.Written radixFloats (.tuple (e :: es))
      (.opening .round :: (ls ++ .comma :: ms ++ [.closing .round]))

/-- The lexemes write the items with commas between them, and one more may follow the last item. -/
inductive ItemsWritten (radixFloats : Bool) : List Expression → List Lexeme → Prop
  | nil : ItemsWritten radixFloats [] []
  | last {e : Expression} {ls : List Lexeme} (he : e.Written radixFloats ls) :
    ItemsWritten radixFloats [e] ls
  | cons {e : Expression} {es : List Expression} {ls ms : List Lexeme}
    (he : e.Written radixFloats ls) (hes : ItemsWritten radixFloats es ms) :
    ItemsWritten radixFloats (e :: es) (ls ++ .comma :: ms)

end

mutual

/-- The nesting allowance that an expression takes. -/
def Expression.nesting : Expression → Nat
  | .single t => t.nesting
  | .binary l _ r => max l.nesting r.nesting

def Term.nesting : Term → Nat
  | .value v => v.nesting
  | .group e => groupCost + e.nesting

def Value.nesting : Value → Nat
  | .primitive _ => 0
  | .string _ => 0
  | .array es => sequenceCost + itemsNesting es
  | .tuple es => sequenceCost + itemsNesting es

/-- The greatest allowance that one of the items takes. -/
def itemsNesting : List Expression → Nat
  | [] => 0
  | e :: es => max e.nesting (itemsNesting es)

end

variable {radixFloats : Bool}

theorem Lexeme.spelled_enclosed (b : Bracket) {ls : List Lexeme} (h : ∀ l ∈ ls, l.Spelled) :
    ∀ l ∈ Lexeme.opening b :: (ls ++ [.closing b]), l.Spelled :=
  List.forall_mem_cons.mpr ⟨spelled_of_isLiteral rfl,
    List.forall_mem_append.mpr ⟨h, List.forall_mem_singleton.mpr (spelled_of_isLiteral rfl)⟩⟩

theorem Lexeme.spelled_between {l : Lexeme} (hl : l.isLiteral = false) {ls ms : List Lexeme}
    (hls : ∀ l ∈ ls, l.Spelled) (hms : ∀ l ∈ ms, l.Spelled) : ∀ l' ∈ ls ++ l :: ms, l'.Spelled :=
  List.forall_mem_append.mpr ⟨hls, List.forall_mem_cons.mpr ⟨spelled_of_isLiteral hl, hms⟩⟩

mutual

theorem Expression.Written.spelled {e : Expression} {ls : List Lexeme}
    (h : e.Written radixFloats ls) : ∀ l ∈ ls, l.Spelled := by
  match h with
  | .single ht => exact ht.spelled
  | .binary hl hr => exact Lexeme.spelled_between rfl hl.spelled hr.spelled

theorem Term.Written.spelled {t : Term} {ls : List Lexeme} (h : t.Written radixFloats ls) :
    ∀ l ∈ ls, l.Spelled := by
  match h with
  | .value hv => exact hv.spelled
  | .group he => exact Lexeme.spelled_enclosed .round he.spelled

theorem Value.Written.spelled {v : Value} {ls : List Lexeme} (h : v.Written radixFloats ls) :
    ∀ l ∈ ls, l.Spelled := by
  match h with
  | .literal hspells _ =>
    refine List.forall_mem_singleton.mpr ?_
    rintro k text ⟨⟩
    exact hspells
  | .array hes => exact Lexeme.spelled_enclosed .square hes.spelled
  | .unit => exact Lexeme.spelled_enclosed .round (List.forall_mem_nil _)
  | .tuple he hes =>
    exact Lexeme.spelled_enclosed .round (Lexeme.spelled_between rfl he.spelled hes.spelled)

theorem ItemsWritten.spelled {es : List Expression} {ls : List Lexeme}
    (h : ItemsWritten radixFloats es ls) : ∀ l ∈ ls, l.Spelled := by
  match h with
  | .nil => exact List.forall_mem_nil _
  | .last he => exact he.spelled
  | .cons he hes => exact Lexeme.spelled_between rfl he.spelled hes.spelled

end

theorem written_numeral (r : Radix) {n : Nat} (h : (n : Int) ≤ maxWord) :
    Value.Written radixFloats (.primitive (.integer r n))
      [.literal r.literalKind (String.ofList (r.numeral n))] := by
  have hspells : r.literalKind.Spells (String.ofList (r.numeral n)).toList := by
    rw [String.toList_ofList]
    cases r <;> exact Radix.spells_numeral n
  refine .literal hspells ?_
  cases r <;> exact congrArg (Except.map _) (decodeRadixInteger_numeral _ h)

/-! ### The phrase that is written -/

/-- An expression of the lexemes that is built as `e` wherever the allowance suffices. -/
structure Phrase.Expr.Means (radixFloats : Bool) (p : Expr) (e : Expression) (ls : List Lexeme) :
    Prop where
  lexemes : p.tokens.map (·.lexeme) = ls
  build : ∀ a, e.nesting ≤ a → p.build radixFloats a = .ok e

/-- A term of the lexemes that is built as `t`. -/
structure Phrase.Term.Means (radixFloats : Bool) (p : Phrase.Term) (t : RuleTree.Term)
    (ls : List Lexeme) : Prop where
  lexemes : p.tokens.map (·.lexeme) = ls
  build : ∀ a, t.nesting ≤ a → p.build radixFloats a = .ok t

/-- Items of the lexemes that are built as `es`. -/
structure Phrase.Items.Means (radixFloats : Bool) (p : Items) (es : List Expression)
    (ls : List Lexeme) : Prop where
  lexemes : p.tokens.map (·.lexeme) = ls
  build : ∀ a, itemsNesting es ≤ a → p.build radixFloats a = .ok es

mutual

/-- What is written is a phrase that means the expression. -/
theorem Expression.Written.exists_phrase {e : Expression} {ls : List Lexeme}
    (h : e.Written radixFloats ls) : ∃ p : Phrase.Expr, p.Means radixFloats e ls := by
  -- The recursion is on how the expression is written. The tokens are all put at the beginning of a
  -- text, since neither the lexemes nor the meaning depend on their places.
  match h with
  | .single ht =>
    obtain ⟨p, hp⟩ := ht.exists_phrase
    refine ⟨.single p, hp.lexemes, fun a ha => ?_⟩
    rw [Expr.build, hp.build a ha]
    rfl
  | @Expression.Written.binary _ _ _ o _ _ hl hr =>
    obtain ⟨p, hp⟩ := hl.exists_phrase
    obtain ⟨q, hq⟩ := hr.exists_phrase
    refine ⟨.binary p o ⟨.origin, .origin⟩ q, ?_, fun a ha => ?_⟩
    · rw [Expr.tokens, List.map_append, List.map_cons, hp.lexemes, hq.lexemes]
    · rw [Expression.nesting] at ha
      rw [Expr.build, hp.build a (by omega), hq.build a (by omega)]
      rfl

theorem Term.Written.exists_phrase {t : Term} {ls : List Lexeme} (h : t.Written radixFloats ls) :
    ∃ p : Phrase.Term, p.Means radixFloats t ls := by
  match h with
  | .value hv =>
    obtain ⟨p, hp⟩ := hv.exists_phrase
    exact ⟨p, hp.lexemes, hp.build⟩
  | .group he =>
    obtain ⟨p, hp⟩ := he.exists_phrase
    refine ⟨.enclosed .round ⟨.origin, .origin⟩ (.last p) ⟨.origin, .origin⟩, ?_, fun a ha => ?_⟩
    · rw [Term.tokens, Items.tokens, List.map_cons, List.map_append, hp.lexemes]
      rfl
    · rw [RuleTree.Term.nesting] at ha
      rw [Term.build, if_pos (by omega), hp.build (a - groupCost) (by omega)]
      rfl

theorem Value.Written.exists_phrase {v : Value} {ls : List Lexeme} (h : v.Written radixFloats ls) :
    ∃ p : Phrase.Term, p.Means radixFloats (.value v) ls := by
  match h with
  | @Value.Written.literal _ k text _ _ hvalue =>
    refine ⟨.literal k text ⟨.origin, .origin⟩, rfl, fun a _ => ?_⟩
    rw [Term.build, hvalue]
    rfl
  | .array hes =>
    obtain ⟨p, hp⟩ := hes.exists_phrase
    refine ⟨.enclosed .square ⟨.origin, .origin⟩ p ⟨.origin, .origin⟩, ?_, fun a ha => ?_⟩
    · rw [Term.tokens, List.map_cons, List.map_append, hp.lexemes]
      rfl
    · rw [RuleTree.Term.nesting, Value.nesting] at ha
      rw [Term.build, if_pos (by omega), hp.build (a - sequenceCost) (by omega)]
      rfl
  | .unit =>
    refine ⟨.enclosed .round ⟨.origin, .origin⟩ .nil ⟨.origin, .origin⟩, rfl, fun a ha => ?_⟩
    rw [RuleTree.Term.nesting, Value.nesting] at ha
    rw [Term.build, if_pos (by omega)]
    · rfl
    -- the equation of tuples excludes the single item of a group
    · nofun
  | .tuple he hes =>
    obtain ⟨p, hp⟩ := he.exists_phrase
    obtain ⟨q, hq⟩ := hes.exists_phrase
    refine ⟨.enclosed .round ⟨.origin, .origin⟩ (.cons p ⟨.origin, .origin⟩ q) ⟨.origin, .origin⟩,
      ?_, fun a ha => ?_⟩
    · rw [Term.tokens, Items.tokens, List.map_cons, List.map_append, List.map_append, List.map_cons,
        hp.lexemes, hq.lexemes]
      rfl
    · rw [RuleTree.Term.nesting, Value.nesting, itemsNesting] at ha
      rw [Term.build, if_pos (by omega), Items.build, hp.build (a - sequenceCost) (by omega),
        hq.build (a - sequenceCost) (by omega)]
      · rfl
      · nofun

theorem ItemsWritten.exists_phrase {es : List Expression} {ls : List Lexeme}
    (h : ItemsWritten radixFloats es ls) : ∃ p : Phrase.Items, p.Means radixFloats es ls := by
  match h with
  | .nil => exact ⟨.nil, rfl, fun _ _ => rfl⟩
  | .last he =>
    obtain ⟨p, hp⟩ := he.exists_phrase
    refine ⟨.last p, hp.lexemes, fun a ha => ?_⟩
    rw [itemsNesting] at ha
    rw [Items.build, hp.build a (by omega)]
    rfl
  | .cons he hes =>
    obtain ⟨p, hp⟩ := he.exists_phrase
    obtain ⟨q, hq⟩ := hes.exists_phrase
    refine ⟨.cons p ⟨.origin, .origin⟩ q, ?_, fun a ha => ?_⟩
    · rw [Items.tokens, List.map_append, List.map_cons, hp.lexemes, hq.lexemes]
    · rw [itemsNesting] at ha
      rw [Items.build, hp.build a (by omega), hq.build a (by omega)]
      rfl

end

/-! ### Reading back -/

/-- **What is written is read back.** A source in which an expression is written, with any text for
each literal, with or without a comma behind the items of an array or a tuple and in any layout, is
that expression, as far as the allowance suffices. -/
theorem parseExpression_of_written {settings : Settings} (hsettings : settings.Packaged)
    (files : String → Option Vocabulary) {e : Expression} (hnesting : e.nesting ≤ defaultAllowance)
    {ls : List Lexeme} (hwritten : e.Written settings.radixFloats ls) {source : String}
    (hlaid : LaidOut .standard ls source.toList) :
    (parseExpression settings files source).result = .ok e := by
  obtain ⟨p, hp⟩ := hwritten.exists_phrase
  have hspelled : ∀ tok ∈ p.tokens, tok.lexeme.Spelled :=
    List.forall_mem_map.mp (hp.lexemes ▸ hwritten.spelled)
  -- the source is read as the same phrase, with its tokens at the places that they have there
  obtain ⟨s, hlexes, -, hs⟩ := (Sentence.expr p).exists_laidOut hspelled (hp.lexemes ▸ hlaid)
  cases s with
  | program stmts => cases Sentence.start_of_unplaced hs
  | expr q =>
    have hbuild := Expr.build_of_unplaced (Sentence.expr.inj hs) settings.radixFloats
      defaultAllowance
    rw [hp.build defaultAllowance hnesting] at hbuild
    rw [result_parseExpression_of_lexes hsettings hlexes]
    cases hq : q.build settings.radixFloats defaultAllowance with
    | ok e' =>
      rw [hq] at hbuild
      exact congrArg Except.ok (Except.ok.inj hbuild)
    | error failure =>
      rw [hq] at hbuild
      cases hbuild

/-- A tuple of one item to the power of a group, with a comment inside. -/
theorem parseExpression_of_written_tuple :
    let one : Expression := .single (.value (.primitive (.integer .decimal 1)))
    let letter : Expression := .single (.value (.primitive (.char 'a')))
    let e : Expression :=
      .binary (.value (.tuple [one])) .pow (.group (.single (.value (.array [letter]))))
    let ls : List Lexeme :=
      [.opening .round, .literal .decInt "1", .comma, .closing .round, .operator .pow,
        .opening .round, .opening .square, .literal .char "'a'", .comma, .closing .square,
        .closing .round]
    ({} : Settings).Packaged ∧ e.nesting ≤ defaultAllowance ∧ e.Written false ls ∧
      LaidOut .standard ls "( //1\n1,)**(['a',])".toList ∧
      (parseExpression {} (fun _ => none) "( //1\n1,)**(['a',])").result = .ok e := by
  intro one letter e ls
  have hsettings : ({} : Settings).Packaged := .inl rfl
  have hnesting : e.nesting ≤ defaultAllowance := by decide
  have hone : one.Written false [.literal .decInt "1"] :=
    .single (.value (.literal ⟨['1'], rfl, by decide, List.forall_mem_singleton.mpr rfl⟩ rfl))
  have hletter : letter.Written false [.literal .char "'a'"] :=
    .single (.value (.literal ⟨['a'], rfl, List.forall_mem_singleton.mpr (by decide)⟩ rfl))
  have hwritten : e.Written false ls :=
    .binary (.value (.tuple hone .nil)) (.group (.single (.value (.array (.cons hletter .nil)))))
  have hcomment : Filler ('/' :: '/' :: (['1'] ++ ['\n'])) :=
    .comment (List.forall_mem_singleton.mpr (by decide)) .nil
  have hgap : Gap (' ' :: '/' :: '/' :: (['1'] ++ ['\n'])) :=
    ⟨.blank rfl hcomment, by rintro _ ⟨⟩; rfl⟩
  have hlexemes : LaidOut .standard ls _ :=
    .cons gap_nil (.cons hgap (laidOut_texts .standard (ls.drop 2)))
  have hlaid : LaidOut .standard ls "( //1\n1,)**(['a',])".toList :=
    (congrArg (LaidOut .standard ls) (by decide +kernel)).mp hlexemes
  exact ⟨hsettings, hnesting, hwritten, hlaid,
    parseExpression_of_written hsettings _ hnesting hwritten hlaid⟩

end RuleTree
