import RuleTree.Proofs.Conversion.Outcome
import RuleTree.Proofs.Conversion.Whole
import RuleTree.Proofs.Tree.Schema

/-!
# Conversions without the source

The text of a node is cut out of the source, or put together from the tokens below the node where no
source is given. The two differ at most nodes: punctuation, operators, white space and comments are
no tokens of the tree. Of the tree of a source they make no difference to what is built. Only
literals are decoded, and the text of a literal is that of its one token in either way.

* `exists_legible_sentence`: whatever the grammar, the literals of an accepted source stand in it.
* `Phrase.Sentence.exists_result_node`: what the builder of a kind makes of the tree of a sentence.
* `convert_sourceless`: conversions with and without the source.
-/

namespace RuleTree

open Reading Phrase

/-! ### Literals of an accepted source -/

theorem Terminal.text_of_mem_readings {v : Vocabulary} {t : Terminal} {text text' : String}
    {k : LiteralKind} (h : .literal k text' ∈ t.readings v text) : text' = text := by
  have hmeanings : .literal k text' ∉ v.meanings text := by
    simp [Vocabulary.meanings, Vocabulary.fixedLexemes]
  cases t with
  | literal k' =>
    rw [readings] at h
    split at h
    · exact absurd h hmeanings
    · cases List.mem_singleton.mp h
      rfl
  | fixed l => exact absurd h hmeanings
  | blank => cases h
  | comment => cases h

theorem Scan.legible_of_mem {v : Vocabulary} {source : String} {m : Mark} {before cs : List Char}
    (hsource : source.toList = before ++ cs) (hm : m.offset = before.length) {w : Word}
    (hw : w ∈ (ofChars v m cs).words) {tok : Token} (htok : tok ∈ w.tokens) :
    tok.Legible (some (charsOf source)) := by
  fun_induction ofChars v m cs generalizing before with
  | case1 m => cases hw
  | case2 m c cs hnone => cases hw
  | case3 m c cs found hfound text rest hreadings =>
    rename_i ih
    have hbehind : source.toList = (before ++ text) ++ (c :: cs).drop found.width := by
      rw [hsource, List.append_assoc, List.take_append_drop]
    exact ih hbehind (by rw [Mark.offset_after, hm, List.length_append]) hw
  | case4 m c cs found hfound text rest hreadings =>
    rename_i ih
    have hsplit : c :: cs = text ++ (c :: cs).drop found.width := (List.take_append_drop _ _).symm
    rcases List.mem_cons.mp hw with rfl | hw
    · obtain ⟨l, hl, rfl⟩ := List.mem_map.mp htok
      refine Token.legible_of_split fun k text' hlexeme => ?_
      cases hlexeme
      have htext := Terminal.text_of_mem_readings hl
      have hchars : text'.toList = text := by rw [htext, String.toList_ofList]
      refine ⟨before, _, by rw [hsource, hchars, ← hsplit], hm, ?_⟩
      rw [Mark.offset_after, hm, hchars]
    · have hbehind : source.toList = (before ++ text) ++ (c :: cs).drop found.width := by
        rw [hsource, List.append_assoc, ← hsplit]
      exact ih hbehind (by rw [Mark.offset_after, hm, List.length_append]) hw

theorem mem_of_mem_eraseDupsBy {α : Type} {r : α → α → Bool} {a : α} {as : List α}
    (h : a ∈ as.eraseDupsBy r) : a ∈ as := by
  induction hn : as.length using Nat.strongRecOn generalizing as with
  | ind n ih =>
    cases as with
    | nil => exact h
    | cons b as =>
      rw [List.eraseDupsBy_cons, List.mem_cons] at h
      rcases h with rfl | h
      · exact List.mem_cons_self
      · have hshort := List.length_filter_le (fun c => decide (r c b = false)) as
        rw [List.length_cons] at hn
        exact List.mem_cons_of_mem _ (List.mem_filter.mp (ih _ (by omega) h rfl)).1

namespace Reading

theorem mem_of_mem_keep {kind : ParserKind} {s : State} {states : List State}
    (h : s ∈ keep kind states) : s ∈ states := by
  cases kind with
  | lalr =>
    rcases Option.or_eq_some_iff.mp (Option.mem_toList.mp h) with h | ⟨-, h⟩
    · exact List.mem_of_find?_eq_some h
    · exact List.mem_of_mem_head? h
  | earley => exact mem_of_mem_eraseDupsBy h

theorem exists_tokens_of_readWords {kind : ParserKind} {start : Start} {states states' : List State}
    {ws : List Word} (h : readWords kind start states ws = .ok states') {s' : State}
    (hs' : s' ∈ states') : ∃ s ∈ states, ∃ ts, s.steps start ts = .ok s' ∧
      ∀ tok ∈ ts, ∃ w ∈ ws, tok ∈ w.tokens := by
  fun_induction readWords kind start states ws with
  | case1 states =>
    cases h
    exact ⟨s', hs', [], rfl, nofun⟩
  | case2 states w ws hnone => cases h
  | case3 states w ws hsome ih =>
    obtain ⟨s, hs, ts, hsteps, hts⟩ := ih h
    obtain ⟨s₀, hs₀, hnext⟩ := List.mem_flatMap.mp (mem_of_mem_keep hs)
    obtain ⟨tok, htok, hstep⟩ := List.mem_filterMap.mp hnext
    refine ⟨s₀, hs₀, tok :: ts, by rw [State.steps_cons ts hstep, hsteps], ?_⟩
    rw [List.forall_mem_cons]
    refine ⟨⟨w, List.mem_cons_self, htok⟩, ?_⟩
    intro tok' htok'
    obtain ⟨w', hw', hmem⟩ := hts tok' htok'
    exact ⟨w', List.mem_cons_of_mem _ hw', hmem⟩

end Reading

theorem exists_word_of_parseSentence {kind : ParserKind} {v : Vocabulary} {start : Start}
    {source : String} {sentence : Sentence}
    (h : parseSentence kind v start source = .ok sentence) {tok : Token}
    (htok : tok ∈ sentence.tokens) :
    ∃ w ∈ (Scan.ofSource v source).words, tok ∈ w.tokens := by
  unfold parseSentence at h
  dsimp only at h
  split at h
  · cases h
  rename_i states hstates
  split at h
  · cases h
  split at h
  case h_2 => cases h
  rename_i hfinish
  cases h
  obtain ⟨s, hs, hsentence⟩ := List.exists_of_findSome?_eq_some hfinish
  obtain ⟨s₀, hs₀, ts, hsteps, hts⟩ := exists_tokens_of_readWords hstates hs
  cases List.mem_singleton.mp hs₀
  rw [State.tokens_of_finish? hsentence, State.tokens_of_steps hsteps] at htok
  exact hts tok htok

theorem exists_legible_sentence {settings : Settings} {files : String → Option Vocabulary}
    {start source : String} {t : Tree} (h : parse settings files start source = .ok t) :
    ∃ s : Sentence, s.tree = t ∧ ∀ tok ∈ s.tokens, tok.Legible (some (charsOf source)) := by
  obtain ⟨v, start', s, hsentence, htree⟩ := exists_sentence_of_parse h
  refine ⟨s, htree, fun tok htok => ?_⟩
  obtain ⟨w, hw, hmem⟩ := exists_word_of_parseSentence hsentence htok
  have hsource : source.toList = [] ++ source.toList := rfl
  exact Scan.legible_of_mem hsource rfl hw hmem

theorem Token.legible_none (tok : Token) : tok.Legible none := by
  intro k text _
  show String.join [text] = text
  simp [String.join]

/-! ### Trees of sentences -/

theorem Phrase.Sentence.rule?_tree (s : Sentence) : s.tree.rule? = some s.start.kind.rule := by
  cases s with
  | program stmts => rfl
  | expr e => exact rule?_expr e

theorem Phrase.Sentence.isNode_tree (s : Sentence) : s.tree.isNode = true := by
  cases h : s.tree with
  | token leaf =>
    have hrule := s.rule?_tree
    rw [h] at hrule
    cases hrule
  | node rule region? children => rfl

/-- What the builder of a kind makes of the tree of a sentence is the same for all sources that the
literals of the sentence are legible in. -/
theorem Phrase.Sentence.exists_result_node (s : Sentence) (settings : Settings) (a : Nat)
    (k : Kind) :
    ∃ r, ∀ source, (∀ tok ∈ s.tokens, tok.Legible source) →
      (Builder.node a k (Cursor.ofTree settings source s.tree)).result = r := by
  have hbefore (source : Option (Array Char)) :=
    Cursor.before_ofTree settings source s.isNode_tree
  have hat (source : Option (Array Char)) := ofTree_at settings source s.tree
  by_cases hany : k = .anyNode
  · subst hany
    exact ⟨_, fun _ _ => rfl⟩
  by_cases hrule : s.start.kind.rule = k.rule
  · have hne : ∀ start : Start, start.kind.rule ≠ "" := by
      intro start
      cases start <;> decide
    obtain rfl : s.start.kind = k := Kind.rule_injective (hne s.start) hrule
    cases s with
    | program stmts =>
      refine ⟨(buildProgram settings.radixFloats a stmts).map .program, fun source hlegible => ?_⟩
      have hat := hat source
      rw [branches_program] at hat
      exact (Builder.yields_map (yields_program hlegible hat) Node.program).result_eq
    | expr e =>
      refine ⟨(e.build settings.radixFloats a).map .expression, fun source hlegible => ?_⟩
      have hat := hat source
      rw [show (Sentence.expr e).tree = e.tree from rfl, e.branches_tree] at hat
      exact (Builder.yields_map (e.yields_expression hlegible a _ _ hat) Node.expression).result_eq
  by_cases hparams : k = .params
  · subst hparams
    cases s with
    | program stmts =>
      have hmain : (Sentence.program stmts).tree.rule? ≠ some Kind.expression.rule := by
        show some "main" ≠ some "expr"
        decide
      refine ⟨.ok (.params []), fun source _ => ?_⟩
      rw [Builder.node_params_of_ne a (hbefore source) hmain]
    | expr e =>
      refine ⟨([e].mapM (Expr.build settings.radixFloats a)).map .params, fun source hlegible => ?_⟩
      have hat := hat source
      rw [show (Sentence.expr e).tree = e.tree from rfl, e.branches_tree] at hat
      have hmany := Builder.yields_many (Builder.opens_expression a).selects
        (List.forall_mem_singleton.mpr (e.yields_expression hlegible a)) hat
      exact (Builder.yields_map hmany Node.params).result_eq
  · refine ⟨.error (.noMatch ⟨[k.rule], s.tree.rule?⟩), fun source _ => ?_⟩
    have hc := hbefore source
    have hne : s.tree.rule? ≠ some k.rule := by
      rw [s.rule?_tree]
      exact fun h => hrule (Option.some.inj h)
    rw [← hc.rule?_cons] at hne ⊢
    rw [(Builder.opens_node a hparams hany).declines _ hc.ahead_ne_outside hne]

/-! ### Errors without texts -/

/-- A site without the text. -/
def Site.untexted (s : Site) : Site := { s with text := "" }

/-- An error without the text of the node that it is about, unless this is a bad literal. -/
def FatalError.untexted (e : FatalError) : FatalError :=
  match e.cause with
  | .badLiteral _ => e
  | _ => { e with site := e.site.map Site.untexted }

def Failure.untexted : Failure → Failure
  | fatal e => fatal e.untexted
  | e => e

def Error.untexted : Error → Error
  | build e => build e.untexted
  | e => e

theorem FatalError.message_untexted (e : FatalError) : e.untexted.message = e.message := by
  obtain ⟨site, cause⟩ := e
  cases cause <;> cases site <;> rfl

theorem Failure.untexted_atRoot {s s' : Site} (h : s.untexted = s'.untexted) (kind : Kind)
    (e : Failure) : (e.atRoot kind (some s)).untexted = (e.atRoot kind (some s')).untexted := by
  cases e with
  | noMatch m => exact congrArg (fun s => fatal ⟨some s, .rootMismatch kind m⟩) h
  | tooDeep => exact congrArg (fun s => fatal ⟨some s, .rootTooDeep kind⟩) h
  | _ => rfl

/-- **Without the source the same is built of its tree.** Whatever the source, the grammar and the
settings, a conversion of the tree to any kind of nodes yields the same node with the source and
without, or reports the same error: of the same cause, and about a node of the same rule at the same
place. The text of the node is the same where it is a bad literal, and it is no part of the message
otherwise. -/
theorem convert_sourceless (allowance : Nat) (settings : Settings) {settings' : Settings}
    {files : String → Option Vocabulary} {start source : String} {t : Tree}
    (h : parse settings' files start source = .ok t) (k : Kind) :
    (convertUnder allowance settings (some source) k t).result.mapError Error.untexted =
      (convertUnder allowance settings none k t).result.mapError Error.untexted := by
  obtain ⟨s, rfl, hlegible⟩ := exists_legible_sentence h
  obtain ⟨r, hr⟩ := s.exists_result_node settings allowance k
  have hwith := hr _ hlegible
  have hwithout := hr none fun tok _ => tok.legible_none
  cases htree : s.tree with
  | token leaf =>
    have hnode := s.isNode_tree
    rw [htree] at hnode
    cases hnode
  | node rule region? children =>
    rw [htree] at hwith hwithout
    unfold convertUnder
    rw [result_convertWith, result_convertWith, Option.map_some, Option.map_none, hwith, hwithout]
    cases r with
    | ok n => rfl
    | error e =>
      have hsite : (Tree.site (some (charsOf source)) rule region? children).untexted =
          (Tree.site none rule region? children).untexted := rfl
      exact congrArg (fun e => Except.error (Error.build e)) (e.untexted_atRoot hsite k)

/-- The two texts of this program differ, and its bad literal is reported by either way. -/
theorem convert_sourceless_char :
    ∃ t, parse {} (fun _ => none) "main" "1;  // one\n2 ** ('ab');" = .ok t ∧
      t.text (some (charsOf "1;  // one\n2 ** ('ab');")) = "1;  // one\n2 ** ('ab');" ∧
      t.text none = "12'ab'" ∧
      (convertUnder 900 {} (some "1;  // one\n2 ** ('ab');") .program t).result.mapError
          Error.untexted =
        (convertUnder 900 {} none .program t).result.mapError Error.untexted := by
  have hany : (parse {} (fun _ => none) "main" "1;  // one\n2 ** ('ab');").toOption.any
      (fun t => t.text (some (charsOf "1;  // one\n2 ** ('ab');")) = "1;  // one\n2 ** ('ab');" ∧
        t.text none = "12'ab'") = true := by
    decide +kernel
  cases hparse : parse {} (fun _ => none) "main" "1;  // one\n2 ** ('ab');" with
  | error e =>
    rw [hparse] at hany
    cases hany
  | ok t =>
    rw [hparse] at hany
    obtain ⟨hwith, hwithout⟩ := of_decide_eq_true hany
    exact ⟨t, rfl, hwith, hwithout, convert_sourceless 900 {} hparse .program⟩

end RuleTree
