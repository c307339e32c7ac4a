import RuleTree.Proofs.Grammar.Phrase

/-!
# The parts of a tree

Every node and every token in the tree of a derivation shows a part of the derivation, and the tokens
that this part derives stand side by side among those of the whole.

* `Tree.parts`: a tree and all that is below it.
* `Shows u us`: the tree `u` shows a derivation of the tokens `us` by a rule, or a single token.
* `Derivation.showsPart_of_mem_parts`: what the parts of a tree show. Below the rule of programs
  none of them is without tokens.
* `Derivation.pairwise_showApart`: trees side by side show tokens one after another.
-/

namespace RuleTree

namespace Tree

mutual

/-- A tree with all nodes and tokens below it, each of them before those below it. -/
def parts : Tree → List Tree
  | token leaf => [token leaf]
  | node rule region? children => node rule region? children :: partsOf children

def partsOf : List Tree → List Tree
  | [] => []
  | t :: ts => t.parts ++ partsOf ts

end

/-- The nodes and tokens directly below a node. -/
def children : Tree → List Tree
  | token _ => []
  | node _ _ children => children

theorem self_mem_parts (t : Tree) : t ∈ t.parts := by
  cases t <;> simp [parts]

theorem partsOf_append (ts us : List Tree) : partsOf (ts ++ us) = partsOf ts ++ partsOf us := by
  induction ts with
  | nil => rfl
  | cons t ts ih => rw [List.cons_append, partsOf, ih, partsOf, List.append_assoc]

theorem mem_partsOf {t : Tree} {ts : List Tree} (h : t ∈ ts) : t ∈ partsOf ts := by
  obtain ⟨before, behind, rfl⟩ := List.append_of_mem h
  simp [partsOf_append, partsOf, self_mem_parts]

end Tree

namespace Grammar

open RuleTree.Tree

/-! ### Patterns -/

namespace Pattern

/-- Whether every derivation of the pattern has a token. -/
def isSolid : Pattern → Bool
  | named _ => true
  | fixed _ => true
  | rule r => r ≠ .main
  | both p q => p.isSolid || q.isSolid
  | either p q => p.isSolid && q.isSolid
  | optional _ => false
  | many _ => false

/-- The rules that a pattern is made of. -/
def rules : Pattern → List Rule
  | named _ => []
  | fixed _ => []
  | rule r => [r]
  | both p q => p.rules ++ q.rules
  | either p q => p.rules ++ q.rules
  | optional p => p.rules
  | many p => p.rules

end Pattern

theorem Rule.isSolid_body {r : Rule} (h : r ≠ .main) : r.body.isSolid = true := by
  cases r with
  | main => exact absurd rfl h
  | integerIn r => cases r <;> decide
  | op o => rfl
  | _ => decide

theorem Rule.main_not_mem_rules (r : Rule) : Rule.main ∉ r.body.rules := by
  cases r with
  | integerIn r => cases r <;> decide
  | op o => simp [Pattern.rules]
  | _ => decide

theorem Derivation.tokens_ne_nil {p : Pattern} (d : Derivation p) (hp : p.isSolid = true) :
    d.tokens ≠ [] := by
  induction d with
  | named k text span => simp [tokens]
  | fixed l span => simp [tokens]
  | rule r d ih =>
    have hr : r ≠ .main := by simpa [Pattern.isSolid] using hp
    exact ih (Rule.isSolid_body hr)
  | both d e ihd ihe =>
    rw [Pattern.isSolid, Bool.or_eq_true] at hp
    rcases hp with hp | hp
    · simp [tokens, ihd hp]
    · simp [tokens, ihe hp]
  | left d ih =>
    rw [Pattern.isSolid, Bool.and_eq_true] at hp
    exact ih hp.1
  | right d ih =>
    rw [Pattern.isSolid, Bool.and_eq_true] at hp
    exact ih hp.2
  | absent => simp [Pattern.isSolid] at hp
  | present d ih => simp [Pattern.isSolid] at hp
  | done => simp [Pattern.isSolid] at hp
  | more d ds ihd ihds => simp [Pattern.isSolid] at hp

/-! ### What a tree shows -/

/-- The tree shows a single literal, or a derivation by a rule that makes a node, and the tokens are
those that are derived. -/
inductive Shows : Tree → List Token → Prop
  | token (k : LiteralKind) (text : String) (span : Span) :
    Shows (.token ⟨k.name, text, .ofSpan span⟩) [⟨.literal k text, span⟩]
  | node {r : Rule} (hr : r ≠ .exprs) (d : Derivation r.body) :
    Shows (.node r.name ((spanOfTokens? d.tokens).map .ofSpan) d.trees) d.tokens

/-- The tree shows some of the tokens, which stand side by side among them. -/
def ShowsPart (ts : List Token) (u : Tree) : Prop :=
  ∃ us, us ≠ [] ∧ us <:+: ts ∧ Shows u us

theorem ShowsPart.mono {ts ts' : List Token} {u : Tree} (h : ShowsPart ts u) (hts : ts <:+: ts') :
    ShowsPart ts' u := by
  obtain ⟨us, hne, hus, hshows⟩ := h
  exact ⟨us, hne, hus.trans hts, hshows⟩

/-- The trees show tokens one after another. -/
def ShowApart (ts : List Token) (u u' : Tree) : Prop :=
  ∃ us mid us', us ≠ [] ∧ us' ≠ [] ∧ us ++ (mid ++ us') <:+: ts ∧ Shows u us ∧ Shows u' us'

theorem ShowApart.mono {ts ts' : List Token} {u u' : Tree} (h : ShowApart ts u u')
    (hts : ts <:+: ts') : ShowApart ts' u u' := by
  obtain ⟨us, mid, us', hne, hne', hus, hshows⟩ := h
  exact ⟨us, mid, us', hne, hne', hus.trans hts, hshows⟩

theorem ShowsPart.apart {ts ts' : List Token} {u u' : Tree} (h : ShowsPart ts u)
    (h' : ShowsPart ts' u') : ShowApart (ts ++ ts') u u' := by
  obtain ⟨us, hne, ⟨before, behind, rfl⟩, hshows⟩ := h
  obtain ⟨us', hne', ⟨before', behind', rfl⟩, hshows'⟩ := h'
  exact ⟨us, behind ++ before', us', hne, hne', ⟨before, behind', by simp⟩, hshows, hshows'⟩

section Append

variable {ts us : List Token} {below below' : List Tree}

theorem showsPart_append (h : ∀ u ∈ partsOf below, ShowsPart ts u)
    (h' : ∀ u ∈ partsOf below', ShowsPart us u) :
    ∀ u ∈ partsOf (below ++ below'), ShowsPart (ts ++ us) u := by
  intro u hu
  rw [partsOf_append, List.mem_append] at hu
  rcases hu with hu | hu
  · exact (h u hu).mono (List.prefix_append ts us).isInfix
  · exact (h' u hu).mono (List.suffix_append ts us).isInfix

theorem showApart_append (h : below.Pairwise (ShowApart ts)) (h' : below'.Pairwise (ShowApart us))
    (hparts : ∀ u ∈ partsOf below, ShowsPart ts u)
    (hparts' : ∀ u ∈ partsOf below', ShowsPart us u) :
    (below ++ below').Pairwise (ShowApart (ts ++ us)) := by
  refine List.pairwise_append.mpr ⟨?_, ?_, fun u hu u' hu' => ?_⟩
  · exact h.imp fun hu => hu.mono (List.prefix_append ts us).isInfix
  · exact h'.imp fun hu => hu.mono (List.suffix_append ts us).isInfix
  · exact (hparts u (mem_partsOf hu)).apart (hparts' u' (mem_partsOf hu'))

end Append

namespace Derivation

variable {p : Pattern}

theorem mem_rules_append {r : Rule} {rs rs' : List Rule} (h : r ∉ rs ++ rs') : r ∉ rs ∧ r ∉ rs' := by
  simpa using h

/-- Every part of the trees of a derivation shows some of its tokens. -/
theorem showsPart_of_mem_parts (d : Derivation p) (hp : Rule.main ∉ p.rules) :
    ∀ u ∈ partsOf d.trees, ShowsPart d.tokens u := by
  induction d with
  | named k text span =>
    intro u hu
    have hu : u = .token ⟨k.name, text, .ofSpan span⟩ := by simpa [trees, partsOf, parts] using hu
    exact ⟨_, List.cons_ne_nil _ _, List.infix_rfl, hu ▸ .token k text span⟩
  | fixed l span => simp [trees, partsOf]
  | rule r d ih =>
    have hbelow := ih (Rule.main_not_mem_rules r)
    have hmain : r ≠ .main := by simpa [Pattern.rules, eq_comm] using hp
    by_cases hr : r = .exprs
    · subst hr
      exact hbelow
    · intro u hu
      rw [Phrase.trees_rule hr, partsOf, partsOf, List.append_nil, parts, List.mem_cons] at hu
      rcases hu with rfl | hu
      · exact ⟨_, d.tokens_ne_nil (Rule.isSolid_body hmain), List.infix_rfl, .node hr d⟩
      · exact hbelow u hu
  | both d e ihd ihe =>
    obtain ⟨hd, he⟩ := mem_rules_append hp
    exact showsPart_append (ihd hd) (ihe he)
  | left d ih => exact ih (mem_rules_append hp).1
  | right d ih => exact ih (mem_rules_append hp).2
  | absent => simp [trees, partsOf]
  | present d ih => exact ih hp
  | done => simp [trees, partsOf]
  | more d ds ihd ihds => exact showsPart_append (ihd hp) (ihds hp)

theorem pairwise_showApart (d : Derivation p) (hp : Rule.main ∉ p.rules) :
    d.trees.Pairwise (ShowApart d.tokens) := by
  induction d with
  | named k text span => simp [trees]
  | fixed l span => simp [trees]
  | rule r d ih =>
    by_cases hr : r = .exprs
    · subst hr
      exact ih (Rule.main_not_mem_rules _)
    · simp [Phrase.trees_rule hr]
  | both d e ihd ihe =>
    obtain ⟨hd, he⟩ := mem_rules_append hp
    exact showApart_append (ihd hd) (ihe he) (d.showsPart_of_mem_parts hd)
      (e.showsPart_of_mem_parts he)
  | left d ih => exact ih (mem_rules_append hp).1
  | right d ih => exact ih (mem_rules_append hp).2
  | absent => simp [trees]
  | present d ih => exact ih hp
  | done => simp [trees]
  | more d ds ihd ihds =>
    exact showApart_append (ihd hp) (ihds hp) (d.showsPart_of_mem_parts hp)
      (ds.showsPart_of_mem_parts hp)

end Derivation

end Grammar

end RuleTree
