import Mathlib.Data.List.Forall2
import Mathlib.Data.Set.List
import RuleTree.Ast.Node
import RuleTree.Proofs.Builder.Protocol
import RuleTree.Proofs.Tree.Descent

/-!
# The schema of rule trees

Which trees typed syntax is built of, said of the trees alone: what may stand directly below a node
of each kind, and that every literal has a value. And what the syntax looks like: node by node of
the same kind, with the same value and the same parts in the same order, where nothing is kept of
what stands in a statement.

* `Kind.Admits`: which kinds may stand below a kind.
* `Descent.Conforms`: the trees that keep to this at every node.
* `Node.parts`, `Node.decoded?`: what a typed node is made of.
* `Node.admits_parts`, `Node.exists_of_admits`: the parts of a node are what its kind admits.
* `Descent.Mirrors`: a typed node has the shape of a tree.
-/

namespace RuleTree

namespace Kind

/-- The kinds that may stand directly below a kind, in order. -/
def Admits (k : Kind) (below : List Kind) : Prop :=
  match k with
  | program => ∀ l ∈ below, l = statement
  | statement | array | tuple => ∀ l ∈ below, l = expression
  | expression => below = [term] ∨ below = [term, operator, term]
  | k =>
    match k.variants? with
    | some variants => ∃ l ∈ variants, below = [l]
    | none => below = []

theorem rule_injective {k l : Kind} (hk : k.rule ≠ "") (h : k.rule = l.rule) : k = l := by
  have hall : ∀ k ∈ all, ∀ l ∈ all, k.rule ≠ "" → k.rule = l.rule → k = l := by decide +kernel
  exact hall k (mem_all k) l (mem_all l) hk h

theorem isGeneral_eq_false {k : Kind} (hk : k.rule ≠ "") : k.isGeneral = false := by
  have hancestors : ∀ l ∈ all, ∀ a ∈ l.ancestors, a.rule = "" := by decide +kernel
  rw [isGeneral, List.any_eq_false]
  exact fun l hl hmem => hk (hancestors l hl k (List.contains_iff_mem.mp hmem))

theorem nodup_variants {k : Kind} {variants : List Kind} (hk : k.variants? = some variants) :
    (variants.map rule).Nodup ∧ ∀ l ∈ variants, l.rule ≠ "" := by
  have hall : ∀ k ∈ all, ∀ variants ∈ k.variants?,
      (variants.map rule).Nodup ∧ ∀ l ∈ variants, l.rule ≠ "" := by decide +kernel
  exact hall k (mem_all k) variants hk

theorem Admits.rule_ne {k l : Kind} {below : List Kind} (h : k.Admits below) (hl : l ∈ below) :
    l.rule ≠ "" := by
  have hmany {m : Kind} (hm : m.rule ≠ "") (h : ∀ l ∈ below, l = m) : l.rule ≠ "" := h l hl ▸ hm
  have hchoice {variants : List Kind} (hk : k.variants? = some variants)
      (h : ∃ l ∈ variants, below = [l]) : l.rule ≠ "" := by
    obtain ⟨m, hm, rfl⟩ := h
    exact List.mem_singleton.mp hl ▸ (nodup_variants hk).2 m hm
  cases k with
  | program => exact hmany (m := statement) (by decide) h
  | statement | array | tuple => exact hmany (m := expression) (by decide) h
  | expression =>
    have hall : ∀ l ∈ [term, operator, term], l.rule ≠ "" := by decide
    refine hall l ?_
    rcases h with rfl | rfl
    · exact List.mem_cons.mpr (.inl (List.mem_singleton.mp hl))
    · exact hl
  | term | value | primitive | operator | integer => exact hchoice rfl h
  | _ =>
    cases h
    cases hl

theorem Admits.eq_of_rules {k : Kind} {below kinds : List Kind} (h : k.Admits below)
    (hrules : below.map (some ·.rule) = kinds.map (some ·.rule)) : below = kinds := by
  have hbelow : ∀ l ∈ below, l.rule ≠ "" := fun _ hl => h.rule_ne hl
  clear h
  induction below generalizing kinds with
  | nil => exact (List.map_eq_nil_iff.mp hrules.symm).symm
  | cons l ls ih =>
    obtain ⟨hl, hls⟩ := List.forall_mem_cons.mp hbelow
    cases kinds with
    | nil => cases hrules
    | cons m ms =>
      obtain ⟨hrule, hrules⟩ := List.cons.inj hrules
      rw [rule_injective hl (Option.some.inj hrule), ih hrules hls]

theorem Admits.eq_nil {k : Kind} {below : List Kind} (h : k.Admits below) {settings : Settings}
    {decoder : Decoder} (hdecoder : k.decoder? settings = some decoder) : below = [] := by
  cases k with
  | numeral | float | char | string => exact h
  | _ => cases hdecoder

end Kind

namespace Node

/-- The typed nodes directly inside a typed node, in order. -/
def parts : Node → List Node
  | program p => p.statements.map statement
  | expression (.single t) => [term t]
  | expression (.binary l o r) => [term l, operator o, term r]
  | params es | array es | tuple es | anySequence es => es.map expression
  | term (.value v) => [value v]
  | term (.group e) => [expression e]
  | value (.primitive p) => [primitive p]
  | value (.string s) => [string s]
  | value (.array es) => [array es]
  | value (.tuple es) => [tuple es]
  | primitive (.integer r n) => [integer r n]
  | primitive (.float x) => [float x]
  | primitive (.char c) => [char c]
  | operator o => [marker o]
  | integer r n => [numeral r n]
  | _ => []

/-- The value of a literal. -/
def decoded? : Node → Option Decoded
  | numeral _ n => some (.integer n)
  | float x => some (.float x)
  | char c => some (.text (String.singleton c))
  | string s => some (.text s)
  | _ => none

variable {n : Node}

theorem admits_parts (hn : n.kind.rule ≠ "") : n.kind.Admits (n.parts.map kind) := by
  cases n with
  | params | anySequence | anyMarker | anyNumeral => exact absurd rfl hn
  | operator o => cases o <;> simp [kind, parts, Kind.Admits, Kind.variants?, Operator.all]
  | integer r => cases r <;> simp [kind, parts, Kind.Admits, Kind.variants?]
  | expression x | term x | value x | primitive x =>
    cases x <;> simp [kind, parts, Kind.Admits, Kind.variants?]
  | _ => simp [kind, parts, Kind.Admits, Kind.variants?]

theorem rule_ne_of_mem_parts (hn : n.kind.rule ≠ "") {m : Node} (hm : m ∈ n.parts) :
    m.kind.rule ≠ "" :=
  (admits_parts hn).rule_ne (List.mem_map_of_mem hm)

theorem exists_map_eq {α : Type} {f : α → Node} {k : Kind} {ms : List Node}
    (hf : ∀ m, m.kind = k → ∃ a, f a = m) (h : ∀ l ∈ ms.map kind, l = k) :
    ∃ as : List α, as.map f = ms := by
  have hms : ms ∈ Set.range (List.map f) := by
    rw [Set.range_list_map]
    exact fun m hm => hf m (h _ (List.mem_map_of_mem hm))
  exact hms

theorem exists_expression {m : Node} (h : m.kind = .expression) : ∃ e, expression e = m := by
  cases m with
  | expression e => exact ⟨e, rfl⟩
  | _ => cases h

theorem exists_statement {m : Node} (h : m.kind = .statement) : ∃ s, statement s = m := by
  cases m with
  | statement s => exact ⟨s, rfl⟩
  | _ => cases h

theorem exists_term {m : Node} (h : m.kind = .term) : ∃ x, term x = m := by
  cases m with
  | term x => exact ⟨x, rfl⟩
  | _ => cases h

theorem exists_operator {m : Node} (h : m.kind = .operator) : ∃ o, operator o = m := by
  cases m with
  | operator o => exact ⟨o, rfl⟩
  | _ => cases h

theorem exists_of_decoder {k : Kind} {settings : Settings} {decoder : Decoder} {text : String}
    {v : Decoded} (hdecoder : k.decoder? settings = some decoder) (hv : decoder.run text = .ok v) :
    ∃ n : Node, n.kind = k ∧ n.parts = [] ∧ n.decoded? = some v := by
  cases k with
  | numeral r =>
    cases hdecoder
    obtain ⟨n, -, rfl⟩ := map_eq_ok_iff.mp hv
    exact ⟨.numeral r n, rfl, rfl, rfl⟩
  | float =>
    have hfloat : ∃ x, Decoded.float x = v := by
      cases hdecoder
      split at hv
      · obtain ⟨x, -, rfl⟩ := map_eq_ok_iff.mp hv
        exact ⟨x, rfl⟩
      · obtain ⟨x, -, rfl⟩ := map_eq_ok_iff.mp hv
        exact ⟨x, rfl⟩
    obtain ⟨x, rfl⟩ := hfloat
    exact ⟨.float x, rfl, rfl, rfl⟩
  | char =>
    cases hdecoder
    obtain ⟨c, -, rfl⟩ := map_eq_ok_iff.mp hv
    exact ⟨.char c, rfl, rfl, rfl⟩
  | string =>
    cases hdecoder
    cases hv
    exact ⟨.string (decodeString text), rfl, rfl, rfl⟩
  | _ => cases hdecoder

theorem exists_of_variant {k : Kind} {variants : List Kind} (hk : k.variants? = some variants)
    {m : Node} (hm : m.kind ∈ variants) :
    ∃ n : Node, n.kind = k ∧ n.parts = [m] ∧ n.decoded? = none := by
  cases k with
  | term =>
    cases hk
    cases m with
    | value v => exact ⟨.term (.value v), rfl, rfl, rfl⟩
    | expression e => exact ⟨.term (.group e), rfl, rfl, rfl⟩
    | _ => simp [kind] at hm
  | value =>
    cases hk
    cases m with
    | primitive p => exact ⟨.value (.primitive p), rfl, rfl, rfl⟩
    | string s => exact ⟨.value (.string s), rfl, rfl, rfl⟩
    | array es => exact ⟨.value (.array es), rfl, rfl, rfl⟩
    | tuple es => exact ⟨.value (.tuple es), rfl, rfl, rfl⟩
    | _ => simp [kind] at hm
  | primitive =>
    cases hk
    cases m with
    | integer r n => exact ⟨.primitive (.integer r n), rfl, rfl, rfl⟩
    | float x => exact ⟨.primitive (.float x), rfl, rfl, rfl⟩
    | char c => exact ⟨.primitive (.char c), rfl, rfl, rfl⟩
    | _ => simp [kind] at hm
  | operator =>
    cases hk
    cases m with
    | marker o => exact ⟨.operator o, rfl, rfl, rfl⟩
    | _ => simp [kind] at hm
  | integer =>
    cases hk
    cases m with
    | numeral r n => exact ⟨.integer r n, rfl, rfl, rfl⟩
    | _ => simp [kind] at hm
  | _ => cases hk

/-- Nodes of the kinds that are admitted below a kind are the parts of a node, where the kind is not
of literals. -/
theorem exists_of_admits {k : Kind} {ms : List Node} (hk : k.rule ≠ "") (hs : k ≠ .statement)
    {settings : Settings} (hdecoder : k.decoder? settings = none) (hms : k.Admits (ms.map kind)) :
    ∃ n : Node, n.kind = k ∧ n.parts = ms ∧ n.decoded? = none := by
  cases k with
  | params | anyNode | anyChoice | anySequence | anyMarker | anyNumeral => exact absurd rfl hk
  | numeral | float | char | string => cases hdecoder
  | statement => exact absurd rfl hs
  | program =>
    obtain ⟨ss, rfl⟩ := exists_map_eq (fun _ => exists_statement) hms
    exact ⟨.program ⟨ss⟩, rfl, rfl, rfl⟩
  | array =>
    obtain ⟨es, rfl⟩ := exists_map_eq (fun _ => exists_expression) hms
    exact ⟨.array es, rfl, rfl, rfl⟩
  | tuple =>
    obtain ⟨es, rfl⟩ := exists_map_eq (fun _ => exists_expression) hms
    exact ⟨.tuple es, rfl, rfl, rfl⟩
  | marker o =>
    cases List.map_eq_nil_iff.mp hms
    exact ⟨.marker o, rfl, rfl, rfl⟩
  | expression =>
    rcases hms with h | h
    · obtain ⟨m, rfl, hm⟩ := List.map_eq_singleton_iff.mp h
      obtain ⟨x, rfl⟩ := exists_term hm
      exact ⟨.expression (.single x), rfl, rfl, rfl⟩
    · simp only [List.map_eq_cons_iff, List.map_eq_nil_iff] at h
      obtain ⟨l, _, rfl, hl, o, _, rfl, ho, r, _, rfl, hr, rfl⟩ := h
      obtain ⟨x, rfl⟩ := exists_term hl
      obtain ⟨o, rfl⟩ := exists_operator ho
      obtain ⟨y, rfl⟩ := exists_term hr
      exact ⟨.expression (.binary x o y), rfl, rfl, rfl⟩
  | term | value | primitive | operator | integer =>
    obtain ⟨l, hl, h⟩ := hms
    obtain ⟨m, rfl, rfl⟩ := List.map_eq_singleton_iff.mp h
    exact exists_of_variant rfl hl

end Node

namespace Descent

/-- The tree keeps to the schema: its root has the rule of a kind, below it stand nodes of kinds
that are admitted there and that keep to the schema themselves, and if it is a literal, its text has
a value. -/
inductive Conforms (d : Descent) : Tree → Prop
  | node {k : Kind} {t : Tree} {below : List Kind} : k.rule ≠ "" → t.rule? = some k.rule →
      k.Admits below → t.subtrees.map Tree.rule? = below.map (some ·.rule) →
      (∀ decoder, k.decoder? d.settings = some decoder →
        ∃ v, decoder.run (t.text d.source) = .ok v) →
      (∀ u ∈ t.subtrees, Conforms d u) → Conforms d t

/-- The typed node is made of the tree: it is of the kind that the root has the rule of, it has the
value of the text if it is a literal, and its parts are made of the nodes below the root, one for
each and in their order. A statement keeps nothing of what is below it. -/
inductive Mirrors (d : Descent) : Tree → Node → Prop
  | statement {t : Tree} : t.rule? = some Kind.statement.rule → Mirrors d t (.statement {})
  | node {t : Tree} {n : Node} : n.kind ≠ .statement → t.rule? = some n.kind.rule →
      n.decoded?.map .ok = (n.kind.decoder? d.settings).map (·.run (t.text d.source)) →
      List.Forall₂ (Mirrors d) t.subtrees n.parts → Mirrors d t n

end Descent

end RuleTree
