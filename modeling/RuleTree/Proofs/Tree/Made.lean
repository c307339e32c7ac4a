import RuleTree.Proofs.Builder.Recursion
import RuleTree.Proofs.List.Related
import RuleTree.Proofs.Tree.Schema

/-!
# What the descent makes of a tree

When the descent makes a typed node of a tree, and which. Each of its functions has a value exactly
if the tree has the rule for it and the parts of the value are made of the nodes below the root, one
for each and in their order; a literal is made of the text. From that it follows by induction on the
tree that there is a value where the tree keeps to the schema, and what it looks like.

* `Descent.Makes`: the descent makes a typed node of a tree.
* `Descent.select_eq_ok_iff`, `Descent.each_eq_ok_iff`: one of several variants, and lists.
* `Descent.makes_iff`: a node is made of a tree if its parts are made of the nodes below the root.
* `Descent.Makes.conforms`, `Descent.Makes.mirrors`, `Descent.Conforms.exists_makes` and
  `Descent.Mirrors.makes`: what that comes to for whole trees.
-/

namespace RuleTree

theorem Tree.subtrees_induction {p : Tree → Prop}
    (step : ∀ t : Tree, (∀ u ∈ t.subtrees, p u) → p t) (t : Tree) : p t :=
  step t fun u hu =>
    have : sizeOf u < sizeOf t := Nat.lt_trans (List.sizeOf_lt_of_mem hu) t.sizeOf_subtrees_lt
    subtrees_induction step u
termination_by sizeOf t

namespace Descent

variable {α : Type} {d : Descent} {k : Kind} {t : Tree} {a b : α} {site : Site}

/-! ### Single nodes -/

theorem under_eq_ok_iff {parts : Except Failure α} :
    under k t parts = .ok a ↔ t.rule? = some k.rule ∧ parts = .ok a := by
  unfold under
  split
  · simp [*]
  · simp [*, decline]

theorem close_eq_ok_iff {ts : List Tree} : d.close site a ts = .ok b ↔ ts = [] ∧ a = b := by
  cases ts <;> simp [close, reject]

theorem need_eq_ok_iff {what : String} {part : Except Failure α} :
    need site what part = .ok a ↔ part = .ok a := by
  unfold need
  split <;> simp [reject]

theorem maybe_eq_ok_some_iff {part : Except Failure α} :
    maybe part = .ok (some a) ↔ part = .ok a := by
  unfold maybe
  split <;> simp

theorem declineAs_eq_ok_iff {rules : List String} {found : Option String}
    {part : Except Failure α} : declineAs rules found part = .ok a ↔ part = .ok a := by
  unfold declineAs
  split <;> simp [decline]

theorem bind_close_eq_ok_iff {x : Except Failure α} {ts : List Tree} :
    (x.bind fun a => d.close site a ts) = .ok b ↔ x = .ok b ∧ ts = [] := by
  rw [bind_eq_ok_iff]
  simp only [close_eq_ok_iff]
  constructor
  · rintro ⟨a, hx, hts, rfl⟩
    exact ⟨hx, hts⟩
  · rintro ⟨hx, hts⟩
    exact ⟨b, hx, hts, rfl⟩

theorem marker_eq_ok_iff :
    d.marker k a t = .ok b ↔ t.rule? = some k.rule ∧ t.subtrees = [] ∧ a = b := by
  rw [marker, under_eq_ok_iff, close_eq_ok_iff]

theorem decode_eq_ok_iff {decoder : String → Except Fault α} :
    decode site decoder = .ok a ↔ decoder site.text = .ok a := by
  unfold decode
  split <;> simp_all [reject]

theorem leaf_eq_ok_iff {decoder : String → Except Fault α} :
    d.leaf k decoder t = .ok a ↔
      t.rule? = some k.rule ∧ decoder (t.text d.source) = .ok a ∧ t.subtrees = [] := by
  rw [leaf, under_eq_ok_iff]
  refine and_congr_right fun _ => bind_close_eq_ok_iff.trans ?_
  rw [decode_eq_ok_iff]
  rfl

/-! ### What is made -/

/-- The typed node is what the descent makes of the tree. -/
def Makes (d : Descent) (t : Tree) (n : Node) : Prop := d.node n.kind t = .ok n

theorem makes_iff_eq_ok {g : α → Node} {part : Except Failure α}
    (hnode : d.node (g a).kind t = part.map g) (hg : ∀ {b}, g b = g a → b = a) :
    d.Makes t (g a) ↔ part = .ok a := by
  rw [Makes, hnode, map_eq_ok_iff]
  constructor
  · rintro ⟨b, hb, heq⟩
    rwa [hg heq] at hb
  · exact fun h => ⟨a, h, rfl⟩

theorem kind_of_node {n : Node} (hk : k.rule ≠ "") (h : d.node k t = .ok n) : n.kind = k := by
  cases k with
  | params | anyNode | anyChoice | anySequence | anyMarker | anyNumeral => exact absurd rfl hk
  | marker o =>
    obtain ⟨a, ha, rfl⟩ := map_eq_ok_iff.mp h
    obtain ⟨-, -, rfl⟩ := marker_eq_ok_iff.mp ha
    rfl
  | _ =>
    obtain ⟨a, -, rfl⟩ := map_eq_ok_iff.mp h
    rfl

theorem rule?_of_map_under {β : Type} {f : α → β} {parts : Except Failure α} {b : β}
    (h : (under k t parts).map f = .ok b) : t.rule? = some k.rule := by
  obtain ⟨a, ha, -⟩ := map_eq_ok_iff.mp h
  exact (under_eq_ok_iff.mp ha).1

theorem Makes.rule? {n : Node} (h : d.Makes t n) (hn : n.kind.rule ≠ "") :
    t.rule? = some n.kind.rule := by
  cases n with
  | params | anySequence | anyMarker | anyNumeral => exact absurd rfl hn
  | expression e =>
    rw [Makes, Node.kind, node, expression] at h
    exact rule?_of_map_under h
  | term x =>
    rw [Makes, Node.kind, node, term] at h
    exact rule?_of_map_under h
  | value v =>
    rw [Makes, Node.kind, node, value] at h
    exact rule?_of_map_under h
  | array es | tuple es =>
    rw [Makes, Node.kind, node, sequence] at h
    exact rule?_of_map_under h
  | _ => exact rule?_of_map_under h

/-! ### Choices -/

theorem select_eq_ok_iff {variants : List (Kind × Except Failure α)}
    (hnodup : (variants.map (·.1.rule)).Nodup) :
    select t variants = .ok a ↔ ∃ v ∈ variants, t.rule? = some v.1.rule ∧ v.2 = .ok a := by
  unfold select
  generalize variants.map (·.1.rule) = rules
  induction variants with
  | nil => simp [selectFrom, decline]
  | cons v vs ih =>
    obtain ⟨k, part⟩ := v
    rw [List.map_cons, List.nodup_cons] at hnodup
    rw [selectFrom, List.exists_mem_cons_iff]
    split
    case isTrue ht =>
      rw [declineAs_eq_ok_iff, and_iff_right ht]
      refine (or_iff_left ?_).symm
      rintro ⟨v, hv, hrule, -⟩
      rw [ht] at hrule
      exact hnodup.1 (List.mem_map.mpr ⟨v, hv, (Option.some.inj hrule).symm⟩)
    case isFalse ht =>
      rw [ih hnodup.2]
      exact (or_iff_right fun h => ht h.1).symm

theorem select_close_eq_ok_iff {variants : List (Kind × Except Failure α)}
    (hk : k.variants? = some (variants.map (·.1))) {n : Node} (hn : n.kind ∈ variants.map (·.1))
    (hpart : (∃ v ∈ variants, t.rule? = some v.1.rule ∧ v.2 = .ok a) ↔
      t.rule? = some n.kind.rule ∧ d.Makes t n) {ts : List Tree} :
    ((select t variants).bind fun a => d.close site a ts) = .ok a ↔
      List.Forall₂ d.Makes (t :: ts) [n] := by
  obtain ⟨hnodup, hrule⟩ := Kind.nodup_variants hk
  rw [List.map_map] at hnodup
  rw [bind_close_eq_ok_iff, select_eq_ok_iff hnodup, hpart, List.forall₂_cons,
    List.forall₂_nil_right_iff]
  exact and_congr_left fun _ => and_iff_right_of_imp fun h => h.rule? (hrule _ hn)

theorem choice_eq_ok_iff {fs : List (Kind × (Tree → Except Failure α))}
    (hk : k.variants? = some (fs.map (·.1))) {n : Node} (hn : n.kind ∈ fs.map (·.1))
    (hpart : ∀ u, (∃ f ∈ fs, u.rule? = some f.1.rule ∧ f.2 u = .ok a) ↔
      u.rule? = some n.kind.rule ∧ d.Makes u n) :
    d.choice k fs t = .ok a ↔
      t.rule? = some k.rule ∧ List.Forall₂ d.Makes t.subtrees [n] := by
  rw [choice, under_eq_ok_iff]
  refine and_congr_right fun _ => ?_
  cases t.subtrees with
  | nil => simp [decline]
  | cons u us =>
    have hkinds : (fs.map fun f => (f.1, f.2 u)).map (·.1) = fs.map (·.1) := by
      rw [List.map_map]
      rfl
    refine select_close_eq_ok_iff (by rwa [hkinds]) (by rwa [hkinds]) ?_
    rw [← hpart u]
    simp only [List.mem_map, exists_exists_and_eq_and]

theorem operator_eq_ok_iff {o : Operator} : d.operator t = .ok o ↔
    t.rule? = some Kind.operator.rule ∧
      List.Forall₂ d.Makes t.subtrees (Node.operator o).parts := by
  refine choice_eq_ok_iff rfl (n := .marker o) (by simp [Node.kind, Operator.mem_all]) fun u => ?_
  simp [Makes, Node.kind, node, map_eq_ok_iff, marker_eq_ok_iff, Operator.mem_all]

theorem integer_eq_ok_iff {r : Radix} {m : Int} : d.integer t = .ok (r, m) ↔
    t.rule? = some Kind.integer.rule ∧
      List.Forall₂ d.Makes t.subtrees (Node.integer r m).parts := by
  refine choice_eq_ok_iff rfl (n := .numeral r m) (by cases r <;> simp [Node.kind]) fun u => ?_
  cases r <;> simp [Makes, Node.kind, node, map_eq_ok_iff]

theorem primitive_eq_ok_iff {p : Primitive} : d.primitive t = .ok p ↔
    t.rule? = some Kind.primitive.rule ∧
      List.Forall₂ d.Makes t.subtrees (Node.primitive p).parts := by
  cases p <;> exact choice_eq_ok_iff rfl (by simp [Node.kind]) fun u => by
    simp [Makes, Node.kind, node, map_eq_ok_iff]

theorem term_eq_ok_iff {x : Term} : d.term t = .ok x ↔
    t.rule? = some Kind.term.rule ∧ List.Forall₂ d.Makes t.subtrees (Node.term x).parts := by
  rw [term, under_eq_ok_iff]
  refine and_congr_right fun _ => ?_
  cases t.subtrees with
  | nil =>
    rw [termOf]
    cases x <;> simp [decline, Node.parts]
  | cons u us =>
    rw [termOf]
    cases x <;> exact select_close_eq_ok_iff (k := .term) rfl (by simp [Node.kind]) (by
      simp [Makes, Node.kind, node, map_eq_ok_iff])

theorem value_eq_ok_iff {v : Value} : d.value t = .ok v ↔
    t.rule? = some Kind.value.rule ∧ List.Forall₂ d.Makes t.subtrees (Node.value v).parts := by
  rw [value, under_eq_ok_iff]
  refine and_congr_right fun _ => ?_
  cases t.subtrees with
  | nil =>
    rw [valueOf]
    cases v <;> simp [decline, Node.parts]
  | cons u us =>
    rw [valueOf]
    cases v <;> exact select_close_eq_ok_iff (k := .value) rfl (by simp [Node.kind]) (by
      simp [Makes, Node.kind, node, map_eq_ok_iff])

/-! ### Expressions and lists -/

theorem expression_eq_ok_iff {e : Expression} : d.expression t = .ok e ↔
    t.rule? = some Kind.expression.rule ∧
      List.Forall₂ d.Makes t.subtrees (Node.expression e).parts := by
  have hterm (u : Tree) (x : Term) : d.Makes u (.term x) ↔ d.term u = .ok x :=
    makes_iff_eq_ok rfl Node.term.inj
  have hoperator (u : Tree) (o : Operator) : d.Makes u (.operator o) ↔ d.operator u = .ok o :=
    makes_iff_eq_ok rfl Node.operator.inj
  rw [expression, under_eq_ok_iff]
  refine and_congr_right fun _ => ?_
  generalize t.subtrees = ts
  -- the cases of an expression with as many nodes below it
  rcases ts with _ | ⟨l, _ | ⟨o, _ | ⟨r, rest⟩⟩⟩
  all_goals
    rw [operands]
    cases e <;> simp [bind, bind_eq_ok_iff, need_eq_ok_iff, Option.exists, maybe_eq_ok_some_iff,
      close_eq_ok_iff, Node.parts, hterm, hoperator, pure, Except.pure, reject]

theorem each_eq_ok_iff {f : Tree → Except Failure α} (g : α → Node) (hk : k.rule ≠ "")
    (hg : ∀ a, (g a).kind = k) (hf : ∀ t a, d.Makes t (g a) ↔ f t = .ok a) {ts : List Tree}
    {as : List α} : d.each k f site ts = .ok as ↔ List.Forall₂ d.Makes ts (as.map g) := by
  induction ts generalizing as with
  | nil => cases as <;> simp [each]
  | cons t ts ih =>
    rw [each]
    split
    case isTrue =>
      simp only [bind, bind_eq_ok_iff, ih]
      cases as <;> simp [pure, Except.pure, hf]
    case isFalse ht =>
      have hne (a : α) : ¬d.Makes t (g a) := by
        intro h
        rw [h.rule? (hg a ▸ hk), hg] at ht
        exact ht rfl
      cases as <;> simp [reject, hne]

theorem items_eq_ok_iff {es : List Expression} {ts : List Tree} :
    d.items site ts = .ok es ↔ List.Forall₂ d.Makes ts (es.map .expression) := by
  rw [Builder.items_eq]
  exact each_eq_ok_iff .expression (by decide) (fun _ => rfl)
    fun _ _ => makes_iff_eq_ok rfl Node.expression.inj

theorem sequence_eq_ok_iff {es : List Expression} : d.sequence k t = .ok es ↔
    t.rule? = some k.rule ∧ List.Forall₂ d.Makes t.subtrees (es.map .expression) := by
  rw [sequence, under_eq_ok_iff, items_eq_ok_iff]

theorem statement_eq_ok_iff {s : Statement} : d.statement t = .ok s ↔
    t.rule? = some Kind.statement.rule ∧
      ∃ es : List Expression, List.Forall₂ d.Makes t.subtrees (es.map .expression) := by
  rw [statement, under_eq_ok_iff, map_eq_ok_iff]
  refine and_congr_right fun _ => exists_congr fun es => ?_
  rw [items_eq_ok_iff, and_iff_left rfl]

theorem program_eq_ok_iff {p : Program} : d.program t = .ok p ↔
    t.rule? = some Kind.program.rule ∧
      List.Forall₂ d.Makes t.subtrees (Node.program p).parts := by
  have heach (ss : List Statement) :
      d.each .statement d.statement (d.site t) t.subtrees = .ok ss ↔
        List.Forall₂ d.Makes t.subtrees (ss.map .statement) :=
    each_eq_ok_iff .statement (by decide) (fun _ => rfl)
      fun _ _ => makes_iff_eq_ok rfl Node.statement.inj
  rw [program, under_eq_ok_iff, map_eq_ok_iff]
  simp only [heach]
  refine and_congr_right fun _ => ⟨?_, fun h => ⟨p.statements, h, rfl⟩⟩
  rintro ⟨ss, hss, rfl⟩
  exact hss

/-! ### All kinds -/

theorem makes_leaf_iff {n : Node} {decoder : String → Except Fault α} {decoder' : Decoder}
    (hleaf : d.Makes t n ↔ d.leaf n.kind decoder t = .ok a) (hparts : n.parts = [])
    (hdecoder : n.kind.decoder? d.settings = some decoder') {v : Decoded}
    (hdecoded : n.decoded? = some v) (hrun : ∀ s, decoder'.run s = .ok v ↔ decoder s = .ok a) :
    d.Makes t n ↔ t.rule? = some n.kind.rule ∧
      n.decoded?.map .ok = (n.kind.decoder? d.settings).map (·.run (t.text d.source)) ∧
      List.Forall₂ d.Makes t.subtrees n.parts := by
  rw [hleaf, leaf_eq_ok_iff, hparts, List.forall₂_nil_right_iff, hdecoder, hdecoded, ← hrun,
    Option.map_some, Option.map_some, Option.some_inj, eq_comm (a := Except.ok v)]

/-- **One node.** A node that is no statement is made of a tree exactly if the root has the rule of
the kind, the text has the value, and the parts are made of the nodes below the root. -/
theorem makes_iff {n : Node} (hn : n.kind.rule ≠ "") (hs : n.kind ≠ .statement) : d.Makes t n ↔
    t.rule? = some n.kind.rule ∧
      n.decoded?.map .ok = (n.kind.decoder? d.settings).map (·.run (t.text d.source)) ∧
      List.Forall₂ d.Makes t.subtrees n.parts := by
  have hbranch (h : d.Makes t n ↔
      t.rule? = some n.kind.rule ∧ List.Forall₂ d.Makes t.subtrees n.parts)
      (hdecoded : n.decoded? = none) (hdecoder : n.kind.decoder? d.settings = none) :
      d.Makes t n ↔ t.rule? = some n.kind.rule ∧
        n.decoded?.map .ok = (n.kind.decoder? d.settings).map (·.run (t.text d.source)) ∧
        List.Forall₂ d.Makes t.subtrees n.parts := by
    rw [h, hdecoded, hdecoder, Option.map_none, Option.map_none, eq_self, true_and]
  cases n with
  | params | anySequence | anyMarker | anyNumeral => exact absurd rfl hn
  | statement => exact absurd rfl hs
  | program =>
    exact hbranch ((makes_iff_eq_ok rfl Node.program.inj).trans program_eq_ok_iff) rfl rfl
  | expression =>
    exact hbranch ((makes_iff_eq_ok rfl Node.expression.inj).trans expression_eq_ok_iff) rfl rfl
  | array => exact hbranch ((makes_iff_eq_ok rfl Node.array.inj).trans sequence_eq_ok_iff) rfl rfl
  | tuple => exact hbranch ((makes_iff_eq_ok rfl Node.tuple.inj).trans sequence_eq_ok_iff) rfl rfl
  | term => exact hbranch ((makes_iff_eq_ok rfl Node.term.inj).trans term_eq_ok_iff) rfl rfl
  | value => exact hbranch ((makes_iff_eq_ok rfl Node.value.inj).trans value_eq_ok_iff) rfl rfl
  | primitive =>
    exact hbranch ((makes_iff_eq_ok rfl Node.primitive.inj).trans primitive_eq_ok_iff) rfl rfl
  | operator =>
    exact hbranch ((makes_iff_eq_ok rfl Node.operator.inj).trans operator_eq_ok_iff) rfl rfl
  | marker =>
    refine hbranch ((makes_iff_eq_ok rfl Node.marker.inj).trans ?_) rfl rfl
    rw [marker_eq_ok_iff, and_iff_left rfl]
    exact and_congr_right fun _ => List.forall₂_nil_right_iff.symm
  | integer r m =>
    have hmakes : d.Makes t (.integer r m) ↔ d.integer t = .ok (r, m) :=
      makes_iff_eq_ok (a := (r, m)) (g := fun n => Node.integer n.1 n.2) rfl fun h =>
        Prod.ext (Node.integer.inj h).1 (Node.integer.inj h).2
    exact hbranch (hmakes.trans integer_eq_ok_iff) rfl rfl
  | numeral r m =>
    refine makes_leaf_iff (makes_iff_eq_ok rfl fun h => by cases h; rfl) rfl rfl rfl fun s => ?_
    rw [Decoder.run, decodeInteger_base, map_eq_ok_iff]
    simp
  | float =>
    refine makes_leaf_iff (makes_iff_eq_ok rfl Node.float.inj) rfl rfl rfl fun s => ?_
    split <;> simp [Decoder.run, map_eq_ok_iff]
  | char =>
    refine makes_leaf_iff (makes_iff_eq_ok rfl Node.char.inj) rfl rfl rfl fun s => ?_
    simp [Decoder.run, map_eq_ok_iff]
  | string =>
    refine makes_leaf_iff (makes_iff_eq_ok rfl Node.string.inj) rfl rfl rfl fun s => ?_
    simp [Decoder.run]

/-! ### Whole trees -/

theorem rules_eq_of_makes {ts : List Tree} {ms : List Node} (h : List.Forall₂ d.Makes ts ms)
    (hms : ∀ m ∈ ms, m.kind.rule ≠ "") :
    ts.map Tree.rule? = (ms.map Node.kind).map (some ·.rule) := by
  induction h with
  | nil => rfl
  | cons hmakes _ ih =>
    obtain ⟨hm, hms⟩ := List.forall_mem_cons.mp hms
    rw [List.map_cons, List.map_cons, List.map_cons, hmakes.rule? hm, ih hms]

theorem Makes.conforms_mirrors {n : Node} (h : d.Makes t n) (hn : n.kind.rule ≠ "") :
    d.Conforms t ∧ d.Mirrors t n := by
  induction t using Tree.subtrees_induction generalizing n with
  | step t ih =>
    have hbelow {ms : List Node} (hms : ∀ m ∈ ms, m.kind.rule ≠ "")
        (h : List.Forall₂ d.Makes t.subtrees ms) :
        (∀ u ∈ t.subtrees, d.Conforms u) ∧ List.Forall₂ d.Mirrors t.subtrees ms :=
      (List.forall₂_and_left _ _).mp
        (forall₂_imp_of_mem h fun u hu m hm h => ih u hu h (hms m hm))
    by_cases hs : n.kind = .statement
    · cases n with
      | statement s =>
        obtain ⟨ht, es, hes⟩ :=
          statement_eq_ok_iff.mp ((makes_iff_eq_ok rfl Node.statement.inj).mp h)
        have hms : ∀ m ∈ es.map Node.expression, m.kind = .expression := by
          intro m hm
          obtain ⟨e, -, rfl⟩ := List.mem_map.mp hm
          rfl
        have hrules : ∀ m ∈ es.map Node.expression, m.kind.rule ≠ "" := by
          intro m hm
          rw [hms m hm]
          decide
        refine ⟨.node hn ht ?_ (rules_eq_of_makes hes hrules) nofun (hbelow hrules hes).1,
          .statement ht⟩
        exact List.forall_mem_map.mpr hms
      | _ => cases hs
    · obtain ⟨ht, hdecoded, hparts⟩ := (makes_iff hn hs).mp h
      have hrules : ∀ m ∈ n.parts, m.kind.rule ≠ "" := fun m hm => n.rule_ne_of_mem_parts hn hm
      obtain ⟨hconforms, hmirrors⟩ := hbelow hrules hparts
      refine ⟨.node hn ht (n.admits_parts hn) (rules_eq_of_makes hparts hrules) ?_ hconforms,
        .node hs ht hdecoded hmirrors⟩
      intro decoder hdecoder
      rw [hdecoder, Option.map_some] at hdecoded
      obtain ⟨v, -, hv⟩ := Option.map_eq_some_iff.mp hdecoded
      exact ⟨v, hv.symm⟩

theorem Conforms.subtrees (h : d.Conforms t) : ∀ u ∈ t.subtrees, d.Conforms u := by
  cases h with
  | node _ _ _ _ _ h => exact h

theorem Conforms.exists_makes (h : d.Conforms t) : ∃ n, n.kind.rule ≠ "" ∧ d.Makes t n := by
  induction h with
  | @node k t below hk ht hbelow hrules hvalue hconforms ih =>
    obtain ⟨ms, hms, hmakes⟩ := exists_forall₂ ih
    obtain rfl : below = ms.map Node.kind :=
      hbelow.eq_of_rules (hrules.symm.trans (rules_eq_of_makes hmakes hms))
    by_cases hs : k = .statement
    · subst hs
      obtain ⟨es, rfl⟩ := Node.exists_map_eq (fun _ => Node.exists_expression) hbelow
      refine ⟨.statement {}, by decide, ?_⟩
      exact (makes_iff_eq_ok rfl Node.statement.inj).mpr (statement_eq_ok_iff.mpr ⟨ht, es, hmakes⟩)
    · cases hdecoder : k.decoder? d.settings with
      | none =>
        obtain ⟨n, rfl, rfl, hdecoded⟩ := Node.exists_of_admits hk hs hdecoder hbelow
        refine ⟨n, hk, (makes_iff hk hs).mpr ⟨ht, ?_, hmakes⟩⟩
        rw [hdecoded, hdecoder]
        rfl
      | some decoder =>
        obtain ⟨v, hv⟩ := hvalue decoder hdecoder
        obtain ⟨n, rfl, hparts, hdecoded⟩ := Node.exists_of_decoder hdecoder hv
        refine ⟨n, hk, (makes_iff hk hs).mpr ⟨ht, ?_, ?_⟩⟩
        · rw [hdecoded, hdecoder, Option.map_some, Option.map_some, hv]
        · rw [hparts, ← List.map_eq_nil_iff.mp (hbelow.eq_nil hdecoder)]
          exact hmakes

/-- Of a tree that keeps to the schema every node is made that has its shape. -/
theorem Mirrors.makes {n : Node} (h : d.Mirrors t n) (hconforms : d.Conforms t)
    (hn : n.kind.rule ≠ "") : d.Makes t n := by
  induction t using Tree.subtrees_induction generalizing n with
  | step t ih =>
    cases h with
    | statement ht =>
      obtain ⟨m, hm, hmakes⟩ := hconforms.exists_makes
      have hrule := ht.symm.trans (hmakes.rule? hm)
      have hkind : Kind.statement = m.kind := Kind.rule_injective hn (Option.some.inj hrule)
      cases m <;> cases hkind
      exact hmakes
    | node hs ht hdecoded hparts =>
      refine (makes_iff hn hs).mpr ⟨ht, hdecoded, forall₂_imp_of_mem hparts fun u hu m hm h => ?_⟩
      exact ih u hu h (hconforms.subtrees u hu) (n.rule_ne_of_mem_parts hn hm)

end Descent

end RuleTree
