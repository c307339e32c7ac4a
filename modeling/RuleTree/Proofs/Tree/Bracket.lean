import RuleTree.Proofs.Tree.Descent
import RuleTree.Proofs.Tree.Sweep

/-!
# The brackets that a descent meets

Groups, arrays and tuples are the brackets of a tree. A descent goes through the nodes below a node
from left to right, and goes on only where all nodes before have been built. On its way it meets
brackets inside of brackets, and each of them takes its share of the nesting allowance.

* `Descent.Enters`: the way from a node to one directly below it.
* `Descent.Meets`: the way to a bracket, with what the brackets take up to there.
* `Descent.Exceeds`: the descent meets a bracket that takes more than an allowance.
* `Descent.exceeds_choice`, `Descent.exceeds_items` and so on: that at a node, by what is below it.
* `Descent.Meets.le_depth`: brackets take no more than the depth of the tree allows.
-/

namespace RuleTree

namespace Kind

/-- Whether a node of the kind is a bracket with any number of expressions in it. -/
def isSequence : Kind → Bool
  | array | tuple | anySequence => true
  | _ => false

/-- The kind of all nodes below a node of a kind that is a list. -/
def item? : Kind → Option Kind
  | program => some statement
  | statement | array | tuple | anySequence => some expression
  | _ => none

/-- What a node of a kind takes of the allowance where a node of the kind `v` is below it. -/
def share (k v : Kind) : Nat :=
  if k.isSequence then sequenceCost else if k = term ∧ v = expression then groupCost else 0

/-- Whether there may be expressions in what is built for a kind. -/
def holdsExpressions : Kind → Bool
  | program | statement | expression | params | array | tuple | anySequence | term | value => true
  | _ => false

theorem isSequence_of_variants {k : Kind} {kinds : List Kind} (hk : k.variants? = some kinds) :
    k.isSequence = false := by
  cases k <;> first | rfl | cases hk

theorem item?_of_variants {k : Kind} {kinds : List Kind} (hk : k.variants? = some kinds) :
    k.item? = none := by
  cases k <;> first | rfl | cases hk

theorem holdsExpressions_of_variant {k v : Kind} {kinds : List Kind}
    (hk : k.variants? = some kinds) (hv : v ∈ kinds) (h : v.holdsExpressions) :
    k.holdsExpressions := by
  have hall : ∀ k ∈ all, ∀ kinds ∈ k.variants?, ∀ v ∈ kinds, v.holdsExpressions →
      k.holdsExpressions := by decide +kernel
  exact hall k (mem_all k) kinds hk v hv h

end Kind

namespace Descent

/-- On its way through the tree `t`, which it builds for the kind `k`, the descent comes to the tree
`u` and builds it for the kind `v`. All that is before `u` has been built. -/
inductive Enters (d : Descent) : Kind → Tree → Kind → Tree → Prop
  | variant {k v : Kind} {kinds : List Kind} {t u : Tree} {others : List Tree} :
      t.rule? = some k.rule → k.variants? = some kinds → v ∈ kinds →
      t.subtrees = u :: others → u.rule? = some v.rule → Enters d k t v u
  | left {t l : Tree} {others : List Tree} : t.rule? = some Kind.expression.rule →
      t.subtrees = l :: others → Enters d .expression t .term l
  | right {t l o r : Tree} {others : List Tree} {x : Term} {op : Operator} :
      t.rule? = some Kind.expression.rule → t.subtrees = l :: o :: r :: others →
      d.term l = .ok x → d.operator o = .ok op → Enters d .expression t .term r
  | item {k v : Kind} {t u : Tree} {before behind : List Tree} : t.rule? = some k.rule →
      k.item? = some v → t.subtrees = before ++ u :: behind →
      (∀ w ∈ before, ∃ n, d.node v w = .ok n) → Enters d k t v u
  | params {t : Tree} : Enters d .params t .expression t

/-- On its way through the tree the descent comes to a bracket, and that bracket and those around it
take `n` of the allowance. A group is met where a term is an expression. -/
inductive Meets (d : Descent) : Kind → Tree → Nat → Prop
  | sequence {k : Kind} {t : Tree} : k.isSequence → t.rule? = some k.rule →
      Meets d k t sequenceCost
  | group {t u : Tree} : Enters d .term t .expression u → Meets d .term t groupCost
  | inside {k v : Kind} {t u : Tree} {n : Nat} : Enters d k t v u → Meets d v u n →
      Meets d k t (k.share v + n)

/-- The descent meets a bracket that the allowance does not suffice for. -/
def Exceeds (d : Descent) (a : Nat) (k : Kind) (t : Tree) : Prop := ∃ n, d.Meets k t n ∧ a < n

variable {d : Descent} {a n : Nat} {k v : Kind} {t u : Tree}

theorem Enters.exceeds (h : d.Enters k t v u) (hu : d.Exceeds (a - k.share v) v u) :
    d.Exceeds a k t := by
  obtain ⟨n, hn, hlt⟩ := hu
  exact ⟨_, .inside h hn, by omega⟩

theorem Enters.exceeds_of_lt (h : d.Enters k t v u) (hk : k.isSequence = false)
    (ha : a < k.share v) : d.Exceeds a k t := by
  rw [Kind.share, hk, if_neg Bool.false_ne_true] at ha
  split at ha
  case isTrue hgroup =>
    obtain ⟨rfl, rfl⟩ := hgroup
    exact ⟨_, .group h, ha⟩
  case isFalse => exact absurd ha (Nat.not_lt_zero a)

/-! ### Nodes by what is below them -/

theorem exceeds_choice {kinds : List Kind} (hk : k.variants? = some kinds) :
    d.Exceeds a k t ↔ t.rule? = some k.rule ∧ ∃ u others, t.subtrees = u :: others ∧
      ∃ v ∈ kinds, u.rule? = some v.rule ∧
        (a < k.share v ∨ d.Exceeds (a - k.share v) v u) := by
  have hplain := Kind.isSequence_of_variants hk
  constructor
  · rintro ⟨n, hn, ha⟩
    cases hn with
    | sequence hsequence =>
      rw [hplain] at hsequence
      cases hsequence
    | group henters =>
      cases henters with
      | variant ht hkinds hv hsub hu =>
        cases hk.symm.trans hkinds
        exact ⟨ht, _, _, hsub, _, hv, hu, .inl ha⟩
      | item _ hitem => cases hitem
    | @inside _ v _ u n henters hn =>
      have hexceeds : a < k.share v ∨ d.Exceeds (a - k.share v) v u := by
        by_cases hlt : a < k.share v
        · exact .inl hlt
        · exact .inr ⟨n, hn, by omega⟩
      cases henters with
      | variant ht hkinds hv hsub hu =>
        cases hk.symm.trans hkinds
        exact ⟨ht, _, _, hsub, _, hv, hu, hexceeds⟩
      | item _ hitem =>
        rw [Kind.item?_of_variants hk] at hitem
        cases hitem
      | left | right | params => cases hk
  · rintro ⟨ht, u, others, hsub, v, hv, hu, hexceeds⟩
    have henters : d.Enters k t v u := .variant ht hk hv hsub hu
    exact hexceeds.elim (henters.exceeds_of_lt hplain) henters.exceeds

/-- A list exceeds the allowance if it is a bracket that does, or if an item does before which all
items are built. -/
theorem exceeds_items (hk : k.item? = some v) :
    d.Exceeds a k t ↔ t.rule? = some k.rule ∧ (a < k.share v ∨
      ∃ before u behind, t.subtrees = before ++ u :: behind ∧
        (∀ w ∈ before, ∃ n, d.node v w = .ok n) ∧ d.Exceeds (a - k.share v) v u) := by
  constructor
  · rintro ⟨n, hn, ha⟩
    cases hn with
    | sequence hsequence ht =>
      refine ⟨ht, .inl ?_⟩
      rw [Kind.share, if_pos hsequence]
      exact ha
    | group => cases hk
    | @inside _ v' _ u n henters hn =>
      cases henters with
      | item ht hitem hsub hbefore =>
        cases hk.symm.trans hitem
        by_cases hlt : a < k.share v
        · exact ⟨ht, .inl hlt⟩
        · exact ⟨ht, .inr ⟨_, _, _, hsub, hbefore, n, hn, by omega⟩⟩
      | variant _ hkinds =>
        rw [Kind.item?_of_variants hkinds] at hk
        cases hk
      | left | right | params => cases hk
  · rintro ⟨ht, hlt | ⟨before, u, behind, hsub, hbefore, hexceeds⟩⟩
    · have hsequence : k.isSequence := by
        cases k <;> first | rfl | cases hk <;> exact absurd hlt (Nat.not_lt_zero a)
      rw [Kind.share, if_pos hsequence] at hlt
      exact ⟨_, .sequence hsequence ht, hlt⟩
    · exact (Enters.item ht hk hsub hbefore).exceeds hexceeds

theorem exceeds_expression : d.Exceeds a .expression t ↔ t.rule? = some Kind.expression.rule ∧
    ((∃ l others, t.subtrees = l :: others ∧ d.Exceeds a .term l) ∨
      ∃ l o r others x op, t.subtrees = l :: o :: r :: others ∧ d.term l = .ok x ∧
        d.operator o = .ok op ∧ d.Exceeds a .term r) := by
  have hshare : Kind.expression.share .term = 0 := rfl
  constructor
  · rintro ⟨n, hn, ha⟩
    cases hn with
    | sequence hsequence => cases hsequence
    | @inside _ v _ u n henters hn =>
      cases henters with
      | left ht hsub =>
        rw [hshare, Nat.zero_add] at ha
        exact ⟨ht, .inl ⟨_, _, hsub, n, hn, ha⟩⟩
      | right ht hsub hl ho =>
        rw [hshare, Nat.zero_add] at ha
        exact ⟨ht, .inr ⟨_, _, _, _, _, _, hsub, hl, ho, n, hn, ha⟩⟩
      | variant _ hkinds => cases hkinds
      | item _ hitem => cases hitem
  · rintro ⟨ht, ⟨l, others, hsub, hl⟩ | ⟨l, o, r, others, x, op, hsub, hx, hop, hr⟩⟩
    · exact (Enters.left ht hsub).exceeds hl
    · exact (Enters.right ht hsub hx hop).exceeds hr

theorem exceeds_params : d.Exceeds a .params t ↔ d.Exceeds a .expression t := by
  constructor
  · rintro ⟨n, hn, ha⟩
    cases hn with
    | sequence hsequence => cases hsequence
    | @inside _ v _ u n henters hn =>
      cases henters with
      | params =>
        have hshare : Kind.params.share .expression = 0 := rfl
        rw [hshare, Nat.zero_add] at ha
        exact ⟨n, hn, ha⟩
      | variant _ hkinds => cases hkinds
      | item _ hitem => cases hitem
  · exact Enters.params.exceeds

theorem Meets.holdsExpressions (h : d.Meets k t n) : k.holdsExpressions := by
  induction h with
  | @sequence k _ hk => cases k <;> first | rfl | cases hk
  | group => rfl
  | @inside k v _ _ _ henters _ ih =>
    cases henters with
    | variant _ hkinds hv => exact Kind.holdsExpressions_of_variant hkinds hv ih
    | item _ hitem => cases k <;> first | rfl | cases hitem
    | left | right | params => rfl

theorem not_exceeds (hk : k.holdsExpressions = false) : ¬d.Exceeds a k t := by
  rintro ⟨n, hn, -⟩
  rw [hn.holdsExpressions] at hk
  cases hk

theorem exceeds_of_share (hshare : k.share v = 0) :
    (a < k.share v ∨ d.Exceeds (a - k.share v) v u) ↔ d.Exceeds a v u := by
  rw [hshare, Nat.sub_zero]
  exact or_iff_right (Nat.not_lt_zero a)

/-! ### The depth of a tree -/

theorem share_le_sequenceCost (k v : Kind) : k.share v ≤ sequenceCost := by
  unfold Kind.share
  split
  · exact Nat.le_refl _
  · split <;> decide

theorem Enters.share_add_le (h : d.Enters k t v u) :
    k.share v + sequenceCost * u.depth ≤ sequenceCost * t.depth := by
  have hbelow (hu : u ∈ t.subtrees) :
      k.share v + sequenceCost * u.depth ≤ sequenceCost * t.depth := by
    have hshare := share_le_sequenceCost k v
    have hdepth := Nat.mul_le_mul_left sequenceCost (Tree.depth_lt_of_mem_subtrees hu)
    rw [Nat.mul_succ] at hdepth
    omega
  cases h with
  | params => exact Nat.le_of_eq (Nat.zero_add _)
  | variant _ _ _ hsub => exact hbelow (by simp [hsub])
  | left _ hsub => exact hbelow (by simp [hsub])
  | right _ hsub => exact hbelow (by simp [hsub])
  | item _ _ hsub => exact hbelow (by simp [hsub])

/-- The brackets that a descent meets take no more than the greatest share at each node on the way
down. -/
theorem Meets.le_depth (h : d.Meets k t n) : n ≤ sequenceCost * t.depth := by
  induction h with
  | sequence _ ht => exact Nat.le_mul_of_pos_right _ (Tree.depth_pos ht)
  | group henters =>
    have hle := henters.share_add_le
    have hshare : Kind.term.share .expression = groupCost := rfl
    omega
  | inside henters _ ih =>
    have hle := henters.share_add_le
    omega

end Descent

end RuleTree
