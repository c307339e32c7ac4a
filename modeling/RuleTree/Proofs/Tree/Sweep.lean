import RuleTree.Tree.Place

/-!
# Scans and the depth of a tree

A scan for the tokens of a tree gets to the end exactly if the allowance is as much as the tree is
deep, and then it has found all of them.

* `Tree.depth`: the number of nodes on the longest way down a tree.
* `Tree.sweep_eq`, `Tree.complete_sweep_iff`: what a scan comes to.
* `Tree.InReach`: the text of the node is in the source, or the allowance suffices for its depth.
* `Tree.textUnder_eq`, `Tree.placeUnder_of_inReach`: the text and the place that scans find.
-/

namespace RuleTree

namespace Tree

/-! ### The depth of a tree -/

mutual

/-- The number of nodes on the longest way down a tree. -/
def depth : Tree → Nat
  | token _ => 0
  | node _ _ children => depthOf children + 1

def depthOf : List Tree → Nat
  | [] => 0
  | t :: ts => max t.depth (depthOf ts)

end

theorem depth_le_depthOf {u : Tree} {ts : List Tree} (hu : u ∈ ts) : u.depth ≤ depthOf ts := by
  induction ts with
  | nil => cases hu
  | cons t ts ih =>
    rw [depthOf]
    rcases List.mem_cons.mp hu with rfl | hu
    · exact Nat.le_max_left _ _
    · exact Nat.le_trans (ih hu) (Nat.le_max_right _ _)

theorem depth_lt_of_mem_subtrees {t u : Tree} (hu : u ∈ t.subtrees) : u.depth < t.depth := by
  cases t with
  | token leaf => cases hu
  | node rule region? children =>
    rw [depth]
    exact Nat.lt_succ_of_le (depth_le_depthOf (List.mem_filter.mp hu).1)

theorem depth_pos {t : Tree} {rule : String} (ht : t.rule? = some rule) : 0 < t.depth := by
  cases t with
  | token leaf => cases ht
  | node rule region? children =>
    rw [depth]
    exact Nat.succ_pos _

/-! ### What a scan comes to -/

mutual

theorem sweep_eq (t : Tree) {n : Nat} (h : t.depth ≤ n) : t.sweep n = ⟨t.leaves, true⟩ := by
  cases t with
  | token leaf => rw [sweep, leaves]
  | node rule region? children =>
    cases n with
    | zero => simp [depth] at h
    | succ n =>
      rw [depth] at h
      rw [sweep, sweepOf_eq children (Nat.le_of_succ_le_succ h), leaves]

theorem sweepOf_eq (ts : List Tree) {n : Nat} (h : depthOf ts ≤ n) :
    sweepOf n ts = ⟨leavesOf ts, true⟩ := by
  cases ts with
  | nil => rw [sweepOf, leavesOf]
  | cons t ts =>
    rw [depthOf, Nat.max_le] at h
    rw [sweepOf, sweep_eq t h.1, sweepOf_eq ts h.2, leavesOf]
    rfl

end

end Tree

theorem Sweep.complete_append (s s' : Sweep) :
    (s.append s').complete = (s.complete && s'.complete) := by
  unfold append
  cases hs : s.complete <;> simp [hs]

namespace Tree

mutual

theorem complete_sweep_iff (t : Tree) (n : Nat) : (t.sweep n).complete = true ↔ t.depth ≤ n := by
  cases t with
  | token leaf => simp [sweep, depth]
  | node rule region? children =>
    cases n with
    | zero => simp [sweep, depth]
    | succ n => rw [sweep, depth, Nat.add_le_add_iff_right, complete_sweepOf_iff children n]

theorem complete_sweepOf_iff (ts : List Tree) (n : Nat) :
    (sweepOf n ts).complete = true ↔ depthOf ts ≤ n := by
  cases ts with
  | nil => simp [sweepOf, depthOf]
  | cons t ts =>
    rw [sweepOf, depthOf, Sweep.complete_append, Bool.and_eq_true, complete_sweep_iff t n,
      complete_sweepOf_iff ts n, Nat.max_le]

end

/-! ### The text and the place of a node -/

/-- The text of the tree is in the source, or scans get to the end of the tree. -/
def InReach (allowance : Nat) (source : Option (Array Char)) (t : Tree) : Prop :=
  (source.isSome ∧ t.region?.isSome) ∨ t.depth ≤ allowance

instance (allowance : Nat) (source : Option (Array Char)) (t : Tree) :
    Decidable (t.InReach allowance source) :=
  inferInstanceAs (Decidable (_ ∨ _))

theorem not_inReach_iff {allowance : Nat} {source : Option (Array Char)} {t : Tree} :
    ¬t.InReach allowance source ↔ (source = none ∨ t.region? = none) ∧ allowance < t.depth := by
  rw [InReach, not_or, Classical.not_and_iff_not_or_not, Nat.not_le, Option.not_isSome_iff_eq_none,
    Option.not_isSome_iff_eq_none]

theorem join_sweep (allowance : Nat) (t : Tree) :
    (if (t.sweep allowance).complete then
      some (String.join ((t.sweep allowance).leaves.map (·.text))) else none) =
      if t.depth ≤ allowance then some (String.join (t.leaves.map (·.text))) else none := by
  by_cases h : t.depth ≤ allowance
  · rw [sweep_eq t h, if_pos rfl, if_pos h]
  · rw [if_neg (mt (complete_sweep_iff t allowance).mp h), if_neg h]

theorem textUnder_eq (allowance : Nat) (source : Option (Array Char)) (t : Tree) :
    t.textUnder allowance source =
      if t.InReach allowance source then some (t.text source) else none := by
  cases t with
  | token leaf => exact (if_pos (.inr (Nat.zero_le _))).symm
  | node rule region? children =>
    have hscan := join_sweep allowance (node rule region? children)
    cases source with
    | none => simpa [textUnder, text, InReach] using hscan
    | some chars =>
      cases region? with
      | none => simpa [textUnder, text, InReach, Tree.region?] using hscan
      | some region => exact (if_pos (.inl ⟨rfl, rfl⟩)).symm

theorem placeUnder_of_inReach {allowance : Nat} {source : Option (Array Char)} {t : Tree}
    (h : t.InReach allowance source) : t.placeUnder allowance = some t.place := by
  cases t with
  | token leaf => rfl
  | node rule region? children =>
    cases region? with
    | some region => rfl
    | none =>
      have hdepth := h.resolve_left fun hcut => Bool.false_ne_true hcut.2
      simp only [placeUnder, sweep_eq _ hdepth, leaves, place, Leaf.firstPlace]
      cases (leavesOf children).find? (·.region.line.isSome) <;> rfl

end Tree

end RuleTree
