import Mathlib.Data.List.Perm.Subperm
import RuleTree.Proofs.Conversion.Whole

/-!
# The order in which a conversion goes past nodes

Builders of choices try one variant after the other, and what they note, they note at the end. Even
so the nodes that a conversion notes to have gone past stand in one fixed order, that of
`Tree.passed`. No node is noted twice, whether the conversion yields a node or breaks off.

* `Kind.isLate_iff`: which nodes come after what is below them.
* `Logged.passed`: the nodes that are noted.
* `Builder.Agrees.log_isPrefix`: a builder notes the first nodes of the order.
* `convert_passes`: so does a conversion, and all of them if it yields a node.
-/

namespace RuleTree

theorem Kind.isLate_iff {rule : String} : Kind.isLate rule = true ↔
    rule ∈ ["term", "value", "primitive_value", "operator", "integer"] := by
  have hlate : Kind.isLate rule = true ↔
      ∃ k ∈ Kind.all, k.isChoice = true ∧ k.rule = rule := by
    simp only [Kind.isLate, List.any_eq_true, Bool.and_eq_true, beq_iff_eq]
  have hchoices : ∀ k ∈ Kind.all, k.isChoice = true ↔
      k ∈ [Kind.term, .value, .primitive, .operator, .integer] := by decide +kernel
  rw [hlate]
  constructor
  · rintro ⟨k, hk, hchoice, rfl⟩
    exact List.mem_map_of_mem ((hchoices k hk).mp hchoice)
  · intro hrule
    have hmem : rule ∈ [Kind.term, .value, .primitive, .operator, .integer].map Kind.rule := hrule
    obtain ⟨k, hk, rfl⟩ := List.mem_map.mp hmem
    exact ⟨k, k.mem_all, (hchoices k k.mem_all).mpr hk, rfl⟩

/-- The node that was gone past. -/
def Event.passed? : Event → Option Site
  | matched site => some site
  | _ => none

/-- The nodes that were gone past in the course of some work, in order. -/
def Logged.passed {α : Type} (l : Logged α) : List Site := l.log.filterMap Event.passed?

theorem passed_convertWith {α : Type} (b : Builder α) (k : Kind) (settings : Settings)
    (source : Option String) (t : Tree) :
    (convertWith b k settings source t).passed =
      (b (Cursor.ofTree settings (source.map charsOf) t)).log := by
  have hmatched (sites : List Site) :
      (sites.map Event.matched).filterMap Event.passed? = sites := by
    induction sites with
    | nil => rfl
    | cons site sites ih => exact congrArg (site :: ·) ih
  simp only [Logged.passed, convertWith, convertFrom]
  cases (b (Cursor.ofTree settings (source.map charsOf) t)).result with
  | ok a =>
    rw [List.filterMap_append, hmatched]
    exact List.append_nil _
  | error e => exact hmatched _

namespace Builder

variable {α : Type} {d : Descent} {deep : Prop} {c : Cursor} {ts rest : List Tree} {o : Outcome α}
  {r : Except Failure α}

theorem Agrees.log_isPrefix (h : Agrees d deep c ts rest o r) :
    o.log <+: Tree.passedOf d.source ts := by
  cases h with
  | noMatch => exact List.nil_prefix
  | settled h =>
    cases h with
    | value _ hlog => exact ⟨_, hlog⟩
    | failure _ hlog => exact hlog
    | tooDeep _ hlog => exact hlog

theorem Agrees.log_append (h : Agrees d deep c ts rest o r) {a : α} (ho : o.result = .ok a) :
    o.log ++ Tree.passedOf d.source rest = Tree.passedOf d.source ts := by
  cases h with
  | noMatch => cases ho
  | settled h =>
    cases h with
    | value _ hlog => exact hlog
    | failure => cases ho
    | tooDeep => cases ho

end Builder

/-- **Nodes are gone past once and in a fixed order.** The nodes that a conversion notes to have
gone past are the first ones of the tree when it is traversed from left to right with choices behind
what is below them and all other nodes before it, so that no node of the queue is noted more often
than it is there. If the conversion yields a node they are all nodes of the tree, each node of the
queue once; only where parameters are built of nothing are there none. -/
theorem convert_passes (allowance : Nat) (settings : Settings) (source : Option String) (k : Kind)
    (rule : String) (region? : Option Region) (children : List Tree) :
    let t := Tree.node rule region? children
    let queue := (Cursor.ofTree settings (source.map charsOf) t).queue.toList.map (·.site)
    let l := convertUnder allowance settings source k t
    l.passed <+: t.passed (source.map charsOf) ∧ l.passed.Subperm queue ∧
      ∀ n, l.result = .ok n → (k = .params → rule = Kind.expression.rule) →
        l.passed = t.passed (source.map charsOf) ∧ l.passed.Perm queue := by
  intro t queue l
  have hc : (Cursor.ofTree settings (source.map charsOf) t).Before ⟨source.map charsOf, settings⟩
      [t] := Cursor.before_ofTree _ _ rfl
  have hagrees := Builder.agrees_single (a := allowance) hc k
  have hlog : l.passed = _ := passed_convertWith (Builder.node allowance k) k settings source t
  have hpassed : Tree.passedOf (source.map charsOf) [t] = t.passed (source.map charsOf) := by
    rw [Tree.passedOf, Tree.passedOf, List.append_nil]
  have hqueue : (t.passed (source.map charsOf)).Perm queue := by
    have hpreorder : queue = (t.preorder (source.map charsOf)).map (·.site) :=
      congrArg (List.map (·.site)) (Tree.flatten_eq_preorder (source.map charsOf) t)
    rw [hpreorder]
    exact t.passed_perm (source.map charsOf)
  have hfirst : l.passed <+: t.passed (source.map charsOf) := by
    rw [hlog, ← hpassed]
    exact hagrees.log_isPrefix
  refine ⟨hfirst, hfirst.sublist.subperm.trans hqueue.subperm, fun n hn hparams => ?_⟩
  have hok : (Builder.node allowance k (Cursor.ofTree settings (source.map charsOf) t)).result
      = .ok n := by
    have hresult : l.result = _ :=
      result_convertWith (Builder.node allowance k) k settings source rule region? children
    rw [hn] at hresult
    exact mapError_eq_ok_iff.mp hresult.symm
  have hwhole : l.passed = t.passed (source.map charsOf) := by
    have hread : k.unread t = [] := by
      rw [Kind.unread, if_neg fun h => h.2 (congrArg some (hparams h.1))]
    rw [hlog, ← hpassed, ← hagrees.log_append hok, hread, Tree.passedOf, List.append_nil]
  exact ⟨hwhole, hwhole ▸ hqueue⟩

/-- Of the integer among the primitives the numeral comes first, and then the choices above it. -/
theorem convert_passes_seven :
    (convertUnder 900 {} none .primitive Builder.seven).result =
        .ok (.primitive (.integer .decimal 7)) ∧
      (convertUnder 900 {} none .primitive Builder.seven).passed =
        [⟨"integer_dec", "7", {}⟩, ⟨"integer", "7", {}⟩, ⟨"primitive_value", "7", {}⟩] := by
  have hok : (convertUnder 900 {} none .primitive Builder.seven).result =
      .ok (.primitive (.integer .decimal 7)) := by rfl
  have hpasses := convert_passes 900 {} none .primitive "primitive_value" none
    [.node "integer" none [.node "integer_dec" none [.token ⟨"DEC_INT", "7", {}⟩]]]
  exact ⟨hok, (hpasses.2.2 _ hok nofun).1.trans (by decide +kernel)⟩

end RuleTree
