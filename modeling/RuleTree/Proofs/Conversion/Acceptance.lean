import RuleTree.Proofs.Conversion.Recursion
import RuleTree.Proofs.Tree.Made

/-!
# Which trees are converted

A conversion yields a node exactly of the trees that keep to the schema and whose root is of the
kind, as far as the nesting allowance suffices. The node has the shape of the tree, and it is the
only one of its kind that has.

* `Descent.exists_node_iff`: of which trees the descent makes a node.
* `convert_conforms`: so it is for conversions.
-/

namespace RuleTree

namespace Descent

variable {d : Descent} {k : Kind} {t : Tree} {n : Node}

theorem exists_node_iff (hk : k.rule ≠ "") :
    (∃ n, d.node k t = .ok n) ↔ t.rule? = some k.rule ∧ d.Conforms t := by
  constructor
  · rintro ⟨n, hn⟩
    obtain rfl := kind_of_node hk hn
    have hmakes : d.Makes t n := hn
    exact ⟨hmakes.rule? hk, (hmakes.conforms_mirrors hk).1⟩
  · rintro ⟨ht, hconforms⟩
    obtain ⟨n, hn, hmakes⟩ := hconforms.exists_makes
    have hrule : n.kind.rule = k.rule := Option.some.inj ((hmakes.rule? hn).symm.trans ht)
    obtain rfl := Kind.rule_injective hn hrule
    exact ⟨n, hmakes⟩

theorem mirrors_of_node (hk : k.rule ≠ "") (hn : d.node k t = .ok n) :
    n.kind = k ∧ d.Mirrors t n ∧ ∀ m, m.kind = k → d.Mirrors t m → m = n := by
  obtain rfl := kind_of_node hk hn
  obtain ⟨hconforms, hmirrors⟩ := Makes.conforms_mirrors hn hk
  refine ⟨rfl, hmirrors, fun m hm hshape => ?_⟩
  have hmakes : d.node m.kind t = .ok m := hshape.makes hconforms (hm ▸ hk)
  rw [hm, hn] at hmakes
  exact (Except.ok.inj hmakes).symm

end Descent

/-- **Exactly the trees of the schema are converted.** For every kind that has a rule, a conversion
yields a node if and only if the root has the rule and the tree keeps to the schema, unless it is
nested too deep for the allowance, which it then is reported to be. The node has the shape of the
tree, its parts being made of the nodes of the tree in their order, and it is the only node of the
kind that has. -/
theorem convert_conforms (allowance : Nat) (settings : Settings) (source : Option String)
    {k : Kind} (hk : k.rule ≠ "") (rule : String) (region? : Option Region)
    (children : List Tree) :
    let t := Tree.node rule region? children
    let d : Descent := ⟨source.map charsOf, settings⟩
    let result := (convertUnder allowance settings source k t).result
    (result = .error (.build (.fatal ⟨some (d.site t), .rootTooDeep k⟩)) ∧
          allowance < t.nesting ∨
        ((∃ n, result = .ok n) ↔ rule = k.rule ∧ d.Conforms t)) ∧
      ∀ n, result = .ok n →
        n.kind = k ∧ d.Mirrors t n ∧ ∀ m, m.kind = k → d.Mirrors t m → m = n := by
  intro t d result
  have hresult : result = _ :=
    result_convertWith (Builder.node allowance k) k settings source rule region? children
  have hc : (Cursor.ofTree settings d.source t).Before d [t] := Cursor.before_ofTree _ _ rfl
  rcases (Builder.agrees_single (a := allowance) hc k).result_eq with heq | ⟨heq, hdeep⟩
  · have hok n : result = .ok n ↔ d.node k t = .ok n := by
      rw [hresult, heq, mapError_eq_ok_iff]
    constructor
    · right
      simp only [hok]
      rw [d.exists_node_iff hk]
      exact and_congr_left fun _ => Option.some_inj
    · exact fun n hn => Descent.mirrors_of_node hk ((hok n).mp hn)
  · have hresult : result = .error (.build (.fatal ⟨some (d.site t), .rootTooDeep k⟩)) := by
      rw [hresult, heq]
      rfl
    refine ⟨.inl ⟨hresult, hdeep (Kind.isGeneral_eq_false hk)⟩, fun n hn => ?_⟩
    rw [hresult] at hn
    cases hn

/-- The integer among the primitives keeps to the schema, as it is converted. -/
theorem convert_conforms_seven : Kind.primitive.rule ≠ "" ∧
    Descent.Conforms ⟨none, {}⟩ Builder.seven ∧
      Descent.Mirrors ⟨none, {}⟩ Builder.seven (.primitive (.integer .decimal 7)) := by
  have hk : Kind.primitive.rule ≠ "" := by decide
  have hok : (convertUnder 900 {} none .primitive Builder.seven).result =
      .ok (.primitive (.integer .decimal 7)) := by rfl
  obtain ⟨h, hmirrors⟩ := convert_conforms 900 {} none hk "primitive_value" none
    [.node "integer" none [.node "integer_dec" none [.token ⟨"DEC_INT", "7", {}⟩]]]
  refine ⟨hk, ?_, (hmirrors _ hok).2.1⟩
  rcases h with ⟨herror, -⟩ | hiff
  · cases hok.symm.trans herror
  · exact (hiff.mp ⟨_, hok⟩).2

end RuleTree
