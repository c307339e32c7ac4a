import RuleTree.Convert
import RuleTree.Proofs.Builder.Recursion

/-!
# A conversion is a recursion on the tree

A conversion flattens the tree and moves a cursor along the queue. What comes of it is what a
recursion on the tree makes of its root, unless the nesting allowance is used up on the way.

* `Descent.convert`: what is reported of a descent.
* `result_convertUnder`: it is what is reported of a conversion.
-/

namespace RuleTree

/-- What the descent makes of the root of a tree, with errors as a conversion reports them. -/
def Descent.convert (d : Descent) (k : Kind) (t : Tree) : Except Error Node :=
  (d.node k t).mapError fun e => .build (e.atRoot k (some (d.site t)))

theorem result_convertWith {α : Type} (b : Builder α) (k : Kind) (settings : Settings)
    (source : Option String) (rule : String) (region? : Option Region) (children : List Tree) :
    (convertWith b k settings source (.node rule region? children)).result =
      (b (Cursor.ofTree settings (source.map charsOf)
        (.node rule region? children))).result.mapError fun e =>
          .build (e.atRoot k (some (Tree.site (source.map charsOf) rule region? children))) := by
  have hc := Cursor.before_ofTree settings (source.map charsOf)
    (t := .node rule region? children) rfl
  obtain ⟨i, hi, hsite, -⟩ := hc.exists_item
  simp only [convertWith, convertFrom, hi, Option.map_some, hsite]
  generalize b (Cursor.ofTree settings (source.map charsOf) (.node rule region? children)) = o
  obtain ⟨result, c, log⟩ := o
  cases result with
  | ok a => rfl
  | error e => rfl

/-- **A conversion is a recursion on the tree.** Whatever the tree, the source, the settings and the
kind, a conversion yields the node or reports the error, with its place and its cause, of the
recursion that knows neither queue nor cursor. The only other outcome is that the tree is nested too
deep for the allowance, which it is not where the allowance suffices for all of its brackets. -/
theorem result_convertUnder (allowance : Nat) (settings : Settings) (source : Option String)
    (k : Kind) (rule : String) (region? : Option Region) (children : List Tree) :
    let t := Tree.node rule region? children
    let d : Descent := ⟨source.map charsOf, settings⟩
    let result := (convertUnder allowance settings source k t).result
    (result = d.convert k t ∨
        result = .error (.build (.fatal ⟨some (d.site t), .rootTooDeep k⟩))) ∧
      (k.isGeneral = false → t.nesting ≤ allowance → result = d.convert k t) := by
  intro t d result
  have hresult : result = _ :=
    result_convertWith (Builder.node allowance k) k settings source rule region? children
  have hc := Cursor.before_ofTree settings (source.map charsOf) (t := t) rfl
  rcases (Builder.agrees_single (a := allowance) hc k).result_eq with heq | ⟨heq, hdeep⟩
  · have hplain : result = d.convert k t := by
      rw [hresult, heq]
      rfl
    exact ⟨.inl hplain, fun _ _ => hplain⟩
  · refine ⟨.inr ?_, fun hk hnesting => ?_⟩
    · rw [hresult, heq]
      rfl
    · exact absurd (hdeep hk) (Nat.not_lt_of_le hnesting)

/-- A value over a primitive over an integer without a numeral. -/
def hollow : Tree := .node "value" none [.node "primitive_value" none [.node "integer" none []]]

/-- Nothing can be built of the hollow value. What was found is reported as the outermost choice has
it, by either way. -/
theorem result_convertUnder_hollow :
    Kind.value.isGeneral = false ∧ hollow.nesting ≤ 900 ∧
      (convertUnder 900 {} none .value hollow).result = .error (.build (.fatal
        ⟨some ⟨"value", "", {}⟩, .rootMismatch .value
          ⟨["primitive_value", "string", "array", "tuple"], some "primitive_value"⟩⟩)) ∧
      (convertUnder 900 {} none .value hollow).result
        = Descent.convert ⟨none, {}⟩ .value hollow := by
  have hk : Kind.value.isGeneral = false := by decide
  have hnesting : hollow.nesting ≤ 900 := by decide
  have hresult : (convertUnder 900 {} none .value hollow).result = .error (.build (.fatal
      ⟨some ⟨"value", "", {}⟩, .rootMismatch .value
        ⟨["primitive_value", "string", "array", "tuple"], some "primitive_value"⟩⟩)) := by rfl
  exact ⟨hk, hnesting, hresult, (result_convertUnder 900 {} none .value _ _ _).2 hk hnesting⟩

end RuleTree
