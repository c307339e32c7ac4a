import RuleTree.Proofs.Builder.Arrangement
import RuleTree.Proofs.Builder.TooDeep
import RuleTree.Proofs.Conversion.Recursion

/-!
# The nesting allowance of a conversion

The allowance adds one error to what may come of a conversion, that the nesting is too deep, and
makes no other difference. The error is about the root, and it is reported exactly where the descent
through the tree meets a bracket that the allowance does not suffice for.

This allowance is that of the builders. The scans of flattening have one of their own, which is
assumed to suffice for the tree; where it does not, nothing is built (`convert_eq`).

* `Logged.IsTooDeep`: what is reported is that the nesting is too deep.
* `Builder.node_eq_of_le`: a greater allowance makes no difference where the smaller one suffices.
* `isTooDeep_convertUnder_iff`: the report comes from the builder of the root.
* `convertUnder_allowance`: two allowances, and when one does not suffice.
-/

namespace RuleTree

/-- The nesting is reported to be too deep, for whatever node and whatever was to be built. -/
def Logged.IsTooDeep {α : Type} (l : Logged α) : Prop :=
  ∃ site k, l.result = .error (.build (.fatal ⟨site, .rootTooDeep k⟩))

/-- More may be left of the allowance. -/
def Leeway.enlarged : Leeway where
  expected := Eq
  expected_refl _ := rfl
  deeper := True

namespace Builder

variable {a a' : Nat} {k : Kind} {c : Cursor}

theorem comparable_allowances (h : a ≤ a') (k : Kind) (c : Cursor) :
    Comparable .enlarged c (node a k c) (node a' k c) := by
  have hcomparable : Comparable .enlarged c (Arrangement.declared.node a k c)
      (Arrangement.declared.node a' k c) :=
    comparable_node (fun _ => rfl) (.inr ⟨trivial, h⟩) k c
  rwa [Arrangement.node_declared, Arrangement.node_declared] at hcomparable

theorem node_eq_of_le (h : a ≤ a') (hdeep : ¬(node a k c).TooDeep) :
    node a' k c = node a k c := by
  have hcomparable := comparable_allowances h k c
  generalize node a k c = o at hcomparable hdeep
  generalize node a' k c = o' at hcomparable
  cases hcomparable with
  | noMatch heq =>
    cases heq
    rfl
  | settled h =>
    cases h with
    | value => rfl
    | failure => rfl
    | tooDeep => exact absurd rfl hdeep

theorem node_failure {e : Failure} (h : (node a k c).result = .error e) :
    e.isBreak ∨ ∃ m, e = .noMatch m := by
  have hcomparable := comparable_allowances (Nat.le_refl a) k c
  generalize node a k c = o at hcomparable h
  cases hcomparable with
  | noMatch =>
    cases h
    exact .inr ⟨_, rfl⟩
  | settled hparallel =>
    cases hparallel with
    | value => cases h
    | failure he =>
      cases h
      exact .inl he
    | tooDeep =>
      cases h
      exact .inl rfl

end Builder

theorem Failure.eq_tooDeep_of_atRoot {e : Failure} (he : e.isBreak ∨ ∃ m, e = .noMatch m)
    {root site : Option Site} {k k' : Kind}
    (h : e.atRoot k root = .fatal ⟨site, .rootTooDeep k'⟩) : e = .tooDeep := by
  rcases he with he | ⟨m, rfl⟩
  · cases e with
    | tooDeep => rfl
    | fatal => cases h; cases he
    | _ => cases h
  · cases h

theorem convertWith_congr {α : Type} {b b' : Builder α} {k : Kind} {settings : Settings}
    {source : Option String} {t : Tree}
    (h : b (Cursor.ofTree settings (source.map charsOf) t) =
      b' (Cursor.ofTree settings (source.map charsOf) t)) :
    convertWith b k settings source t = convertWith b' k settings source t := by
  simp only [convertWith, convertFrom, h]

section

variable {settings : Settings} {source : Option String} {k : Kind} {rule : String}
  {region? : Option Region} {children : List Tree} {a : Nat}

theorem result_of_tooDeep
    (h : (Builder.node a k (Cursor.ofTree settings (source.map charsOf)
      (.node rule region? children))).TooDeep) :
    (convertUnder a settings source k (.node rule region? children)).result =
      .error (.build (.fatal
        ⟨some (Tree.site (source.map charsOf) rule region? children), .rootTooDeep k⟩)) := by
  rw [convertUnder, result_convertWith, h]
  rfl

theorem isTooDeep_convertUnder_iff :
    (convertUnder a settings source k (.node rule region? children)).IsTooDeep ↔
      (Builder.node a k (Cursor.ofTree settings (source.map charsOf)
        (.node rule region? children))).TooDeep := by
  constructor
  · rintro ⟨site, k', h⟩
    rw [convertUnder, result_convertWith] at h
    cases hresult : (Builder.node a k (Cursor.ofTree settings (source.map charsOf)
        (.node rule region? children))).result with
    | ok n =>
      rw [hresult] at h
      cases h
    | error e =>
      rw [hresult] at h
      have hroot := Error.build.inj (Except.error.inj h)
      exact hresult.trans (congrArg Except.error
        (Failure.eq_tooDeep_of_atRoot (Builder.node_failure hresult) hroot))
  · exact fun h => ⟨_, _, result_of_tooDeep h⟩

end

/-- **The nesting allowance only adds one error.** Flattening is taken to give the queue of the tree.
Whatever the tree, the source, the settings and the kind: if a conversion under an allowance does not
report that the nesting is too deep, it comes out the same, with the same log, under every greater
allowance. It reports that exactly if the descent meets a bracket up to which the brackets take more
than the allowance, where all that is before it has been built; and it reports it of the root. An
allowance in proportion to the depth of the tree always suffices. -/
theorem convertUnder_allowance (settings : Settings) (source : Option String) (k : Kind)
    (rule : String) (region? : Option Region) (children : List Tree) :
    let t := Tree.node rule region? children
    let d : Descent := ⟨source.map charsOf, settings⟩
    (∀ a a', a ≤ a' → ¬(convertUnder a settings source k t).IsTooDeep →
        convertUnder a' settings source k t = convertUnder a settings source k t) ∧
      (∀ a, (convertUnder a settings source k t).IsTooDeep ↔ ∃ n, d.Meets k t n ∧ a < n) ∧
      (∀ a, (convertUnder a settings source k t).IsTooDeep →
        (convertUnder a settings source k t).result =
          .error (.build (.fatal ⟨some (d.site t), .rootTooDeep k⟩))) ∧
      ∀ a, sequenceCost * t.depth ≤ a → ¬(convertUnder a settings source k t).IsTooDeep := by
  intro t d
  have hc := Cursor.before_ofTree settings (source.map charsOf) (t := t) rfl
  have hexceeds (a : Nat) :
      (convertUnder a settings source k t).IsTooDeep ↔ ∃ n, d.Meets k t n ∧ a < n :=
    isTooDeep_convertUnder_iff.trans (Builder.tooDeep_node_iff hc a k)
  refine ⟨fun a a' hle hdeep => ?_, hexceeds, fun a hdeep => ?_, fun a hle => ?_⟩
  · rw [isTooDeep_convertUnder_iff] at hdeep
    exact convertWith_congr (Builder.node_eq_of_le hle hdeep)
  · exact result_of_tooDeep (isTooDeep_convertUnder_iff.mp hdeep)
  · rw [hexceeds]
    rintro ⟨n, hn, hlt⟩
    have hdepth := hn.le_depth
    omega

/-- An array in an array. -/
def nestedArrays : Tree :=
  .node "array" none
    [.node "expr" none [.node "term" none [.node "value" none [.node "array" none []]]]]

theorem meets_nestedArrays :
    Descent.Meets ⟨none, {}⟩ .array nestedArrays (2 * sequenceCost) :=
  .inside (.item (k := .array) rfl rfl (show _ = [] ++ _ :: _ from rfl) nofun) <|
    .inside (.left rfl rfl) <|
    .inside (.variant (k := .term) rfl rfl List.mem_cons_self rfl rfl) <|
    .inside (.variant (v := .array) (k := .value) rfl rfl (by decide) rfl rfl) <|
    .sequence rfl rfl

/-- The allowance for one array does not suffice for an array in an array. That for both does, and
more makes no difference. -/
theorem convertUnder_allowance_arrays :
    (convertUnder 9 {} none .array nestedArrays).result =
        .error (.build (.fatal ⟨some ⟨"array", "", {}⟩, .rootTooDeep .array⟩)) ∧
      (convertUnder 18 {} none .array nestedArrays).result =
        .ok (.array [.single (.value (.array []))]) ∧
      (∀ a, 18 ≤ a →
        convertUnder a {} none .array nestedArrays = convertUnder 18 {} none .array nestedArrays) ∧
      ¬(convertUnder 45 {} none .array nestedArrays).IsTooDeep := by
  obtain ⟨hsame, hexceeds, hroot, hdepth⟩ :=
    convertUnder_allowance {} none .array "array" none
      [.node "expr" none [.node "term" none [.node "value" none [.node "array" none []]]]]
  have hok : (convertUnder 18 {} none .array nestedArrays).result =
      .ok (.array [.single (.value (.array []))]) := by with_unfolding_all rfl
  refine ⟨hroot 9 ((hexceeds 9).mpr ⟨_, meets_nestedArrays, by decide⟩), hok, fun a ha => ?_,
    hdepth 45 (by decide)⟩
  refine hsame 18 a ha ?_
  rintro ⟨site, k, h⟩
  rw [← nestedArrays, hok] at h
  cases h

end RuleTree
