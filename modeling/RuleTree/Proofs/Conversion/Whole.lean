import RuleTree.Proofs.Conversion.Recursion
import RuleTree.Proofs.Conversion.Scans

/-!
# What a conversion uses up

A conversion that yields a node has gone past the root and past every node below it, once each.
There is one exception: parameters are built of nothing where the root is not an expression, and
then the whole tree is left unread. The queue is taken for granted here: a deep tree without regions,
or without a source, may have none (`convert_eq`).

* `Tree.passed_perm`: the nodes that are gone past are those of the queue.
* `Builder.Refuses`: a builder does not match where nothing that its kind is built from is ahead.
* `convert_whole`: what is used up, and what is reported of other roots.
* `convert_leaves_root_unread`: the exception is met.
-/

namespace RuleTree

namespace Tree

mutual

/-- The nodes that builders go past are those of the queue in another order. -/
theorem passed_perm (source : Option (Array Char)) (t : Tree) :
    (t.passed source).Perm ((t.preorder source).map (·.site)) := by
  cases t with
  | token leaf => exact .nil
  | node rule region? children =>
    have h := passedOf_perm source children
    rw [passed, preorder, List.map_cons]
    split
    · exact (List.perm_append_singleton _ _).trans (h.cons _)
    · exact h.cons _

theorem passedOf_perm (source : Option (Array Char)) (ts : List Tree) :
    (passedOf source ts).Perm ((preorderOf source ts).map (·.site)) := by
  cases ts with
  | nil => exact .nil
  | cons t ts =>
    rw [passedOf, preorderOf, List.map_append]
    exact (passed_perm source t).append (passedOf_perm source ts)

end

end Tree

namespace Builder

/-! ### Roots that a kind is not built from -/

variable {α β : Type} {k : Kind} {b : Builder α}

/-- The builder does not match where nothing that the kind is built from is ahead. -/
def Refuses (k : Kind) (b : Builder α) : Prop :=
  ∀ ⦃c : Cursor⦄, (∃ bs, c.Over bs) → Unmatched k c → ∃ m, b c = ⟨.error (.noMatch m), c, []⟩

theorem Refuses.map (h : Refuses k b) (f : α → β) : Refuses k (f <$> b) := by
  intro c hc hk
  obtain ⟨m, hm⟩ := h hc hk
  exact ⟨m, map_of_eq hm f⟩

theorem Declines.refuses (hb : Declines k.rule b) (hk : k.variants? = none) : Refuses k b := by
  rintro c ⟨bs, hc⟩ hunmatched
  exact ⟨_, hb c hc.ahead_ne_outside (rule?_of_unmatched hk hunmatched)⟩

theorem refuses_choice (vs : List (Kind × Builder α)) (hk : k.variants? = some (vs.map (·.1)))
    (hvs : ∀ v ∈ vs, Refuses v.1 v.2) : Refuses k (choice k.rule (ofKinds vs)) := by
  rintro c ⟨bs, hc⟩ hunmatched
  by_cases hrule : c.rule? = some k.rule
  · obtain ⟨i, hi, hr⟩ := exists_peek? hrule
    obtain ⟨b, -, -, -, hinside, -⟩ := hc.of_peek? hi
    rw [unmatched_iff_of_match hi hr, hk] at hunmatched
    obtain ⟨kinds, hkinds, hall⟩ := hunmatched
    cases hkinds
    have hrefused : ∀ v ∈ vs, ∃ m, v.2 (c.inside i) = ⟨.error (.noMatch m), c.inside i, []⟩ :=
      fun v hv => hvs v hv ⟨_, hinside⟩ (hall v.1 (List.mem_map_of_mem hv))
    have hfirst : firstMatch (ofKinds vs) (c.inside i) = _ :=
      firstMatchOf_of_refused hinside.ahead_ne_outside hrefused _
    exact ⟨_, by rw [choice_of_error hi hr (by rw [hfirst]; rfl), hfirst]⟩
  · exact ⟨_, choice_of_mismatch hc.ahead_ne_outside hrule _⟩

theorem refuses_marker (o : Operator) (a : α) : Refuses (.marker o) (marker (.marker o) a) :=
  Declines.refuses (k := .marker o) (opens_marker (.marker o) a).declines rfl

theorem refuses_leaf (hk : k.variants? = none) (decoder : Settings → String → Except Fault α) :
    Refuses k (leaf k decoder) :=
  (opens_leaf k decoder).declines.refuses hk

theorem refuses_sequence (hk : k.variants? = none) (n : Nested) : Refuses k (sequence k n) :=
  (opens_sequence k n).declines.refuses hk

theorem refuses_operator : Refuses .operator operator := by
  refine refuses_choice (k := .operator) operatorVariants rfl fun v hv => ?_
  obtain ⟨o, -, rfl⟩ := List.mem_map.mp hv
  exact refuses_marker o o

theorem refuses_integer : Refuses .integer integer := by
  refine refuses_choice (k := .integer) integerVariants rfl fun v hv => ?_
  obtain ⟨r, -, rfl⟩ := List.mem_map.mp hv
  exact (refuses_leaf (k := .numeral r) rfl _).map _

theorem refuses_primitive : Refuses .primitive primitive := by
  refine refuses_choice (k := .primitive) primitiveVariants rfl ?_
  simp only [primitiveVariants, List.forall_mem_cons, List.not_mem_nil, false_implies, implies_true,
    and_true]
  exact ⟨refuses_integer.map _, (refuses_leaf (k := .float) rfl _).map _,
    (refuses_leaf (k := .char) rfl _).map _⟩

theorem refuses_value (n : Nested) : Refuses .value (value n) := by
  refine refuses_choice (k := .value) (valueVariants n) rfl ?_
  simp only [valueVariants, List.forall_mem_cons, List.not_mem_nil, false_implies, implies_true,
    and_true]
  exact ⟨refuses_primitive.map _, (refuses_leaf (k := .string) rfl _).map _,
    (refuses_sequence (k := .array) rfl n).map _, (refuses_sequence (k := .tuple) rfl n).map _⟩

theorem refuses_expression (a : Nat) : Refuses .expression (expression a) :=
  Declines.refuses (k := .expression) (opens_expression a).declines rfl

theorem refuses_term (a : Nat) : Refuses .term (term (nested a)) := by
  refine refuses_choice (k := .term) (termVariants (nested a)) rfl ?_
  simp only [termVariants, List.forall_mem_cons, List.not_mem_nil, false_implies, implies_true,
    and_true]
  exact ⟨(refuses_value _).map _,
    (Declines.refuses (k := .expression) (opens_group a).declines rfl).map _⟩

theorem refuses_node (a : Nat) (hk : k.isGeneral = false) (hparams : k ≠ .params) :
    Refuses k (node a k) := by
  cases k with
  | params => exact absurd rfl hparams
  | program => exact (Declines.refuses (k := .program) (opens_program a).declines rfl).map _
  | statement => exact (Declines.refuses (k := .statement) (opens_statement a).declines rfl).map _
  | expression => exact (refuses_expression a).map _
  | array => exact (refuses_sequence (k := .array) rfl _).map _
  | tuple => exact (refuses_sequence (k := .tuple) rfl _).map _
  | term => exact (refuses_term a).map _
  | value => exact (refuses_value _).map _
  | primitive => exact refuses_primitive.map _
  | operator => exact refuses_operator.map _
  | marker o => exact (refuses_marker o o).map _
  | integer => exact refuses_integer.map _
  | numeral r => exact (refuses_leaf (k := .numeral r) rfl _).map _
  | float => exact (refuses_leaf (k := .float) rfl _).map _
  | char => exact (refuses_leaf (k := .char) rfl _).map _
  | string => exact (refuses_leaf (k := .string) rfl _).map _
  | anyNode | anyChoice | anySequence | anyMarker | anyNumeral => cases hk

end Builder

theorem Cursor.Before.pos_eq_stop {c : Cursor} {d : Descent} (h : c.Before d []) :
    c.pos = c.stop := by
  obtain ⟨front, back, -, -, hstop⟩ := h.stands.segment
  rw [hstop]
  simp [Tree.branchesOf, Branch.entriesOf]

/-- Where nothing is left unread, a value leaves the cursor behind the queue of a tree, and every
node was gone past. -/
theorem Builder.Agrees.whole {α : Type} {deep : Prop} {settings : Settings}
    {source : Option (Array Char)} {t : Tree} {o : Outcome α} {r : Except Failure α} {a : α}
    (h : Agrees ⟨source, settings⟩ deep (Cursor.ofTree settings source t) [t] [] o r)
    (ho : o.result = .ok a) :
    o.cursor.pos = (Cursor.ofTree settings source t).queue.size ∧ o.cursor.peek? = none ∧
      o.log.Perm ((Cursor.ofTree settings source t).queue.toList.map (·.site)) := by
  cases h with
  | noMatch => cases ho
  | settled h =>
    cases h with
    | failure => cases ho
    | tooDeep => cases ho
    | @value _ pos log hend hlog =>
      refine ⟨?_, ?_, ?_⟩
      · have hstop : pos = ((t.flatten source).length : Int) := hend.pos_eq_stop
        rw [hstop]
        rfl
      · show Cursor.peek? _ = none
        rw [Cursor.peek?, hend.ahead_nil]
      · have hlog : log = t.passed source := by
          simpa only [Tree.passedOf, List.append_nil] using hlog
        have hqueue : (Cursor.ofTree settings source t).queue.toList = t.preorder source :=
          Tree.flatten_eq_preorder source t
        rw [hqueue, hlog]
        exact t.passed_perm source

theorem Builder.node_params_of_ne (a : Nat) {c : Cursor} {d : Descent} {t : Tree} {ts : List Tree}
    (hc : c.Before d (t :: ts)) (ht : t.rule? ≠ some Kind.expression.rule) :
    node a .params c = ⟨.ok (.params []), c, []⟩ := by
  have hdeclines := (opens_expression a).declines c hc.ahead_ne_outside (by rwa [hc.rule?_cons])
  exact map_of_eq (atMost_of_noMatch hdeclines _) Node.params

/-- **A conversion uses up the root.** Flattening is taken to give the queue of the tree. If a
conversion to a kind of nodes yields one, its cursor is behind all of the queue, and it has gone past
every node of the queue once. Of a root that the kind is not built from it reports a fatal error at
the root. Only parameters are different: where the root is not an expression they are built of
nothing, and the tree is left as it is. -/
theorem convert_whole (allowance : Nat) (settings : Settings) (source : Option String) {k : Kind}
    (hk : k.isGeneral = false) (rule : String) (region? : Option Region) (children : List Tree) :
    let t := Tree.node rule region? children
    let c := Cursor.ofTree settings (source.map charsOf) t
    let o := Builder.node allowance k c
    let result := (convertUnder allowance settings source k t).result
    (∀ n, result = .ok n → (k = .params → rule = Kind.expression.rule) →
        o.cursor.pos = c.queue.size ∧ o.cursor.peek? = none ∧
          o.log.Perm (c.queue.toList.map (·.site))) ∧
      (k ≠ .params → Builder.Unmatched k c → ∃ m, result = .error (.build (.fatal
        ⟨some (Tree.site (source.map charsOf) rule region? children), .rootMismatch k m⟩))) ∧
      (k = .params → rule ≠ Kind.expression.rule →
        result = .ok (.params []) ∧ o.cursor = c ∧ o.log = []) := by
  intro t c o result
  have hresult : result = _ :=
    result_convertWith (Builder.node allowance k) k settings source rule region? children
  have hc : c.Before ⟨source.map charsOf, settings⟩ [t] := Cursor.before_ofTree _ _ rfl
  refine ⟨fun n hn hparams => ?_, fun hparams hunmatched => ?_, ?_⟩
  · have ho : o.result = .ok n := by
      rw [hresult] at hn
      revert hn
      cases o.result with
      | error e => nofun
      | ok n' => exact fun h => by cases h; rfl
    have hread : k.unread t = [] := by
      rw [Kind.unread, if_neg fun h => h.2 (congrArg some (hparams h.1))]
    have hagrees := Builder.agrees_single (a := allowance) hc k
    rw [hread] at hagrees
    exact hagrees.whole ho
  · obtain ⟨m, hm⟩ := Builder.refuses_node allowance hk hparams ⟨_, hc.stands.segment⟩ hunmatched
    refine ⟨m, ?_⟩
    rw [hresult, hm]
    rfl
  · rintro rfl hrule
    have ho : Builder.node allowance .params c = _ :=
      Builder.node_params_of_ne allowance hc fun h => hrule (Option.some.inj h)
    refine ⟨?_, congrArg Outcome.cursor ho, congrArg Outcome.log ho⟩
    rw [hresult, ho]
    rfl

/-- The integer among the primitives is used up to the last of its three nodes. -/
theorem convert_whole_seven : Kind.primitive.isGeneral = false ∧
    (convertUnder 900 {} none .primitive Builder.seven).result =
        .ok (.primitive (.integer .decimal 7)) ∧
      (Builder.node 900 .primitive (Cursor.ofTree {} none Builder.seven)).cursor.pos = 3 := by
  have hok : (convertUnder 900 {} none .primitive Builder.seven).result =
      .ok (.primitive (.integer .decimal 7)) := by rfl
  have hwhole := convert_whole 900 {} none (k := .primitive) (by decide) "primitive_value" none
    [.node "integer" none [.node "integer_dec" none [.token ⟨"DEC_INT", "7", {}⟩]]]
  exact ⟨by decide, hok, (hwhole.1 _ hok nofun).1⟩

/-- Not every conversion that yields a node uses up the root: of a statement parameters are built,
and the statement is still ahead. -/
theorem convert_leaves_root_unread : ¬∀ (k : Kind) (t : Tree), k.isGeneral = false → t.isNode →
    ∀ n, (convert {} none k t).result = .ok n →
      (Builder.node defaultAllowance k (Cursor.ofTree {} none t)).cursor.peek? = none := by
  intro h
  let t : Tree := .node Kind.statement.rule none []
  have hc : (Cursor.ofTree {} ((none : Option String).map charsOf) t).Before ⟨none, {}⟩ [t] :=
    Cursor.before_ofTree {} none rfl
  have hnode := Builder.node_params_of_ne defaultAllowance hc (by decide)
  have hok : (convert {} none .params t).result = .ok (.params []) := by
    have hscannable : t.Scannable scanAllowance none := by decide
    rw [convert_eq, Option.map_none, if_pos hscannable]
    refine (result_convertWith (Builder.node defaultAllowance .params) .params {} none ..).trans ?_
    rw [hnode]
    rfl
  have hpeek : (Cursor.ofTree {} none t).peek? = none :=
    (congrArg (·.cursor.peek?) hnode).symm.trans (h .params t (by decide) rfl _ hok)
  exact absurd hpeek (by decide)

end RuleTree
