import RuleTree.Builder.Nodes

/-!
# The steps of builders

What each way to put builders together does at a cursor, in the cases that matter: the next sibling
has the rule or it has not, the part before matched, did not match or failed.

* `tagged_of_match`, `choice_of_match`: a builder at a node with its rule.
* `tagged_of_mismatch`, `choice_of_mismatch`: a builder anywhere else.
* `operatorVariants` and so on: what each choice is between, by the kinds of the variants.
-/

namespace RuleTree

/-! ### Values of results -/

theorem map_eq_ok_iff {ε α β : Type} {x : Except ε α} {f : α → β} {b : β} :
    x.map f = .ok b ↔ ∃ a, x = .ok a ∧ f a = b := by
  cases x <;> simp [Except.map]

theorem mapError_eq_ok_iff {ε ε' α : Type} {x : Except ε α} {f : ε → ε'} {a : α} :
    x.mapError f = .ok a ↔ x = .ok a := by
  cases x <;> constructor <;> intro h <;> cases h <;> rfl

theorem bind_eq_ok_iff {ε α β : Type} {x : Except ε α} {f : α → Except ε β} {b : β} :
    x.bind f = .ok b ↔ ∃ a, x = .ok a ∧ f a = .ok b := by
  cases x <;> simp [Except.bind]

namespace Outcome

variable {α : Type}

@[simp] theorem after_nil (o : Outcome α) : o.after [] = o := by
  cases o
  rfl

end Outcome

namespace Builder

variable {α β : Type} {b : Builder α} {c c' : Cursor} {i : Item} {rule : String} {log : List Site}

/-! ### Sequences -/

theorem bind_of_ok {a : α} (h : b c = ⟨.ok a, c', log⟩) (f : α → Builder β) :
    (b >>= f) c = (f a c').after log := by
  simp only [bind, h]

theorem bind_of_error {e : Failure} (h : b c = ⟨.error e, c', log⟩) (f : α → Builder β) :
    (b >>= f) c = ⟨.error e, c', log⟩ := by
  simp only [bind, h]

theorem map_of_eq {r : Except Failure α} (h : b c = ⟨r, c', log⟩) (f : α → β) :
    (f <$> b) c = ⟨r.map f, c', log⟩ := by
  show ({ b c with result := (b c).result.map f } : Outcome β) = _
  rw [h]

theorem bind_pure_eq_map (b : Builder α) (f : α → β) : (b >>= fun a => pure (f a)) = f <$> b := by
  funext c
  rcases hb : b c with ⟨r, c', log⟩
  cases r with
  | error e => rw [bind_of_error hb, map_of_eq hb, Except.map]
  | ok a =>
    rw [bind_of_ok hb, map_of_eq hb]
    show (⟨.ok (f a), c', log ++ []⟩ : Outcome β) = _
    rw [List.append_nil]
    rfl

theorem recover_of_noMatch {m : Mismatch} (h : b c = ⟨.error (.noMatch m), c', log⟩)
    (next : Option String → Builder α) : recover b next c = (next m.found c').after log := by
  unfold recover
  rw [h]

theorem recover_of_ne {r : Except Failure α} (h : b c = ⟨r, c', log⟩)
    (hr : ∀ m, r ≠ .error (.noMatch m)) (next : Option String → Builder α) :
    recover b next c = ⟨r, c', log⟩ := by
  unfold recover
  rw [h]
  cases r with
  | ok a => rfl
  | error e =>
    cases e with
    | noMatch m => exact absurd rfl (hr m)
    | _ => rfl

theorem optional_of_ok {a : α} (h : b c = ⟨.ok a, c', log⟩) :
    optional b c = ⟨.ok (some a), c', log⟩ :=
  recover_of_ne (map_of_eq h some) nofun _

theorem optional_of_noMatch {m : Mismatch} (h : b c = ⟨.error (.noMatch m), c', log⟩) :
    optional b c = ⟨.ok none, c', log⟩ := by
  unfold optional
  rw [recover_of_noMatch (map_of_eq h some)]
  show (⟨.ok none, c', log ++ []⟩ : Outcome (Option α)) = _
  rw [List.append_nil]

theorem optional_of_error {e : Failure} (h : b c = ⟨.error e, c', log⟩)
    (he : ∀ m, e ≠ .noMatch m) : optional b c = ⟨.error e, c', log⟩ :=
  recover_of_ne (map_of_eq h some) (fun m hm => he m (Except.error.inj hm)) _

theorem recover_eq_ok_iff {next : Option String → Builder α} {a : α}
    (hnext : ∀ found c, (next found c).result ≠ .ok a) :
    recover b next c = ⟨.ok a, c', log⟩ ↔ b c = ⟨.ok a, c', log⟩ := by
  constructor
  · intro h
    rcases ho : b c with ⟨result, c'', log'⟩
    by_cases hresult : ∃ m, result = .error (.noMatch m)
    · obtain ⟨m, rfl⟩ := hresult
      rw [recover_of_noMatch ho] at h
      exact absurd (congrArg Outcome.result h) (hnext m.found c'')
    · rwa [recover_of_ne ho fun m hm => hresult ⟨m, hm⟩] at h
  · intro h
    exact recover_of_ne h (fun m hm => by cases hm) next

theorem required_eq_ok_iff {parent : Site} {what : String} {a : α} :
    required parent what b c = ⟨.ok a, c', log⟩ ↔ b c = ⟨.ok a, c', log⟩ :=
  recover_eq_ok_iff fun _ _ h => by cases h

theorem optional_eq_some_iff {a : α} :
    optional b c = ⟨.ok (some a), c', log⟩ ↔ b c = ⟨.ok a, c', log⟩ := by
  refine (recover_eq_ok_iff fun _ _ h => by cases h).trans ?_
  rcases ho : b c with ⟨result, c'', log'⟩
  rw [map_of_eq ho]
  cases result <;> constructor <;> intro h <;> cases h <;> rfl

/-! ### Repetition -/

theorem atMost_of_ok {a : α} (h : b c = ⟨.ok a, c', log⟩) (n : Nat) :
    atMost b (n + 1) c =
      ⟨(atMost b n c').result.map (a :: ·), (atMost b n c').cursor,
        log ++ (atMost b n c').log⟩ := by
  rw [atMost, bind_of_ok (optional_of_ok h)]
  rfl

theorem atMost_of_noMatch {m : Mismatch} (h : b c = ⟨.error (.noMatch m), c', log⟩) (n : Nat) :
    atMost b (n + 1) c = ⟨.ok [], c', log⟩ := by
  rw [atMost, bind_of_ok (optional_of_noMatch h)]
  show (⟨.ok [], c', log ++ []⟩ : Outcome (List α)) = _
  rw [List.append_nil]

theorem atMost_of_error {e : Failure} (h : b c = ⟨.error e, c', log⟩) (he : ∀ m, e ≠ .noMatch m)
    (n : Nat) : atMost b (n + 1) c = ⟨.error e, c', log⟩ := by
  rw [atMost, bind_of_error (optional_of_error h he)]

/-! ### The next sibling -/

theorem rule?_of_peek? (hi : c.peek? = some i) : c.rule? = some i.rule := by
  rw [Cursor.rule?, hi]
  rfl

theorem exists_peek? (h : c.rule? = some rule) : ∃ i, c.peek? = some i ∧ i.rule = rule := by
  unfold Cursor.rule? at h
  exact Option.map_eq_some_iff.mp h

theorem mismatch_eq (hc : c.ahead ≠ .outside) (expected : List String) :
    mismatch (α := α) expected c = ⟨.error (.noMatch ⟨expected, c.rule?⟩), c, []⟩ := by
  unfold mismatch
  split
  · rename_i h
    exact absurd h hc
  · rfl

theorem expect_of_match (hi : c.peek? = some i) (hr : i.rule = rule) :
    expect rule c = ⟨.ok i, c, []⟩ := by
  unfold expect
  rw [hi]
  simp only [if_pos hr]

theorem expect_of_mismatch (hc : c.ahead ≠ .outside) (hr : c.rule? ≠ some rule) :
    expect rule c = ⟨.error (.noMatch ⟨[rule], c.rule?⟩), c, []⟩ := by
  unfold expect
  cases hi : c.peek? with
  | none => exact mismatch_eq hc _
  | some i =>
    have hne : i.rule ≠ rule := fun h => hr (by rw [rule?_of_peek? hi, h])
    simp only [if_neg hne]
    exact mismatch_eq hc _

/-! ### Nodes with a rule -/

/-- What comes of building from the children of a node: an error where children are left. -/
def closing (site : Site) (o : Outcome α) : Except Failure α :=
  o.result.bind fun a => (finish site o.cursor).map fun _ => a

theorem tagged_of_match (hi : c.peek? = some i) (hr : i.rule = rule) (f : Site → Builder α) :
    tagged rule f c =
      ⟨closing i.entry.site (f i.entry.site (c.inside i)), c.behind i,
        i.entry.site :: (f i.entry.site (c.inside i)).log⟩ := by
  unfold tagged
  rw [bind_of_ok (expect_of_match hi hr), Outcome.after_nil,
    bind_of_ok (show commit i c = ⟨.ok (), c.behind i, [i.entry.site]⟩ from rfl)]
  rfl

theorem tagged_of_mismatch (hc : c.ahead ≠ .outside) (hr : c.rule? ≠ some rule)
    (f : Site → Builder α) :
    tagged rule f c = ⟨.error (.noMatch ⟨[rule], c.rule?⟩), c, []⟩ := by
  unfold tagged
  rw [bind_of_error (expect_of_mismatch hc hr)]

theorem choice_of_mismatch (hc : c.ahead ≠ .outside) (hr : c.rule? ≠ some rule)
    (variants : List (Variant α)) :
    choice rule variants c = ⟨.error (.noMatch ⟨[rule], c.rule?⟩), c, []⟩ := by
  unfold choice
  rw [bind_of_error (expect_of_mismatch hc hr)]

theorem choice_of_ok (hi : c.peek? = some i) (hr : i.rule = rule) {variants : List (Variant α)}
    {a : α} (h : closing i.entry.site (firstMatch variants (c.inside i)) = .ok a) :
    choice rule variants c =
      ⟨.ok a, c.behind i, (firstMatch variants (c.inside i)).log ++ [i.entry.site]⟩ := by
  have hwithin : within i (firstMatch variants) c =
      ⟨.ok a, c, (firstMatch variants (c.inside i)).log⟩ := by
    rw [← h]
    rfl
  unfold choice
  rw [bind_of_ok (expect_of_match hi hr), Outcome.after_nil, bind_of_ok hwithin]
  rfl

theorem choice_of_error (hi : c.peek? = some i) (hr : i.rule = rule) {variants : List (Variant α)}
    {e : Failure} (h : closing i.entry.site (firstMatch variants (c.inside i)) = .error e) :
    choice rule variants c = ⟨.error e, c, (firstMatch variants (c.inside i)).log⟩ := by
  have hwithin : within i (firstMatch variants) c =
      ⟨.error e, c, (firstMatch variants (c.inside i)).log⟩ := by
    rw [← h]
    rfl
  unfold choice
  rw [bind_of_ok (expect_of_match hi hr), Outcome.after_nil, bind_of_error hwithin]

/-! ### Allowances -/

theorem group?_under (a : Nat) (build : Nat → Builder Expression) :
    (Nested.under a fun b _ => build b).group? =
      if groupCost ≤ a then some (build (a - groupCost)) else none := by
  simp only [Nested.under]
  split <;> rfl

theorem item?_under (a : Nat) (build : Nat → Builder Expression) :
    (Nested.under a fun b _ => build b).item? =
      if sequenceCost ≤ a then some (build (a - sequenceCost)) else none := by
  simp only [Nested.under]
  split <;> rfl

theorem nested_group? (a : Nat) : (nested a).group? =
    if groupCost ≤ a then some (α := Builder Expression) (expression (a - groupCost)) else none :=
  group?_under a expression

theorem nested_item? (a : Nat) : (nested a).item? =
    if sequenceCost ≤ a then some (α := Builder Expression) (expression (a - sequenceCost))
    else none :=
  item?_under a expression

theorem sequence_under (k : Kind) (a : Nat) (build : Nat → Builder Expression) :
    sequence k (.under a fun b _ => build b) =
      allowed k.rule (if sequenceCost ≤ a then
        some (tagged k.rule fun _ => many (build (a - sequenceCost))) else none) := by
  rw [sequence, item?_under]
  split <;> rfl

theorem nested_group?_eq_some {a : Nat} {b : Builder Expression}
    (h : (nested a).group? = some b) : groupCost ≤ a ∧ b = expression (a - groupCost) := by
  rw [nested_group?, Option.ite_none_right_eq_some] at h
  exact ⟨h.1, (Option.some.inj h.2).symm⟩

theorem nested_item?_eq_some {a : Nat} {b : Builder Expression}
    (h : (nested a).item? = some b) : sequenceCost ≤ a ∧ b = expression (a - sequenceCost) := by
  rw [nested_item?, Option.ite_none_right_eq_some] at h
  exact ⟨h.1, (Option.some.inj h.2).symm⟩

theorem allowed_none_of_match (hi : c.peek? = some i) (hr : i.rule = rule) :
    allowed (α := α) rule none c = ⟨.error .tooDeep, c, []⟩ := by
  show (expect rule >>= fun _ => fail .tooDeep) c = _
  rw [bind_of_ok (expect_of_match hi hr)]
  rfl

theorem allowed_none_of_mismatch (hc : c.ahead ≠ .outside) (hr : c.rule? ≠ some rule) :
    allowed (α := α) rule none c = ⟨.error (.noMatch ⟨[rule], c.rule?⟩), c, []⟩ := by
  show (expect rule >>= fun _ => fail .tooDeep) c = _
  rw [bind_of_error (expect_of_mismatch hc hr)]

/-! ### Variants

The variants of each choice, with the kinds that they are for. -/

/-- Builders of kinds as variants of a choice. -/
def ofKinds (variants : List (Kind × Builder α)) : List (Variant α) :=
  variants.map fun v => (v.1.rule, v.2)

@[simp] theorem ofKinds_cons (v : Kind × Builder α) (vs : List (Kind × Builder α)) :
    ofKinds (v :: vs) = (v.1.rule, v.2) :: ofKinds vs := rfl

def operatorVariants : List (Kind × Builder Operator) :=
  Operator.all.map fun o => (.marker o, marker (.marker o) o)

def integerVariants : List (Kind × Builder (Radix × Int)) :=
  [Radix.decimal, .binary, .octal, .hexadecimal].map fun r =>
    (.numeral r, (r, ·) <$> numeral (.numeral r) r)

def primitiveVariants : List (Kind × Builder Primitive) :=
  [(.integer, (fun n : Radix × Int => .integer n.1 n.2) <$> integer),
    (.float, Primitive.float <$> float), (.char, Primitive.char <$> char)]

def valueVariants (n : Nested) : List (Kind × Builder Value) :=
  [(.primitive, Value.primitive <$> primitive), (.string, Value.string <$> string),
    (.array, Value.array <$> sequence .array n), (.tuple, Value.tuple <$> sequence .tuple n)]

def termVariants (n : Nested) : List (Kind × Builder Term) :=
  [(.value, Term.value <$> value n),
    (.expression, Term.group <$> allowed Kind.expression.rule n.group?)]

end Builder

end RuleTree
