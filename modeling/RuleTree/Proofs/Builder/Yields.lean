import RuleTree.Proofs.Builder.Refusal
import RuleTree.Proofs.Queue.Branch

/-!
# What builders yield on what they are for

Over the branches that a builder is for, its outcome is known from the results of its parts. There
is one lemma for each way to put builders together.

* `Yields`: the result of an outcome, and what its cursor is over if the result is a value.
* `yields_tagged`, `yields_choice`, `yields_many`: builders for a node, and for all the children
  of one.
-/

namespace RuleTree

/-- The cursor is over the branches `bs` under the settings `s`. -/
structure Cursor.At (c : Cursor) (s : Settings) (bs : List Branch) : Prop where
  segment : c.Over bs
  settings_eq : c.settings = s

theorem Cursor.At.rule? {c : Cursor} {s : Settings} {bs : List Branch} (h : c.At s bs) :
    c.rule? = bs.head?.map Branch.rule :=
  h.segment.rule?

theorem Cursor.At.exists_item {c : Cursor} {s : Settings} {b : Branch} {bs : List Branch}
    (h : c.At s (b :: bs)) :
    ∃ i, c.peek? = some i ∧ i.entry.site = b.site ∧ (c.inside i).At s b.children ∧
      (c.behind i).At s bs := by
  obtain ⟨i, hi, hsite, hinside, hbehind⟩ := h.segment.exists_item
  exact ⟨i, Cursor.peek?_eq_some_iff.mpr hi, hsite, ⟨hinside, h.settings_eq⟩,
    ⟨hbehind, h.settings_eq⟩⟩

namespace Builder

/-- The outcome has the result `r`, and its cursor is over `rest` if that is a value. An error is
one for good. -/
inductive Yields {α : Type} (s : Settings) (rest : List Branch) :
    Outcome α → Except Failure α → Prop
  | value {a : α} {c : Cursor} {log : List Site} : c.At s rest →
      Yields s rest ⟨.ok a, c, log⟩ (.ok a)
  | failure {e : Failure} {c : Cursor} {log : List Site} : (∀ m, e ≠ .noMatch m) →
      Yields s rest ⟨.error e, c, log⟩ (.error e)

variable {α β : Type} {b : Builder α} {c : Cursor} {s : Settings} {rest : List Branch}
  {rule : String} {r : Except Failure α}

theorem Yields.result_eq {o : Outcome α} (h : Yields s rest o r) : o.result = r := by
  cases h with
  | value => rfl
  | failure => rfl

theorem Yields.of_result {o : Outcome α} (h : Yields s rest o r) {next : List Branch}
    {log : List Site} (hc : c.At s next) : Yields s next ⟨r, c, log⟩ r := by
  cases h with
  | value => exact .value hc
  | failure he => exact .failure he

theorem Yields.ne_noMatch {o : Outcome α} (h : Yields s rest o r) (m : Mismatch) :
    r ≠ .error (.noMatch m) := by
  cases h with
  | value => nofun
  | failure he => exact fun h => he m (Except.error.inj h)

theorem Yields.after {o : Outcome α} (h : Yields s rest o r) (log : List Site) :
    Yields s rest (o.after log) r := by
  cases h with
  | value hc => exact .value hc
  | failure he => exact .failure he

/-! ### Sequences -/

theorem yields_pure (hc : c.At s rest) (a : α) : Yields s rest ((pure a : Builder α) c) (.ok a) :=
  .value hc

theorem yields_bind {next : List Branch} (hb : Yields s next (b c) r) {f : α → Builder β}
    {g : α → Except Failure β} (hf : ∀ a c', c'.At s next → Yields s rest (f a c') (g a)) :
    Yields s rest ((b >>= f) c) (r >>= g) := by
  generalize ho : b c = o at hb
  cases hb with
  | value hc =>
    rw [bind_of_ok ho]
    exact (hf _ _ hc).after _
  | failure he =>
    rw [bind_of_error ho]
    exact .failure he

theorem yields_bind_ok {next : List Branch} {a : α} (hb : Yields s next (b c) (.ok a))
    {f : α → Builder β} {r' : Except Failure β}
    (hf : ∀ c', c'.At s next → Yields s rest (f a c') r') : Yields s rest ((b >>= f) c) r' := by
  generalize ho : b c = o at hb
  generalize hr : Except.ok a = r at hb
  cases hb with
  | value hc =>
    cases hr
    rw [bind_of_ok ho]
    exact (hf _ hc).after _
  | failure => cases hr

theorem yields_map (hb : Yields s rest (b c) r) (f : α → β) :
    Yields s rest ((f <$> b) c) (r.map f) := by
  generalize ho : b c = o at hb
  cases hb with
  | value hc =>
    rw [map_of_eq ho]
    exact .value hc
  | failure he =>
    rw [map_of_eq ho]
    exact .failure he

theorem Yields.recover (hb : Yields s rest (b c) r) (next : Option String → Builder α) :
    Yields s rest (recover b next c) r := by
  generalize ho : b c = o at hb
  cases hb with
  | value hc =>
    rw [recover_of_ne ho nofun]
    exact .value hc
  | failure he =>
    rw [recover_of_ne ho fun m hm => he m (Except.error.inj hm)]
    exact .failure he

theorem yields_required (hb : Yields s rest (b c) r) (parent : Site) (what : String) :
    Yields s rest (required parent what b c) r :=
  hb.recover _

theorem yields_optional (hb : Yields s rest (b c) r) :
    Yields s rest (optional b c) (r.map some) :=
  (yields_map hb some).recover _

theorem yields_optional_none (hb : Selects rule b) (hc : c.At s rest)
    (hrule : rest.head?.map Branch.rule ≠ some rule) :
    Yields s rest (optional b c) (.ok none) := by
  obtain ⟨m, hm⟩ := hb c hc.segment.ahead_ne_outside (by rwa [hc.rule?])
  rw [optional_of_noMatch hm]
  exact .value hc

/-! ### Nodes -/

theorem closing_of_yields {o : Outcome α} (h : Yields s [] o r) (site : Site) :
    closing site o = r := by
  cases h with
  | value hc =>
    simp only [closing, Except.bind, finish, hc.segment.ahead_nil]
    rfl
  | failure => rfl

theorem yields_tagged {b : Branch} (hc : c.At s (b :: rest)) (hrule : b.rule = rule)
    {f : Site → Builder α} (hf : ∀ c', c'.At s b.children → Yields s [] (f b.site c') r) :
    Yields s rest (tagged rule f c) r := by
  obtain ⟨i, hi, hsite, hinside, hbehind⟩ := hc.exists_item
  have hyields := hf _ hinside
  have hr : i.rule = rule := by
    rw [Item.rule, hsite]
    exact hrule
  rw [tagged_of_match hi hr, hsite, closing_of_yields hyields]
  exact hyields.of_result hbehind

theorem yields_firstMatchOf {variants : List (Kind × Builder α)} (hvariants : Separate variants)
    {v : Kind × Builder α} (hv : v ∈ variants) {bs : List Branch} (hc : c.At s bs)
    (hrule : bs.head?.map Branch.rule = some v.1.rule) (h : Yields s rest (v.2 c) r)
    (rules : List String) : Yields s rest (firstMatchOf rules (ofKinds variants) c) r := by
  have hne (m : Mismatch) : (v.2 c).result ≠ .error (.noMatch m) := by
    rw [h.result_eq]
    exact h.ne_noMatch m
  rw [firstMatchOf_of_taken hvariants hv (by rw [hc.rule?, hrule]) hne]
  exact h

/-- A choice yields what the variant for its first child yields on the children. -/
theorem yields_choice {b : Branch} (hc : c.At s (b :: rest)) (hrule : b.rule = rule)
    {variants : List (Kind × Builder α)} (hvariants : Separate variants)
    {v : Kind × Builder α} (hv : v ∈ variants)
    (hchild : b.children.head?.map Branch.rule = some v.1.rule)
    (h : ∀ c', c'.At s b.children → Yields s [] (v.2 c') r) :
    Yields s rest (choice rule (ofKinds variants) c) r := by
  obtain ⟨i, hi, hsite, hinside, hbehind⟩ := hc.exists_item
  have hyields : Yields s [] (firstMatch (ofKinds variants) (c.inside i)) r :=
    yields_firstMatchOf hvariants hv hinside hchild (h _ hinside) _
  have hr : i.rule = rule := by
    rw [Item.rule, hsite]
    exact hrule
  cases hres : r with
  | ok a =>
    rw [choice_of_ok hi hr (by rw [closing_of_yields hyields, hres])]
    exact .value hbehind
  | error e =>
    rw [choice_of_error hi hr (by rw [closing_of_yields hyields, hres])]
    rw [hres] at hyields
    exact .failure fun m hm => hyields.ne_noMatch m (congrArg Except.error hm)

theorem yields_allowed_none {b : Branch} (hc : c.At s (b :: rest)) (hrule : b.rule = rule)
    {next : List Branch} : Yields s next (allowed (α := α) rule none c) (.error .tooDeep) := by
  obtain ⟨i, hi, hsite, -, -⟩ := hc.exists_item
  have hr : i.rule = rule := by
    rw [Item.rule, hsite]
    exact hrule
  rw [allowed_none_of_match hi hr]
  apply Yields.failure
  intro m hm
  cases hm

/-! ### Repetition -/

theorem remaining_of_over {bs : List Branch} (h : c.Over bs) : c.remaining = bs.length := by
  induction bs generalizing c with
  | nil =>
    have hnone : c.peek? = none := by rw [Cursor.peek?, h.ahead_nil]
    rw [Cursor.remaining, Cursor.siblings_of_none hnone]
    rfl
  | cons b bs ih =>
    obtain ⟨i, hi, -, -, hbehind⟩ := h.exists_item
    rw [Cursor.remaining, Cursor.siblings_of_some (Cursor.peek?_eq_some_iff.mpr hi),
      List.length_cons, List.length_cons, ← ih hbehind]
    rfl

theorem yields_many {χ : Type} (hb : Selects rule b) {branch : χ → Branch}
    {value : χ → Except Failure α} {xs : List χ}
    (hx : ∀ x ∈ xs, ∀ c rest, c.At s (branch x :: rest) → Yields s rest (b c) (value x))
    (hc : c.At s (xs.map branch)) : Yields s [] (many b c) (xs.mapM value) := by
  unfold many
  rw [remaining_of_over hc.segment, List.length_map]
  induction xs generalizing c with
  | nil =>
    obtain ⟨m, hm⟩ := hb c hc.segment.ahead_ne_outside (by rw [hc.rule?]; nofun)
    rw [atMost_of_noMatch hm]
    exact .value hc
  | cons x xs ih =>
    obtain ⟨hhead, htail⟩ := List.forall_mem_cons.mp hx
    have hyields := hhead c _ hc
    rw [List.mapM_cons, List.length_cons]
    generalize value x = v at hyields
    generalize ho : b c = o at hyields
    cases hyields with
    | failure he =>
      rw [atMost_of_error ho he]
      exact .failure he
    | value hc' =>
      have hrest := ih htail hc'
      rw [atMost_of_ok ho]
      generalize atMost b (xs.length + 1) _ = o' at hrest
      generalize xs.mapM value = r at hrest
      cases hrest with
      | value hc'' => exact .value hc''
      | failure he => exact .failure he

end Builder

end RuleTree
