import RuleTree.Proofs.Builder.Parallel
import RuleTree.Proofs.Tree.Bracket
import RuleTree.Proofs.Tree.Made

/-!
# When the nesting is too deep

A builder uses up its allowance exactly where the descent through the tree meets a bracket that the
allowance does not suffice for. Nothing that does not match and nothing that is tried instead can
hide that, and no other error before it can be missed.

* `Outcome.TooDeep`: the allowance was used up.
* `tooDeep_bind_iff`, `tooDeep_recover_iff` and so on: that of builders that are put together.
* `tooDeep_choice_iff`, `tooDeep_many_iff`: what is below a node, by the nodes.
* `tooDeep_expression_iff`: the recursion.
* `tooDeep_node_iff`: all kinds.
-/

namespace RuleTree

/-- The allowance was used up. -/
def Outcome.TooDeep {α : Type} (o : Outcome α) : Prop := o.result = .error .tooDeep

namespace Builder

variable {α β : Type} {b : Builder α} {c c' : Cursor} {i : Item} {rule : String} {site : Site}
  {what : String} {log : List Site}

/-! ### At any cursor -/

theorem not_tooDeep_ok {a : α} : ¬(⟨.ok a, c, log⟩ : Outcome α).TooDeep := by
  intro h
  cases h

theorem not_tooDeep_noMatch {m : Mismatch} :
    ¬(⟨.error (.noMatch m), c, log⟩ : Outcome α).TooDeep := by
  intro h
  cases h

theorem tooDeep_bind_iff (f : α → Builder β) : ((b >>= f) c).TooDeep ↔
    (b c).TooDeep ∨ ∃ a c' log, b c = ⟨.ok a, c', log⟩ ∧ (f a c').TooDeep := by
  rcases ho : b c with ⟨result, c', log⟩
  cases result with
  | error e =>
    rw [bind_of_error ho]
    constructor
    · intro h
      cases h
      exact .inl rfl
    · rintro (h | ⟨a, c', log, h, -⟩)
      · cases h
        rfl
      · cases h
  | ok a =>
    rw [bind_of_ok ho]
    constructor
    · exact fun h => .inr ⟨a, c', log, rfl, h⟩
    · rintro (h | ⟨a', c'', log', h, hf⟩)
      · exact absurd h not_tooDeep_ok
      · cases h
        exact hf

theorem tooDeep_map_iff (f : α → β) : ((f <$> b) c).TooDeep ↔ (b c).TooDeep := by
  rcases ho : b c with ⟨result, c', log⟩
  rw [map_of_eq ho]
  cases result <;> constructor <;> intro h <;> cases h <;> rfl

theorem tooDeep_recover_iff {next : Option String → Builder α}
    (hnext : ∀ found c, ¬(next found c).TooDeep) :
    (recover b next c).TooDeep ↔ (b c).TooDeep := by
  rcases ho : b c with ⟨result, c', log⟩
  by_cases hresult : ∃ m, result = .error (.noMatch m)
  · obtain ⟨m, rfl⟩ := hresult
    rw [recover_of_noMatch ho]
    exact iff_of_false (hnext m.found c') not_tooDeep_noMatch
  · rw [recover_of_ne ho fun m hm => hresult ⟨m, hm⟩]

theorem tooDeep_required_iff : (required site what b c).TooDeep ↔ (b c).TooDeep :=
  tooDeep_recover_iff fun _ _ h => by cases h

theorem tooDeep_optional_iff : (optional b c).TooDeep ↔ (b c).TooDeep :=
  (tooDeep_recover_iff fun _ _ => not_tooDeep_ok).trans (tooDeep_map_iff some)

theorem closing_eq_tooDeep_iff (site : Site) {o : Outcome α} :
    closing site o = .error .tooDeep ↔ o.TooDeep := by
  obtain ⟨result, c, log⟩ := o
  cases result with
  | error e => constructor <;> intro h <;> cases h <;> rfl
  | ok a =>
    refine iff_of_false ?_ not_tooDeep_ok
    simp only [closing, Except.bind, finish]
    cases c.ahead <;> intro h <;> cases h

theorem not_tooDeep_refusal (rules : List String) :
    ¬(⟨.error (refusal rules c), c, log⟩ : Outcome α).TooDeep := by
  intro h
  rw [Outcome.TooDeep, refusal] at h
  split at h <;> cases h

theorem tooDeep_tagged_of_match (hi : c.peek? = some i) (hr : i.rule = rule)
    (f : Site → Builder α) :
    (tagged rule f c).TooDeep ↔ (f i.entry.site (c.inside i)).TooDeep := by
  rw [tagged_of_match hi hr]
  exact closing_eq_tooDeep_iff _

theorem tooDeep_choice_of_match (hi : c.peek? = some i) (hr : i.rule = rule)
    (variants : List (Variant α)) :
    (choice rule variants c).TooDeep ↔ (firstMatch variants (c.inside i)).TooDeep := by
  refine Iff.trans ?_ (closing_eq_tooDeep_iff i.entry.site)
  cases hclosing : closing i.entry.site (firstMatch variants (c.inside i)) with
  | ok a =>
    rw [choice_of_ok hi hr hclosing]
    exact Iff.rfl
  | error e =>
    rw [choice_of_error hi hr hclosing]
    exact Iff.rfl

theorem Opens.rule?_of_tooDeep (hb : Opens rule b) (h : (b c).TooDeep) : c.rule? = some rule := by
  by_cases hrule : c.rule? = some rule
  · exact hrule
  · rw [hb c hrule] at h
    exact absurd h (not_tooDeep_refusal _)

/-! ### Kinds without expressions -/

theorem not_tooDeep_tagged {f : Site → Builder α} (hf : ∀ site c, ¬(f site c).TooDeep)
    (c : Cursor) : ¬(tagged rule f c).TooDeep := by
  intro h
  obtain ⟨i, hi, hr⟩ := exists_peek? ((opens_tagged rule f).rule?_of_tooDeep h)
  exact hf _ _ ((tooDeep_tagged_of_match hi hr f).mp h)

theorem not_tooDeep_choice {variants : List (Variant α)}
    (h : ∀ v ∈ variants, ∀ c, ¬(v.2 c).TooDeep) (c : Cursor) :
    ¬(choice rule variants c).TooDeep := by
  intro hdeep
  obtain ⟨i, hi, hr⟩ := exists_peek? ((opens_choice rule variants).rule?_of_tooDeep hdeep)
  have hfirst (rules : List String) (c : Cursor) : ¬(firstMatchOf rules variants c).TooDeep := by
    clear hdeep
    induction variants generalizing c with
    | nil =>
      rw [firstMatchOf, mismatch_eq_refusal]
      exact not_tooDeep_refusal rules
    | cons v vs ih =>
      obtain ⟨hv, hvs⟩ := List.forall_mem_cons.mp h
      rw [firstMatchOf, tooDeep_recover_iff fun _ c => ih hvs c]
      exact hv c
  exact hfirst _ _ ((tooDeep_choice_of_match hi hr variants).mp hdeep)

theorem not_tooDeep_marker (k : Kind) (a : α) (c : Cursor) : ¬(marker k a c).TooDeep :=
  not_tooDeep_tagged (fun _ _ => not_tooDeep_ok) c

theorem not_tooDeep_leaf (k : Kind) (decoder : Settings → String → Except Fault α) (c : Cursor) :
    ¬(leaf k decoder c).TooDeep := by
  refine not_tooDeep_tagged (fun site c => ?_) c
  rw [tooDeep_bind_iff]
  rintro (h | ⟨s, c', log, -, h⟩)
  · exact not_tooDeep_ok h
  · unfold decode at h
    generalize decoder s site.text = decoded at h
    cases decoded with
    | ok a => cases h
    | error fault => cases fault <;> cases h

theorem not_tooDeep_map (h : ¬(b c).TooDeep) (f : α → β) : ¬((f <$> b) c).TooDeep :=
  mt (tooDeep_map_iff f).mp h

theorem not_tooDeep_operator (c : Cursor) : ¬(operator c).TooDeep := by
  refine not_tooDeep_choice (fun v hv c => ?_) c
  obtain ⟨o, -, rfl⟩ := List.mem_map.mp hv
  exact not_tooDeep_marker (.marker o) o c

theorem not_tooDeep_integer (c : Cursor) : ¬(integer c).TooDeep := by
  refine not_tooDeep_choice (fun v hv c => ?_) c
  obtain ⟨r, -, rfl⟩ := List.mem_map.mp hv
  exact not_tooDeep_map (not_tooDeep_leaf (.numeral r) _ c) _

theorem not_tooDeep_primitive (c : Cursor) : ¬(primitive c).TooDeep := by
  refine not_tooDeep_choice ?_ c
  simp only [List.forall_mem_cons, List.not_mem_nil, false_implies, implies_true, and_true]
  exact ⟨fun c => not_tooDeep_map (not_tooDeep_integer c) _,
    fun c => not_tooDeep_map (not_tooDeep_leaf .float _ c) _,
    fun c => not_tooDeep_map (not_tooDeep_leaf .char _ c) _⟩

theorem not_tooDeep_node {k : Kind} (hk : k.holdsExpressions = false) (a : Nat) (c : Cursor) :
    ¬(node a k c).TooDeep := by
  cases k with
  | program | statement | expression | params | array | tuple | anySequence | term | value =>
    cases hk
  | primitive => exact not_tooDeep_map (not_tooDeep_primitive c) _
  | operator => exact not_tooDeep_map (not_tooDeep_operator c) _
  | integer => exact not_tooDeep_map (not_tooDeep_integer c) _
  | marker o => exact not_tooDeep_map (not_tooDeep_marker (.marker o) o c) _
  | numeral r => exact not_tooDeep_map (not_tooDeep_leaf (.numeral r) _ c) _
  | float => exact not_tooDeep_map (not_tooDeep_leaf .float _ c) _
  | char => exact not_tooDeep_map (not_tooDeep_leaf .char _ c) _
  | string => exact not_tooDeep_map (not_tooDeep_leaf .string _ c) _
  | anyMarker => exact not_tooDeep_marker .anyMarker _ c
  | anyNumeral => exact not_tooDeep_map (not_tooDeep_leaf .anyNumeral _ c) _
  | anyNode =>
    intro h
    cases h
  | anyChoice =>
    have hopens : Opens Kind.anyChoice.rule (node a .anyChoice) := opens_node a nofun nofun
    intro h
    obtain ⟨i, hi, hr⟩ := exists_peek? (hopens.rule?_of_tooDeep h)
    rw [node, bind_of_ok (expect_of_match hi hr)] at h
    cases h

/-! ### Before the nodes of a tree -/

variable {d : Descent} {deep : Prop} {t : Tree} {ts rest : List Tree} {r : Except Failure α} {a : Nat}
  {k : Kind}

theorem Agrees.eq_ok {o : Outcome α} (h : Agrees d deep c ts rest o r) {x : α}
    (ho : o = ⟨.ok x, c', log⟩) : r = .ok x ∧ c'.Before d rest := by
  cases h with
  | noMatch => cases ho
  | settled h =>
    cases h with
    | value hc =>
      cases ho
      exact ⟨rfl, hc⟩
    | failure => cases ho
    | tooDeep => cases ho

theorem Agrees.of_ok {o : Outcome α} {x : α} (h : Agrees d deep c ts rest o (.ok x)) :
    o.TooDeep ∨ ∃ c' log, o = ⟨.ok x, c', log⟩ ∧ c'.Before d rest := by
  generalize hr : Except.ok x = r at h
  cases h with
  | noMatch => cases hr
  | settled h =>
    cases h with
    | value hc =>
      cases hr
      exact .inr ⟨_, _, rfl, hc⟩
    | failure => cases hr
    | tooDeep => exact .inl rfl

theorem tooDeep_tagged_iff (hc : c.Before d (t :: ts)) {f : Site → Builder α} {p : Prop}
    (hf : ∀ c', c'.Before d t.subtrees → ((f (d.site t) c').TooDeep ↔ p)) :
    (tagged rule f c).TooDeep ↔ t.rule? = some rule ∧ p := by
  obtain ⟨i, hi, hsite, hr, hinside, -⟩ := hc.exists_item
  by_cases ht : t.rule? = some rule
  · rw [tooDeep_tagged_of_match hi (Option.some.inj (hr.symm.trans ht)), hsite, hf _ hinside,
      and_iff_right ht]
  · rw [tagged_of_mismatch hc.ahead_ne_outside (by rwa [hc.rule?_cons])]
    exact iff_of_false not_tooDeep_noMatch fun h => ht h.1

theorem tooDeep_required_bind_iff (hb : Agrees d deep c ts rest (b c) r) {f : α → Builder β}
    {q : α → Prop} (hf : ∀ x c', r = .ok x → c'.Before d rest → ((f x c').TooDeep ↔ q x)) :
    ((required site what b >>= f) c).TooDeep ↔ (b c).TooDeep ∨ ∃ x, r = .ok x ∧ q x := by
  rw [tooDeep_bind_iff, tooDeep_required_iff]
  constructor
  · rintro (h | ⟨x, c', log, ho, h⟩)
    · exact .inl h
    · obtain ⟨hr, hc'⟩ := hb.eq_ok (required_eq_ok_iff.mp ho)
      exact .inr ⟨x, hr, (hf x c' hr hc').mp h⟩
  · rintro (h | ⟨x, rfl, hq⟩)
    · exact .inl h
    · rcases hb.of_ok with h | ⟨c', log, ho, hc'⟩
      · exact .inl h
      · exact .inr ⟨x, c', log, required_eq_ok_iff.mpr ho, (hf x c' rfl hc').mpr hq⟩

theorem not_tooDeep_required_bind {rule : String} (hb : Declines rule b) (hc : c.Before d [])
    (f : α → Builder β) : ¬((required site what b >>= f) c).TooDeep := by
  have hb := hb c hc.ahead_ne_outside (by rw [hc.rule?_nil]; nofun)
  rw [tooDeep_bind_iff, tooDeep_required_iff, hb]
  rintro (h | ⟨x, c', log, ho, -⟩)
  · exact not_tooDeep_noMatch h
  · rw [required, recover_of_noMatch hb] at ho
    cases ho

theorem tooDeep_optional_bind_iff (hb : Agrees d True c ts rest (b c) r) (hdeep : ¬(b c).TooDeep)
    {f : Option α → Builder β} (hnone : ∀ c, ¬(f none c).TooDeep) {q : α → Prop}
    (hf : ∀ x c', r = .ok x → c'.Before d rest → ((f (some x) c').TooDeep ↔ q x)) :
    ((optional b >>= f) c).TooDeep ↔ ∃ x, r = .ok x ∧ q x := by
  rw [tooDeep_bind_iff, tooDeep_optional_iff, or_iff_right hdeep]
  constructor
  · rintro ⟨x?, c', log, ho, h⟩
    cases x? with
    | none => exact absurd h (hnone c')
    | some x =>
      obtain ⟨hr, hc'⟩ := hb.eq_ok (optional_eq_some_iff.mp ho)
      exact ⟨x, hr, (hf x c' hr hc').mp h⟩
  · rintro ⟨x, rfl, hq⟩
    rcases hb.of_ok with h | ⟨c', log, ho, hc'⟩
    · exact absurd h hdeep
    · exact ⟨some x, c', log, optional_of_ok ho, (hf x c' rfl hc').mpr hq⟩

theorem not_tooDeep_optional_bind (hb : Declines rule b) (hc : c.Before d [])
    {f : Option α → Builder β} (hnone : ∀ c, ¬(f none c).TooDeep) :
    ¬((optional b >>= f) c).TooDeep := by
  have hb := hb c hc.ahead_ne_outside (by rw [hc.rule?_nil]; nofun)
  rw [bind_of_ok (optional_of_noMatch hb), Outcome.after_nil]
  exact hnone c

/-! ### Repetition -/

theorem tooDeep_atMost_succ_iff (n : Nat) : (atMost b (n + 1) c).TooDeep ↔
    (b c).TooDeep ∨ ∃ x c' log, b c = ⟨.ok x, c', log⟩ ∧ (atMost b n c').TooDeep := by
  rw [atMost, tooDeep_bind_iff, tooDeep_optional_iff]
  refine or_congr_right ⟨?_, ?_⟩
  · rintro ⟨x?, c', log, ho, h⟩
    cases x? with
    | none => exact absurd h not_tooDeep_ok
    | some x => exact ⟨x, c', log, optional_eq_some_iff.mp ho, (tooDeep_map_iff _).mp h⟩
  · rintro ⟨x, c', log, ho, h⟩
    exact ⟨some x, c', log, optional_of_ok ho, (tooDeep_map_iff _).mpr h⟩

theorem exists_split_cons_iff {p q : α → Prop} {x : α} {xs : List α} :
    (∃ before u behind, x :: xs = before ++ u :: behind ∧ (∀ w ∈ before, q w) ∧ p u) ↔
      p x ∨ q x ∧ ∃ before u behind, xs = before ++ u :: behind ∧ (∀ w ∈ before, q w) ∧ p u := by
  simp only [List.cons_eq_append_iff]
  constructor
  · rintro ⟨before, u, behind, ⟨rfl, heq⟩ | ⟨before, rfl, rfl⟩, hbefore, hu⟩
    · cases heq
      exact .inl hu
    · obtain ⟨hx, hbefore⟩ := List.forall_mem_cons.mp hbefore
      exact .inr ⟨hx, before, u, behind, rfl, hbefore, hu⟩
  · rintro (hx | ⟨hx, before, u, behind, rfl, hbefore, hu⟩)
    · exact ⟨[], x, xs, .inl ⟨rfl, rfl⟩, nofun, hx⟩
    · exact ⟨x :: before, u, behind, .inr ⟨before, rfl, rfl⟩,
        List.forall_mem_cons.mpr ⟨hx, hbefore⟩, hu⟩

/-- Repeating a builder is too deep exactly if it is at some node before which it has a value at all
nodes. -/
theorem tooDeep_atMost_iff {f : Tree → Except Failure α} {p : Tree → Prop}
    (hb : Declines rule b) (h : ∀ u us c, c.Before d (u :: us) →
      Agrees d deep c (u :: us) us (b c) (f u) ∧ ((b c).TooDeep ↔ p u))
    {n : Nat} (hn : ts.length < n) (hc : c.Before d ts) :
    (atMost b n c).TooDeep ↔ ∃ before u behind, ts = before ++ u :: behind ∧
      (∀ w ∈ before, ∃ x, f w = .ok x) ∧ p u := by
  induction ts generalizing c n with
  | nil =>
    obtain ⟨n, rfl⟩ := Nat.exists_eq_succ_of_ne_zero (by omega : n ≠ 0)
    have hnone := hb c hc.ahead_ne_outside (by rw [hc.rule?_nil]; nofun)
    rw [atMost_of_noMatch hnone]
    refine iff_of_false not_tooDeep_ok ?_
    rintro ⟨before, u, behind, hnil, -⟩
    cases before <;> cases hnil
  | cons t ts ih =>
    obtain ⟨n, rfl⟩ := Nat.exists_eq_succ_of_ne_zero (by omega : n ≠ 0)
    obtain ⟨hagrees, hp⟩ := h t ts c hc
    rw [tooDeep_atMost_succ_iff, exists_split_cons_iff, hp]
    by_cases hpt : p t
    · exact iff_of_true (.inl hpt) (.inl hpt)
    rw [or_iff_right hpt, or_iff_right hpt]
    -- the first node has a value, for the builder as for the descent
    constructor
    · rintro ⟨x, c', log, ho, hdeep⟩
      obtain ⟨hx, hc'⟩ := hagrees.eq_ok ho
      exact ⟨⟨x, hx⟩, (ih (by simpa using hn) hc').mp hdeep⟩
    · rintro ⟨⟨x, hx⟩, hbehind⟩
      rw [hx] at hagrees
      rcases hagrees.of_ok with hdeep | ⟨c', log, ho, hc'⟩
      · exact absurd (hp.mp hdeep) hpt
      · exact ⟨x, c', log, ho, (ih (by simpa using hn) hc').mpr hbehind⟩

theorem tooDeep_many_iff {f : Tree → Except Failure α} {p : Tree → Prop}
    (hb : Declines rule b) (h : ∀ u us c, c.Before d (u :: us) →
      Agrees d deep c (u :: us) us (b c) (f u) ∧ ((b c).TooDeep ↔ p u)) (hc : c.Before d ts) :
    (many b c).TooDeep ↔ ∃ before u behind, ts = before ++ u :: behind ∧
      (∀ w ∈ before, ∃ x, f w = .ok x) ∧ p u :=
  tooDeep_atMost_iff hb h (by rw [remaining_of_before hc]; omega) hc

/-! ### Choices -/

variable {vs : List (Kind × Builder α)}

theorem tooDeep_firstMatchOf_iff (hvs : Separate vs) (hc : c.ahead ≠ .outside)
    (h : ∀ v ∈ vs, ∀ m c' log, v.2 c = ⟨.error (.noMatch m), c', log⟩ → c' = c ∧ log = [])
    (rules : List String) : (firstMatchOf rules (ofKinds vs) c).TooDeep ↔
      ∃ v ∈ vs, c.rule? = some v.1.rule ∧ (v.2 c).TooDeep := by
  by_cases hmatch : ∃ v ∈ vs, c.rule? = some v.1.rule
  · obtain ⟨v, hv, hrule⟩ := hmatch
    have hdecides : (∃ u ∈ vs, c.rule? = some u.1.rule ∧ (u.2 c).TooDeep) ↔ (v.2 c).TooDeep := by
      constructor
      · rintro ⟨u, hu, hrule', hdeep⟩
        rwa [← hvs.eq_of_rule?_eq hu hv hrule' hrule]
      · exact fun hdeep => ⟨v, hv, hrule, hdeep⟩
    rw [hdecides]
    by_cases hresult : ∃ m, (v.2 c).result = .error (.noMatch m)
    · rcases ho : v.2 c with ⟨result, c', log⟩
      rw [ho] at hresult
      obtain ⟨m, rfl⟩ := hresult
      obtain ⟨rfl, rfl⟩ := h v hv m c' log ho
      rw [firstMatchOf_of_refused hc (hvs.forall_refused hv hrule ho)]
      exact iff_of_false not_tooDeep_noMatch not_tooDeep_noMatch
    · rw [firstMatchOf_of_taken hvs hv hrule fun m hm => hresult ⟨m, hm⟩]
  · rw [firstMatchOf_of_ne hc hvs.selects fun v hv hrule => hmatch ⟨v, hv, hrule⟩]
    refine iff_of_false not_tooDeep_noMatch ?_
    rintro ⟨v, hv, hrule, -⟩
    exact hmatch ⟨v, hv, hrule⟩

/-- A choice is too deep exactly if what it is for exceeds the allowance, where its variants are. -/
theorem tooDeep_choice_iff (hk : k.variants? = some (vs.map (·.1))) (hvs : Separate vs)
    (hc : c.Before d (t :: ts)) (h : ∀ v ∈ vs, ∀ u us c, c.Before d (u :: us) →
      (∃ r, Agrees d True c (u :: us) us (v.2 c) r) ∧ (u.rule? = some v.1.rule →
        ((v.2 c).TooDeep ↔ a < k.share v.1 ∨ d.Exceeds (a - k.share v.1) v.1 u))) :
    (choice k.rule (ofKinds vs) c).TooDeep ↔ d.Exceeds a k t := by
  rw [Descent.exceeds_choice hk]
  by_cases ht : t.rule? = some k.rule
  case neg =>
    rw [choice_of_mismatch hc.ahead_ne_outside (by rwa [hc.rule?_cons])]
    exact iff_of_false not_tooDeep_noMatch fun h => ht h.1
  obtain ⟨i, hi, -, hr, hinside, -⟩ := hc.exists_item
  rw [tooDeep_choice_of_match hi (Option.some.inj (hr.symm.trans ht)), and_iff_right ht, firstMatch]
  cases hsub : t.subtrees with
  | nil =>
    rw [hsub] at hinside
    have hne : ∀ v ∈ vs, (c.inside i).rule? ≠ some v.1.rule := by
      intro v _ hrule
      rw [hinside.rule?_nil] at hrule
      cases hrule
    rw [firstMatchOf_of_ne hinside.ahead_ne_outside hvs.selects hne]
    refine iff_of_false not_tooDeep_noMatch ?_
    rintro ⟨u, others, hnil, -⟩
    cases hnil
  | cons u us =>
    rw [hsub] at hinside
    rw [tooDeep_firstMatchOf_iff hvs hinside.ahead_ne_outside, hinside.rule?_cons]
    · constructor
      · rintro ⟨v, hv, hu, hdeep⟩
        exact ⟨u, us, rfl, v.1, List.mem_map_of_mem hv, hu,
          ((h v hv u us _ hinside).2 hu).mp hdeep⟩
      · rintro ⟨_, _, ⟨rfl, rfl⟩, l, hl, hu, hexceeds⟩
        obtain ⟨v, hv, rfl⟩ := List.mem_map.mp hl
        exact ⟨v, hv, hu, ((h v hv u us _ hinside).2 hu).mpr hexceeds⟩
    · intro v hv m c' log ho
      obtain ⟨r, hr⟩ := (h v hv u us _ hinside).1
      rw [ho] at hr
      cases hr with
      | noMatch => exact ⟨rfl, rfl⟩
      | settled hr =>
        cases hr with
        | failure he => exact absurd rfl (he m)

/-! ### Expressions -/

/-- Under the allowance the builder of expressions is too deep where the descent exceeds it. -/
def ExpressionExceeds (d : Descent) (a : Nat) : Prop :=
  ∀ ⦃t : Tree⦄ ⦃ts : List Tree⦄ ⦃c : Cursor⦄, c.Before d (t :: ts) →
    ((expression a c).TooDeep ↔ d.Exceeds a .expression t)

theorem exists_map_eq_ok_iff {part : Except Failure α} (g : α → Node) :
    (∃ n, part.map g = .ok n) ↔ ∃ x, part = .ok x := by
  simp only [map_eq_ok_iff]
  exact ⟨fun ⟨_, x, hx, _⟩ => ⟨x, hx⟩, fun ⟨x, hx⟩ => ⟨g x, x, hx, rfl⟩⟩

theorem tooDeep_expressions_iff (h : ExpressionExceeds d a) (hc : c.Before d ts) :
    (many (expression a) c).TooDeep ↔ ∃ before u behind, ts = before ++ u :: behind ∧
      (∀ w ∈ before, ∃ n, d.node .expression w = .ok n) ∧ d.Exceeds a .expression u := by
  simp only [Descent.node, exists_map_eq_ok_iff]
  exact tooDeep_many_iff (opens_expression a).declines
    (fun u us c hc => ⟨(agrees_expression hc).mono fun _ => trivial, h hc⟩) hc

theorem tooDeep_sequence_iff (hk : k.isSequence) (h : ∀ b < a, ExpressionExceeds d b)
    (hc : c.Before d (t :: ts)) : (sequence k (nested a) c).TooDeep ↔ d.Exceeds a k t := by
  have hitem : k.item? = some .expression := by cases k <;> first | rfl | cases hk
  have hshare : k.share .expression = sequenceCost := if_pos hk
  have hunder : sequence k (nested a) = _ := sequence_under k a expression
  rw [Descent.exceeds_items hitem, hshare, hunder]
  split
  case isTrue ha =>
    rw [or_iff_right (by omega)]
    refine tooDeep_tagged_iff (f := fun _ => many (expression (a - sequenceCost))) hc fun c hc => ?_
    exact tooDeep_expressions_iff (h _ (Nat.sub_lt_self (by decide) ha)) hc
  case isFalse ha =>
    by_cases ht : t.rule? = some k.rule
    · obtain ⟨i, hi, -, hr, -⟩ := hc.exists_item
      rw [allowed_none_of_match hi (Option.some.inj (hr.symm.trans ht))]
      exact iff_of_true rfl ⟨ht, .inl (by omega)⟩
    · rw [allowed_none_of_mismatch hc.ahead_ne_outside (by rwa [hc.rule?_cons])]
      exact iff_of_false not_tooDeep_noMatch fun h => ht h.1

theorem tooDeep_group_iff (h : ∀ b < a, ExpressionExceeds d b) (hc : c.Before d (t :: ts))
    (ht : t.rule? = some Kind.expression.rule) :
    (allowed Kind.expression.rule (nested a).group? c).TooDeep ↔
      a < groupCost ∨ d.Exceeds (a - groupCost) .expression t := by
  rw [nested_group?]
  split
  case isTrue ha =>
    rw [or_iff_right (by omega)]
    exact h _ (Nat.sub_lt_self (by decide) ha) hc
  case isFalse ha =>
    obtain ⟨i, hi, -, hr, -⟩ := hc.exists_item
    rw [allowed_none_of_match hi (Option.some.inj (hr.symm.trans ht))]
    exact iff_of_true rfl (.inl (by omega))

theorem tooDeep_value_iff (h : ∀ b < a, ExpressionExceeds d b) (hc : c.Before d (t :: ts)) :
    (value (nested a) c).TooDeep ↔ d.Exceeds a .value t := by
  refine tooDeep_choice_iff (k := .value) rfl (separate_valueVariants (nested a)) hc ?_
  have hsettles : ∀ b < a, ExpressionSettles d b := fun b _ => settles_expression b
  have hplain {b : Builder Value} {l : Kind} {u : Tree} {c : Cursor} (hl : l.holdsExpressions = false)
      (hshare : Kind.value.share l = 0) (hb : ¬(b c).TooDeep) : (b c).TooDeep ↔
        a < Kind.value.share l ∨ d.Exceeds (a - Kind.value.share l) l u := by
    rw [Descent.exceeds_of_share hshare]
    exact iff_of_false hb (Descent.not_exceeds hl)
  have hbrackets {l : Kind} {u : Tree} {us : List Tree} {c : Cursor} (hl : l.isSequence)
      (hshare : Kind.value.share l = 0) (hc : c.Before d (u :: us)) (g : List Expression → Value) :
      ((g <$> sequence l (nested a)) c).TooDeep ↔
        a < Kind.value.share l ∨ d.Exceeds (a - Kind.value.share l) l u := by
    rw [Descent.exceeds_of_share hshare, tooDeep_map_iff]
    exact tooDeep_sequence_iff hl h hc
  simp only [valueVariants, List.forall_mem_cons, List.not_mem_nil, false_implies, implies_true,
    and_true]
  refine ⟨fun u us c hc => ⟨⟨_, agrees_map (agrees_primitive hc) _⟩, fun _ => ?_⟩,
    fun u us c hc => ⟨⟨_, agrees_map (agrees_string hc) _⟩, fun _ => ?_⟩,
    fun u us c hc => ⟨⟨_, (agrees_map (agrees_brackets (.inl rfl) hsettles hc) _).mono
      fun _ => trivial⟩, fun _ => hbrackets rfl rfl hc _⟩,
    fun u us c hc => ⟨⟨_, (agrees_map (agrees_brackets (.inr rfl) hsettles hc) _).mono
      fun _ => trivial⟩, fun _ => hbrackets rfl rfl hc _⟩⟩
  · exact hplain rfl rfl (not_tooDeep_map (not_tooDeep_primitive c) _)
  · exact hplain rfl rfl (not_tooDeep_map (not_tooDeep_leaf .string _ c) _)

theorem tooDeep_term_iff (h : ∀ b < a, ExpressionExceeds d b) (hc : c.Before d (t :: ts)) :
    (term (nested a) c).TooDeep ↔ d.Exceeds a .term t := by
  refine tooDeep_choice_iff (k := .term) rfl (separate_termVariants a) hc ?_
  have hsettles : ∀ b < a, ExpressionSettles d b := fun b _ => settles_expression b
  simp only [termVariants, List.forall_mem_cons, List.not_mem_nil, false_implies, implies_true,
    and_true]
  refine ⟨fun u us c hc => ⟨⟨_, (agrees_map (agrees_value hsettles hc) _).mono
      fun _ => trivial⟩, fun _ => ?_⟩,
    fun u us c hc => ⟨⟨_, agrees_map (agrees_group hsettles hc fun _ _ => trivial) _⟩,
      fun hu => ?_⟩⟩
  · rw [Descent.exceeds_of_share rfl, tooDeep_map_iff]
    exact tooDeep_value_iff h hc
  · rw [tooDeep_map_iff]
    exact tooDeep_group_iff h hc hu

theorem tooDeep_last_iff (h : ∀ b < a, ExpressionExceeds d b) (hc : c.Before d ts)
    (g : Term → Expression) :
    ((required site what (term (nested a)) >>= fun x => pure (g x)) c).TooDeep ↔
      ∃ r others, ts = r :: others ∧ d.Exceeds a .term r := by
  rw [bind_pure_eq_map, tooDeep_map_iff, tooDeep_required_iff]
  cases ts with
  | nil =>
    rw [(opens_term _).declines c hc.ahead_ne_outside (by rw [hc.rule?_nil]; nofun)]
    refine iff_of_false not_tooDeep_noMatch ?_
    rintro ⟨r, others, hnil, -⟩
    cases hnil
  | cons r others =>
    rw [tooDeep_term_iff h hc]
    constructor
    · exact fun hr => ⟨r, others, rfl, hr⟩
    · rintro ⟨_, _, ⟨rfl, rfl⟩, hr⟩
      exact hr

theorem tooDeep_behind_iff (h : ∀ b < a, ExpressionExceeds d b) (hc : c.Before d ts)
    {f : Option Operator → Builder Expression} (hnone : ∀ c, ¬(f none c).TooDeep)
    {g : Operator → Term → Expression} (hsome : ∀ op, f (some op) =
      required site what (term (nested a)) >>= fun x => pure (g op x)) :
    ((optional operator >>= f) c).TooDeep ↔ ∃ o r others op, ts = o :: r :: others ∧
      d.operator o = .ok op ∧ d.Exceeds a .term r := by
  cases ts with
  | nil =>
    refine iff_of_false (not_tooDeep_optional_bind opens_operator.declines hc hnone) ?_
    rintro ⟨o, r, others, op, hnil, -⟩
    cases hnil
  | cons o rest =>
    rw [tooDeep_optional_bind_iff (q := fun _ => ∃ r others, rest = r :: others ∧
      d.Exceeds a .term r) (agrees_operator hc) (not_tooDeep_operator c) hnone
      fun op c _ hc => by rw [hsome]; exact tooDeep_last_iff h hc (g op)]
    constructor
    · rintro ⟨op, hop, r, others, rfl, hr⟩
      exact ⟨o, r, others, op, rfl, hop, hr⟩
    · rintro ⟨_, r, others, op, ⟨rfl, rfl⟩, hop, hr⟩
      exact ⟨op, hop, r, others, rfl, hr⟩

/-- **Expressions.** Under every allowance the builder of expressions is too deep exactly where the
descent exceeds it. -/
theorem tooDeep_expression_iff (a : Nat) : ExpressionExceeds d a := by
  induction a using Nat.strongRecOn with
  | ind a ih =>
    intro t ts c hc
    have hsettles : ∀ b < a, ExpressionSettles d b := fun b _ => settles_expression b
    rw [expression_eq, Descent.exceeds_expression]
    refine tooDeep_tagged_iff hc fun c hc => ?_
    cases hsub : t.subtrees with
    | nil =>
      rw [hsub] at hc
      refine iff_of_false (not_tooDeep_required_bind (opens_term _).declines hc _) ?_
      rintro (⟨l, others, hnil, -⟩ | ⟨l, o, r, others, x, op, hnil, -⟩) <;> cases hnil
    | cons l rest =>
      rw [hsub] at hc
      rw [tooDeep_required_bind_iff (agrees_term hsettles hc) fun x c _ hc =>
        tooDeep_behind_iff ih hc (fun _ => not_tooDeep_ok) fun _ => rfl, tooDeep_term_iff ih hc]
      refine or_congr ⟨fun hl => ⟨l, rest, rfl, hl⟩, ?_⟩ ⟨?_, ?_⟩
      · rintro ⟨_, _, ⟨rfl, rfl⟩, hl⟩
        exact hl
      · rintro ⟨x, hx, o, r, others, op, rfl, hop, hr⟩
        exact ⟨l, o, r, others, x, op, rfl, hx, hop, hr⟩
      · rintro ⟨_, o, r, others, x, op, ⟨rfl, rfl⟩, hx, hop, hr⟩
        exact ⟨x, hx, o, r, others, op, rfl, hop, hr⟩

/-! ### Statements, programs and all kinds -/

theorem tooDeep_statement_iff (hc : c.Before d (t :: ts)) :
    (statement a c).TooDeep ↔ d.Exceeds a .statement t := by
  have hshare : Kind.statement.share .expression = 0 := rfl
  rw [Descent.exceeds_items rfl, hshare, Nat.sub_zero, or_iff_right (Nat.not_lt_zero a), statement]
  refine tooDeep_tagged_iff hc fun c hc => ?_
  rw [bind_pure_eq_map, tooDeep_map_iff]
  exact tooDeep_expressions_iff (tooDeep_expression_iff a) hc

theorem tooDeep_program_iff (hc : c.Before d (t :: ts)) :
    (program a c).TooDeep ↔ d.Exceeds a .program t := by
  have hshare : Kind.program.share .statement = 0 := rfl
  rw [Descent.exceeds_items rfl, hshare, Nat.sub_zero, or_iff_right (Nat.not_lt_zero a), program]
  refine tooDeep_tagged_iff hc fun c hc => ?_
  rw [tooDeep_map_iff]
  simp only [Descent.node, exists_map_eq_ok_iff]
  exact tooDeep_many_iff (opens_statement a).declines (fun u us c hc =>
    ⟨(agrees_statement hc).mono fun _ => trivial, tooDeep_statement_iff hc⟩) hc

theorem tooDeep_params_iff (hc : c.Before d [t]) :
    (many (expression a) c).TooDeep ↔ d.Exceeds a .params t := by
  rw [tooDeep_expressions_iff (tooDeep_expression_iff a) hc, Descent.exceeds_params]
  constructor
  · rintro ⟨before, u, behind, heq, -, hu⟩
    cases before with
    | nil =>
      cases heq
      exact hu
    | cons w before => cases before <;> cases heq
  · exact fun ht => ⟨[], t, [], rfl, nofun, ht⟩

/-- **All kinds.** Before a single node the builder of a kind is too deep exactly where the descent
meets a bracket that the allowance does not suffice for. -/
theorem tooDeep_node_iff (hc : c.Before d [t]) (a : Nat) (k : Kind) :
    (node a k c).TooDeep ↔ d.Exceeds a k t := by
  have hitems : ∀ b < a, ExpressionExceeds d b := fun b _ => tooDeep_expression_iff b
  cases hk : k.holdsExpressions with
  | false => exact iff_of_false (not_tooDeep_node hk a c) (Descent.not_exceeds hk)
  | true =>
    cases k with
    | program => exact (tooDeep_map_iff _).trans (tooDeep_program_iff hc)
    | statement => exact (tooDeep_map_iff _).trans (tooDeep_statement_iff hc)
    | expression => exact (tooDeep_map_iff _).trans (tooDeep_expression_iff a hc)
    | params => exact (tooDeep_map_iff _).trans (tooDeep_params_iff hc)
    | array => exact (tooDeep_map_iff _).trans (tooDeep_sequence_iff rfl hitems hc)
    | tuple => exact (tooDeep_map_iff _).trans (tooDeep_sequence_iff rfl hitems hc)
    | anySequence => exact (tooDeep_map_iff _).trans (tooDeep_sequence_iff rfl hitems hc)
    | term => exact (tooDeep_map_iff _).trans (tooDeep_term_iff hitems hc)
    | value => exact (tooDeep_map_iff _).trans (tooDeep_value_iff hitems hc)
    | _ => cases hk

end Builder

end RuleTree
