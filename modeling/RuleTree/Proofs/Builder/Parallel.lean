import RuleTree.Proofs.Builder.Refusal

/-!
# Two runs side by side

A builder is run twice from one place, in circumstances that differ: the variants of choices are
tried in another order, or more is left of the nesting allowance. Both runs take the same steps, from
any cursor whatever. What the circumstances may change is a `Leeway`.

* `Parallel`: the outcomes of what runs inside a node.
* `Comparable`: the outcomes of builders, which may both not match.
* `Alike`: builders for one rule that are compared from any cursor.
* `alike_tagged`, `alike_choice` and so on: one lemma for each way to put builders together.
-/

namespace RuleTree

/-- Whether a builder breaks off with the failure for good. What a conversion reports of the root is
no failure of a builder. -/
def Failure.isBreak : Failure → Bool
  | noMatch _ => false
  | fatal ⟨_, .rootMismatch _ _⟩ => false
  | fatal ⟨_, .rootTooDeep _⟩ => false
  | _ => true

theorem Failure.error_ne_noMatch {α : Type} {e : Failure} (he : e.isBreak) (m : Mismatch) :
    (.error e : Except Failure α) ≠ .error (.noMatch m) := by
  rintro ⟨⟩
  cases he

/-- What may be different in the second of two runs. -/
structure Leeway where
  /-- How the rules that the first run expected may be listed by the second. -/
  expected : List String → List String → Prop
  expected_refl : ∀ rules, expected rules rules
  /-- Whether the first run may use up its allowance where the second one does not. -/
  deeper : Prop

/-- The second run may have the allowance `a'` where the first one has `a`. -/
def Leeway.Allows (w : Leeway) (a a' : Nat) : Prop := a' = a ∨ w.deeper ∧ a ≤ a'

theorem Leeway.Allows.sub {w : Leeway} {a a' : Nat} (h : w.Allows a a') (cost : Nat) :
    w.Allows (a - cost) (a' - cost) := by
  rcases h with rfl | ⟨hw, hle⟩
  · exact .inl rfl
  · exact .inr ⟨hw, Nat.sub_le_sub_right hle cost⟩

namespace Builder

variable {α β : Type} {w : Leeway} {b b' : Builder α} {c : Cursor} {o o' : Outcome α}
  {rule : String} {site : Site}

/-- Inside a node both runs have the same outcome, unless the first has used up its allowance. -/
inductive Parallel {α : Type} (w : Leeway) : Outcome α → Outcome α → Prop
  | value {a : α} {c : Cursor} {log : List Site} : Parallel w ⟨.ok a, c, log⟩ ⟨.ok a, c, log⟩
  | failure {e : Failure} {c : Cursor} {log : List Site} : e.isBreak →
      Parallel w ⟨.error e, c, log⟩ ⟨.error e, c, log⟩
  | tooDeep {c : Cursor} {log : List Site} {o : Outcome α} : w.deeper →
      Parallel w ⟨.error .tooDeep, c, log⟩ o

/-- From `c` both runs have the same outcome, or neither matches and neither has done anything. -/
inductive Comparable {α : Type} (w : Leeway) (c : Cursor) : Outcome α → Outcome α → Prop
  | settled {o o' : Outcome α} : Parallel w o o' → Comparable w c o o'
  | noMatch {expected expected' : List String} {found : Option String} :
      w.expected expected expected' →
      Comparable w c ⟨.error (.noMatch ⟨expected, found⟩), c, []⟩
        ⟨.error (.noMatch ⟨expected', found⟩), c, []⟩

/-! ### Inside a node -/

theorem parallel_self (h : ∀ e, o.result = .error e → e.isBreak) : Parallel w o o := by
  obtain ⟨result, c, log⟩ := o
  cases result with
  | ok a => exact .value
  | error e => exact .failure (h e rfl)

theorem parallel_pure (a : α) : Parallel w ((pure a : Builder α) c) ((pure a : Builder α) c) :=
  .value

theorem Parallel.after (h : Parallel w o o') (log : List Site) :
    Parallel w (o.after log) (o'.after log) := by
  cases h with
  | value => exact .value
  | failure he => exact .failure he
  | tooDeep hw => exact .tooDeep hw

theorem parallel_bind (hb : Parallel w (b c) (b' c)) {f f' : α → Builder β}
    (hf : ∀ a c, Parallel w (f a c) (f' a c)) : Parallel w ((b >>= f) c) ((b' >>= f') c) := by
  generalize ho : b c = o at hb
  generalize ho' : b' c = o' at hb
  cases hb with
  | value =>
    rw [bind_of_ok ho, bind_of_ok ho']
    exact (hf _ _).after _
  | failure he =>
    rw [bind_of_error ho, bind_of_error ho']
    exact .failure he
  | tooDeep hw =>
    rw [bind_of_error ho]
    exact .tooDeep hw

theorem parallel_map (hb : Parallel w (b c) (b' c)) (f : α → β) :
    Parallel w ((f <$> b) c) ((f <$> b') c) := by
  generalize ho : b c = o at hb
  generalize ho' : b' c = o' at hb
  cases hb with
  | value =>
    rw [map_of_eq ho, map_of_eq ho']
    exact .value
  | failure he =>
    rw [map_of_eq ho, map_of_eq ho']
    exact .failure he
  | tooDeep hw =>
    rw [map_of_eq ho]
    exact .tooDeep hw

theorem Comparable.map (hb : Comparable w c (b c) (b' c)) (f : α → β) :
    Comparable w c ((f <$> b) c) ((f <$> b') c) := by
  generalize ho : b c = o at hb
  generalize ho' : b' c = o' at hb
  cases hb with
  | settled h =>
    subst ho ho'
    exact .settled (parallel_map h f)
  | noMatch hw =>
    rw [map_of_eq ho, map_of_eq ho']
    exact .noMatch hw

theorem Comparable.recover (hb : Comparable w c (b c) (b' c)) {next next' : Option String → Builder α}
    (hnext : ∀ found, Parallel w (next found c) (next' found c)) :
    Parallel w (recover b next c) (recover b' next' c) := by
  generalize ho : b c = o at hb
  generalize ho' : b' c = o' at hb
  cases hb with
  | noMatch =>
    rw [recover_of_noMatch ho, recover_of_noMatch ho']
    exact (hnext _).after []
  | settled h =>
    cases h with
    | value =>
      rw [recover_of_ne ho nofun, recover_of_ne ho' nofun]
      exact .value
    | failure he =>
      rw [recover_of_ne ho (Failure.error_ne_noMatch he),
        recover_of_ne ho' (Failure.error_ne_noMatch he)]
      exact .failure he
    | tooDeep hw =>
      rw [recover_of_ne ho nofun]
      exact .tooDeep hw

theorem parallel_required (hb : Comparable w c (b c) (b' c)) (parent : Site) (what : String) :
    Parallel w (required parent what b c) (required parent what b' c) :=
  hb.recover fun _ => .failure rfl

theorem parallel_optional (hb : Comparable w c (b c) (b' c)) :
    Parallel w (optional b c) (optional b' c) :=
  (hb.map some).recover fun _ => parallel_pure none

theorem parallel_atMost (hb : ∀ c, Comparable w c (b c) (b' c)) (n : Nat) (c : Cursor) :
    Parallel w (atMost b n c) (atMost b' n c) := by
  induction n generalizing c with
  | zero => exact parallel_pure []
  | succ n ih =>
    refine parallel_bind (parallel_optional (hb c)) fun a? c => ?_
    cases a? with
    | none => exact parallel_pure []
    | some a => exact parallel_map (ih c) _

theorem parallel_many (hb : ∀ c, Comparable w c (b c) (b' c)) (c : Cursor) :
    Parallel w (many b c) (many b' c) :=
  parallel_atMost hb _ c

theorem parallel_decode (site : Site) (decoder : String → Except Fault α) (c : Cursor) :
    Parallel w (decode site decoder c) (decode site decoder c) := by
  unfold decode
  cases decoder site.text with
  | ok a => exact .value
  | error fault => cases fault <;> exact .failure rfl

theorem Parallel.closing_cases (h : Parallel w o o') (site : Site) :
    (w.deeper ∧ closing site o = .error .tooDeep) ∨
      (o' = o ∧ ∀ e, closing site o = .error e → e.isBreak) := by
  cases h with
  | tooDeep hw => exact .inl ⟨hw, rfl⟩
  | failure he =>
    refine .inr ⟨rfl, ?_⟩
    rintro e ⟨⟩
    exact he
  | @value a c log =>
    refine .inr ⟨rfl, fun e hclosing => ?_⟩
    simp only [closing, Except.bind, finish] at hclosing
    cases hahead : c.ahead <;> rw [hahead] at hclosing <;> cases hclosing <;> rfl

theorem comparable_refusal {rules rules' : List String} (hw : w.expected rules rules')
    (c : Cursor) : Comparable (α := α) w c ⟨.error (refusal rules c), c, []⟩
      ⟨.error (refusal rules' c), c, []⟩ := by
  by_cases hc : c.ahead = .outside
  · rw [refusal_of_outside hc, refusal_of_outside hc]
    exact .settled (.failure rfl)
  · rw [refusal_of_ne hc, refusal_of_ne hc]
    exact .noMatch hw

/-! ### Nodes -/

/-- Two builders for nodes with a rule, which are compared from any cursor. -/
structure Alike {α : Type} (w : Leeway) (rule : String) (b b' : Builder α) : Prop where
  opens : Opens rule b
  opens' : Opens rule b'
  comparable : ∀ c, Comparable w c (b c) (b' c)

theorem alike_of_opens (hb : Opens rule b) (hb' : Opens rule b')
    (h : ∀ c i, c.peek? = some i → i.rule = rule → Comparable w c (b c) (b' c)) :
    Alike w rule b b' := by
  refine ⟨hb, hb', fun c => ?_⟩
  by_cases hrule : c.rule? = some rule
  · obtain ⟨i, hi, hr⟩ := exists_peek? hrule
    exact h c i hi hr
  · rw [hb c hrule, hb' c hrule]
    exact comparable_refusal (w.expected_refl _) c

theorem Alike.map (h : Alike w rule b b') (f : α → β) : Alike w rule (f <$> b) (f <$> b') :=
  ⟨h.opens.map f, h.opens'.map f, fun c => (h.comparable c).map f⟩

theorem alike_tagged {f f' : Site → Builder α}
    (hf : ∀ site c, Parallel w (f site c) (f' site c)) :
    Alike w rule (tagged rule f) (tagged rule f') := by
  refine alike_of_opens (opens_tagged _ _) (opens_tagged _ _) fun c i hi hr => ?_
  rw [tagged_of_match hi hr, tagged_of_match hi hr]
  rcases (hf i.entry.site (c.inside i)).closing_cases i.entry.site with
    ⟨hw, hdeep⟩ | ⟨heq, hbreak⟩
  · rw [hdeep]
    exact .settled (.tooDeep hw)
  · rw [heq]
    exact .settled (parallel_self hbreak)

theorem alike_allowed (f f' : Nat → Builder α) (hf' : ∀ a, Opens rule (f' a)) {a a' cost : Nat}
    (hw : w.Allows a a')
    (h : cost ≤ a → Alike w rule (f (a - cost)) (f' (a' - cost))) :
    Alike w rule (allowed rule (if cost ≤ a then some (f (a - cost)) else none))
      (allowed rule (if cost ≤ a' then some (f' (a' - cost)) else none)) := by
  by_cases ha : cost ≤ a
  · have ha' : cost ≤ a' := by
      rcases hw with rfl | ⟨-, hle⟩
      · exact ha
      · exact Nat.le_trans ha hle
    rw [if_pos ha, if_pos ha']
    exact h ha
  rw [if_neg ha]
  have hnone : Opens (α := α) rule (allowed rule none) := opens_allowed nofun
  have hsome : Opens rule (allowed rule (if cost ≤ a' then some (f' (a' - cost)) else none)) := by
    refine opens_allowed fun b hb => ?_
    rw [Option.ite_none_right_eq_some] at hb
    exact Option.some.inj hb.2 ▸ hf' _
  refine alike_of_opens hnone hsome fun c i hi hr => ?_
  rw [allowed_none_of_match hi hr]
  rcases hw with rfl | ⟨hw, -⟩
  · rw [if_neg ha, allowed_none_of_match hi hr]
    exact .settled (.failure rfl)
  · exact .settled (.tooDeep hw)

/-! ### Choices -/

variable {vs vs' : List (Kind × Builder α)}

/-- The order of the variants makes no difference: the one that is for the rule of the next sibling
decides, wherever it is listed. -/
theorem comparable_firstMatchOf (hvs : Apart vs) (hvs' : Apart vs')
    (h : ∀ v ∈ vs, ∃ v' ∈ vs', v'.1 = v.1 ∧ Comparable w c (v.2 c) (v'.2 c))
    (h' : ∀ v' ∈ vs', ∃ v ∈ vs, v.1 = v'.1) {rules rules' : List String}
    (hw : w.expected rules rules') :
    Comparable w c (firstMatchOf rules (ofKinds vs) c) (firstMatchOf rules' (ofKinds vs') c) := by
  by_cases hc : c.ahead = .outside
  · rw [firstMatchOf_of_outside hvs hc, firstMatchOf_of_outside hvs' hc]
    exact .settled (.failure rfl)
  by_cases hmatch : ∃ v ∈ vs, c.rule? = some v.1.rule
  · obtain ⟨v, hv, hrule⟩ := hmatch
    obtain ⟨v', hv', hkind, hcomparable⟩ := h v hv
    have hrule' : c.rule? = some v'.1.rule := by rw [hkind, hrule]
    generalize ho : v.2 c = o at hcomparable
    generalize ho' : v'.2 c = o' at hcomparable
    have htaken (hne : ∀ m, o.result ≠ .error (.noMatch m)) :
        firstMatchOf rules (ofKinds vs) c = o :=
      (firstMatchOf_of_taken hvs.separate hv hrule (by rwa [ho]) rules).trans ho
    have htaken' (hne : ∀ m, o'.result ≠ .error (.noMatch m)) :
        firstMatchOf rules' (ofKinds vs') c = o' :=
      (firstMatchOf_of_taken hvs'.separate hv' hrule' (by rwa [ho']) rules').trans ho'
    cases hcomparable with
    | noMatch =>
      rw [firstMatchOf_of_refused hc (hvs.separate.forall_refused hv hrule ho),
        firstMatchOf_of_refused hc (hvs'.separate.forall_refused hv' hrule' ho')]
      exact .noMatch hw
    | settled hparallel =>
      cases hparallel with
      | value =>
        rw [htaken nofun, htaken' nofun]
        exact .settled .value
      | failure he =>
        rw [htaken (Failure.error_ne_noMatch he), htaken' (Failure.error_ne_noMatch he)]
        exact .settled (.failure he)
      | tooDeep hw =>
        rw [htaken nofun]
        exact .settled (.tooDeep hw)
  · have hother : ∀ v ∈ vs, c.rule? ≠ some v.1.rule := fun v hv hrule => hmatch ⟨v, hv, hrule⟩
    have hother' : ∀ v' ∈ vs', c.rule? ≠ some v'.1.rule := by
      intro v' hv'
      obtain ⟨v, hv, hkind⟩ := h' v' hv'
      rw [← hkind]
      exact hother v hv
    rw [firstMatchOf_of_ne hc hvs.separate.selects hother,
      firstMatchOf_of_ne hc hvs'.separate.selects hother']
    exact .noMatch hw

theorem alike_choice (hvs : Apart vs) (hvs' : Apart vs')
    (h : ∀ v ∈ vs, ∃ v' ∈ vs', v'.1 = v.1 ∧ Alike w v.1.rule v.2 v'.2)
    (h' : ∀ v' ∈ vs', ∃ v ∈ vs, v.1 = v'.1)
    (hw : w.expected (vs.map (·.1.rule)) (vs'.map (·.1.rule))) :
    Alike w rule (choice rule (ofKinds vs)) (choice rule (ofKinds vs')) := by
  refine alike_of_opens (opens_choice _ _) (opens_choice _ _) fun c i hi hr => ?_
  have hrules (us : List (Kind × Builder α)) : (ofKinds us).map (·.1) = us.map (·.1.rule) := by
    rw [ofKinds, List.map_map]
    rfl
  have hfirst : Comparable w (c.inside i) (firstMatch (ofKinds vs) (c.inside i))
      (firstMatch (ofKinds vs') (c.inside i)) := by
    rw [firstMatch, firstMatch, hrules, hrules]
    refine comparable_firstMatchOf hvs hvs' (fun v hv => ?_) h' hw
    obtain ⟨v', hv', hkind, halike⟩ := h v hv
    exact ⟨v', hv', hkind, halike.comparable _⟩
  generalize ho : firstMatch (ofKinds vs) (c.inside i) = o at hfirst
  generalize ho' : firstMatch (ofKinds vs') (c.inside i) = o' at hfirst
  cases hfirst with
  | noMatch hw =>
    rw [choice_of_error hi hr (by rw [ho]; rfl), choice_of_error hi hr (by rw [ho']; rfl), ho, ho']
    exact .noMatch hw
  | settled h =>
    refine .settled ?_
    rcases h.closing_cases i.entry.site with ⟨hw, hdeep⟩ | ⟨rfl, hbreak⟩
    · rw [choice_of_error hi hr (by rw [ho, hdeep])]
      exact .tooDeep hw
    · cases hclosing : closing i.entry.site o' with
      | ok a =>
        rw [choice_of_ok hi hr (by rw [ho, hclosing]), choice_of_ok hi hr (by rw [ho', hclosing]),
          ho, ho']
        exact .value
      | error e =>
        rw [choice_of_error hi hr (by rw [ho, hclosing]),
          choice_of_error hi hr (by rw [ho', hclosing]), ho, ho']
        exact .failure (hbreak e hclosing)

end Builder

end RuleTree
