import RuleTree.Proofs.Builder.Protocol
import RuleTree.Proofs.Builder.Trials
import RuleTree.Proofs.Tree.Descent

/-!
# Builders agree with the descent

A builder on a queue and the descent through the tree of the queue have the same result, up to the
nesting allowance. The nodes that the builder goes past are those of the tree in a fixed order.

* `Tree.passed`: that order, in which choices come after what is below them.
* `Cursor.Before`: which nodes of a tree are still ahead of a cursor.
* `Builder.Settles`, `Builder.Agrees`: an outcome has a result of the descent.
* `Builder.Closes`: so it has, once all nodes at its level have to be used.
* `Builder.settles_tagged`, `Builder.agrees_choice`, `Builder.closes_many`: the ways to put builders
  together.
* `Builder.settles_expression`: the recursion.
-/

namespace RuleTree

/-! ### Where a cursor stands -/

/-- Whether the nodes with a rule are gone past after what is below them. -/
def Kind.isLate (rule : String) : Bool := Kind.all.any fun k => k.isChoice && k.rule == rule

namespace Tree

mutual

/-- The nodes of a tree in the order in which builders go past them. -/
def passed (source : Option (Array Char)) : Tree → List Site
  | token _ => []
  | node rule region? children =>
    if Kind.isLate rule then passedOf source children ++ [site source rule region? children]
    else site source rule region? children :: passedOf source children

def passedOf (source : Option (Array Char)) : List Tree → List Site
  | [] => []
  | t :: ts => t.passed source ++ passedOf source ts

end

variable {source : Option (Array Char)}

theorem passedOf_filter_isNode (ts : List Tree) :
    passedOf source (ts.filter isNode) = passedOf source ts := by
  induction ts with
  | nil => rfl
  | cons t ts ih =>
    cases t with
    | token leaf => exact ih
    | node rule region? children =>
      rw [List.filter_cons_of_pos rfl, passedOf, passedOf, ih]

theorem branchesOf_filter_isNode (ts : List Tree) :
    branchesOf source (ts.filter isNode) = branchesOf source ts := by
  induction ts with
  | nil => rfl
  | cons t ts ih =>
    cases t with
    | token leaf => exact ih
    | node rule region? children =>
      rw [List.filter_cons_of_pos rfl, branchesOf, branchesOf, ih]

theorem passed_of_rule? {t : Tree} {rule : String} (h : t.rule? = some rule)
    (d : Descent) : t.passed d.source =
      if Kind.isLate rule then passedOf d.source t.subtrees ++ [d.site t]
      else d.site t :: passedOf d.source t.subtrees := by
  cases t with
  | token leaf => cases h
  | node rule' region? children =>
    cases h
    rw [passed, subtrees, passedOf_filter_isNode]
    rfl

end Tree

/-- The nodes `ts` of the tree of a descent are those ahead of the cursor. -/
structure Cursor.Before (c : Cursor) (d : Descent) (ts : List Tree) : Prop where
  nodes : ∀ t ∈ ts, t.isNode
  stands : c.At d.settings (Tree.branchesOf d.source ts)

namespace Cursor.Before

variable {c : Cursor} {d : Descent} {t : Tree} {ts : List Tree}

theorem ahead_ne_outside (h : c.Before d ts) : c.ahead ≠ .outside :=
  h.stands.segment.ahead_ne_outside

theorem ahead_nil (h : c.Before d []) : c.ahead = .ending := h.stands.segment.ahead_nil

theorem rule?_nil (h : c.Before d []) : c.rule? = none := h.stands.rule?

theorem exists_item (h : c.Before d (t :: ts)) :
    ∃ i, c.peek? = some i ∧ i.entry.site = d.site t ∧ t.rule? = some i.rule ∧
      (c.inside i).Before d t.subtrees ∧ (c.behind i).Before d ts := by
  obtain ⟨hnodes, hover⟩ := h
  obtain ⟨ht, hts⟩ := List.forall_mem_cons.mp hnodes
  cases t with
  | token leaf => cases ht
  | node rule region? children =>
    obtain ⟨i, hi, hsite, hinside, hbehind⟩ := hover.exists_item
    refine ⟨i, hi, hsite, ?_, ⟨?_, ?_⟩, hts, hbehind⟩
    · rw [Item.rule, hsite]
      rfl
    · intro u hu
      exact (List.mem_filter.mp hu).2
    · rw [Tree.subtrees, Tree.branchesOf_filter_isNode]
      exact hinside

theorem rule?_cons (h : c.Before d (t :: ts)) : c.rule? = t.rule? := by
  obtain ⟨i, hi, -, hrule, -⟩ := h.exists_item
  rw [Builder.rule?_of_peek? hi, hrule]

end Cursor.Before

theorem Cursor.before_ofTree (settings : Settings) (source : Option (Array Char)) {t : Tree}
    (ht : t.isNode) : (Cursor.ofTree settings source t).Before ⟨source, settings⟩ [t] := by
  refine ⟨by simpa using ht, ?_, rfl⟩
  rw [Tree.branchesOf, Tree.branchesOf, List.append_nil]
  exact Cursor.over_ofTree settings source t

namespace Builder

/-! ### Agreement -/

/-- Before the nodes `ts` the outcome has the result that the descent gives, and a value leaves the
cursor before `rest`; or the nesting is too deep, which it is only if `deep`. -/
inductive Settles {α : Type} (d : Descent) (deep : Prop) (c : Cursor) (ts rest : List Tree) :
    Outcome α → Except Failure α → Prop
  | value {a : α} {pos : Int} {log : List Site} : ({ c with pos := pos }).Before d rest →
      log ++ Tree.passedOf d.source rest = Tree.passedOf d.source ts →
      Settles d deep c ts rest ⟨.ok a, { c with pos := pos }, log⟩ (.ok a)
  | failure {e : Failure} {c' : Cursor} {log : List Site} : (∀ m, e ≠ .noMatch m) →
      log <+: Tree.passedOf d.source ts → Settles d deep c ts rest ⟨.error e, c', log⟩ (.error e)
  | tooDeep {c' : Cursor} {log : List Site} {r : Except Failure α} : deep →
      log <+: Tree.passedOf d.source ts → Settles d deep c ts rest ⟨.error .tooDeep, c', log⟩ r

/-- The outcome has the result that the descent gives, where both may decline what is ahead. -/
inductive Agrees {α : Type} (d : Descent) (deep : Prop) (c : Cursor) (ts rest : List Tree) :
    Outcome α → Except Failure α → Prop
  | settled {o : Outcome α} {r : Except Failure α} : Settles d deep c ts rest o r →
      Agrees d deep c ts rest o r
  | noMatch {m : Mismatch} :
    Agrees d deep c ts rest ⟨.error (.noMatch m), c, []⟩ (.error (.noMatch m))

/-- Inside a node at `site`, before the nodes `ts`, the outcome has the result that the descent
gives if no node may be left over. -/
inductive Closes {α : Type} (d : Descent) (deep : Prop) (site : Site) (ts : List Tree) :
    Outcome α → Except Failure α → Prop
  | value {a : α} {c : Cursor} : c.Before d [] →
      Closes d deep site ts ⟨.ok a, c, Tree.passedOf d.source ts⟩ (.ok a)
  | failure {o : Outcome α} {e : Failure} : closing site o = .error e → (∀ m, e ≠ .noMatch m) →
      o.log <+: Tree.passedOf d.source ts → Closes d deep site ts o (.error e)
  | tooDeep {c : Cursor} {log : List Site} {r : Except Failure α} : deep →
      log <+: Tree.passedOf d.source ts → Closes d deep site ts ⟨.error .tooDeep, c, log⟩ r

variable {α β : Type} {d : Descent} {deep deep' : Prop} {c : Cursor} {t : Tree}
  {ts mid rest : List Tree} {b : Builder α} {o : Outcome α} {r : Except Failure α} {site : Site}

theorem Settles.mono (h : Settles d deep c ts rest o r) (hdeep : deep → deep') :
    Settles d deep' c ts rest o r := by
  cases h with
  | value hc hlog => exact .value hc hlog
  | failure he hlog => exact .failure he hlog
  | tooDeep h hlog => exact .tooDeep (hdeep h) hlog

theorem Agrees.mono (h : Agrees d deep c ts rest o r) (hdeep : deep → deep') :
    Agrees d deep' c ts rest o r := by
  cases h with
  | settled h => exact .settled (h.mono hdeep)
  | noMatch => exact .noMatch

theorem Agrees.result_eq (h : Agrees d deep c ts rest o r) :
    o.result = r ∨ o.result = .error .tooDeep ∧ deep := by
  cases h with
  | noMatch => exact .inl rfl
  | settled h =>
    cases h with
    | value => exact .inl rfl
    | failure => exact .inl rfl
    | tooDeep h => exact .inr ⟨rfl, h⟩

theorem settles_pure (hc : c.Before d ts) (a : α) :
    Settles d deep c ts ts ((pure a : Builder α) c) (.ok a) := by
  show Settles d deep c ts ts ⟨.ok a, { c with pos := c.pos }, []⟩ (.ok a)
  exact .value hc rfl

theorem settles_map (h : Settles d deep c ts rest (b c) r) (f : α → β) :
    Settles d deep c ts rest ((f <$> b) c) (r.map f) := by
  generalize ho : b c = o at h
  cases h with
  | value hc hlog =>
    rw [map_of_eq ho]
    exact .value hc hlog
  | failure he hlog =>
    rw [map_of_eq ho]
    exact .failure he hlog
  | tooDeep h hlog =>
    rw [map_of_eq ho]
    exact .tooDeep h hlog

theorem agrees_map (h : Agrees d deep c ts rest (b c) r) (f : α → β) :
    Agrees d deep c ts rest ((f <$> b) c) (r.map f) := by
  generalize ho : b c = o at h
  cases h with
  | settled h =>
    subst ho
    exact .settled (settles_map h f)
  | noMatch =>
    rw [map_of_eq ho]
    exact .noMatch

theorem Settles.recover (h : Settles d deep c ts rest (b c) r)
    (next : Option String → Builder α) : Settles d deep c ts rest (recover b next c) r := by
  generalize ho : b c = o at h
  cases h with
  | value hc hlog =>
    rw [recover_of_ne ho nofun]
    exact .value hc hlog
  | failure he hlog =>
    rw [recover_of_ne ho fun m hm => he m (Except.error.inj hm)]
    exact .failure he hlog
  | tooDeep h hlog =>
    rw [recover_of_ne ho nofun]
    exact .tooDeep h hlog

theorem Settles.congr (h : Settles d deep c ts rest o r) {r' : Except Failure α}
    (hr : (∀ m, r ≠ .error (.noMatch m)) → r' = r) : Settles d deep c ts rest o r' := by
  cases h with
  | value hc hlog =>
    rw [hr nofun]
    exact .value hc hlog
  | failure he hlog =>
    rw [hr fun m hm => he m (Except.error.inj hm)]
    exact .failure he hlog
  | tooDeep h hlog => exact .tooDeep h hlog

theorem settles_required (h : Agrees d deep c ts rest (b c) r) (site : Site) (what : String) :
    Settles d deep c ts rest (required site what b c) (Descent.need site what r) := by
  generalize ho : b c = o at h
  cases h with
  | noMatch =>
    rw [required, recover_of_noMatch ho]
    exact .failure nofun List.nil_prefix
  | settled h =>
    subst ho
    exact (h.recover _).congr fun hr => Descent.need_of_ne hr site what

theorem settles_optional (h : Settles d deep c ts rest (b c) r) :
    Settles d deep c ts rest (optional b c) (r.map some) :=
  (settles_map h some).recover _

/-! ### Inside a node -/

theorem closing_of_ending {a : α} {log : List Site} (hc : c.ahead = .ending) :
    closing site ⟨.ok a, c, log⟩ = .ok a := by
  simp only [closing, Except.bind, finish, hc]
  rfl

theorem closes_of_settles (h : Settles d deep c ts rest o r) (site : Site) :
    Closes d deep site ts o (r.bind fun a => d.close site a rest) := by
  cases h with
  | failure he hlog => exact .failure rfl he hlog
  | tooDeep h hlog => exact .tooDeep h hlog
  | value hc hlog =>
    cases rest with
    | nil =>
      rw [Tree.passedOf, List.append_nil] at hlog
      subst hlog
      exact .value hc
    | cons extra rest =>
      refine .failure ?_ nofun ⟨_, hlog⟩
      obtain ⟨i, hi, hsite, -⟩ := hc.exists_item
      rw [← hsite]
      simp only [closing, Except.bind, finish, Cursor.peek?_eq_some_iff.mp hi]
      rfl

theorem closes_bind (hb : Settles d deep c ts mid (b c) r) {f : α → Builder β}
    {g : α → Except Failure β} (hf : ∀ a pos, r = .ok a → ({ c with pos := pos }).Before d mid →
      Closes d deep site mid (f a { c with pos := pos }) (g a)) :
    Closes d deep site ts ((b >>= f) c) (r.bind g) := by
  generalize ho : b c = o at hb
  cases hb with
  | failure he hlog =>
    rw [bind_of_error ho]
    exact .failure rfl he hlog
  | tooDeep h hlog =>
    rw [bind_of_error ho]
    exact .tooDeep h hlog
  | @value a pos log hc hlog =>
    rw [bind_of_ok ho]
    have hf := hf a pos rfl hc
    show Closes d deep site ts _ (g a)
    generalize f a _ = o' at hf
    generalize g a = r' at hf
    cases hf with
    | value hc' =>
      rw [Outcome.after, hlog]
      exact .value hc'
    | failure hclosing he hlog' =>
      refine .failure hclosing he ?_
      rw [← hlog]
      exact (List.prefix_append_right_inj log).mpr hlog'
    | tooDeep h hlog' =>
      refine .tooDeep h ?_
      rw [← hlog]
      exact (List.prefix_append_right_inj log).mpr hlog'

theorem closes_missing {rule : String} (hb : Declines rule b) (hc : c.Before d []) (site : Site)
    (what : String) (f : α → Builder β) :
    Closes d deep site [] ((required site what b >>= f) c)
      (Descent.reject site (.missingChild what none)) := by
  have hb := hb c hc.ahead_ne_outside (by rw [hc.rule?_nil]; nofun)
  have hrequired : required site what b c =
      ⟨.error (.fatal ⟨some site, .missingChild what none⟩), c, []⟩ := by
    rw [required, recover_of_noMatch hb, hc.rule?_nil]
    rfl
  rw [bind_of_error hrequired]
  exact .failure rfl nofun List.nil_prefix

theorem closes_absent {rule : String} (hb : Declines rule b) (hc : c.Before d [])
    {f : Option α → Builder β} {r : Except Failure β} (hnone : Closes d deep site [] (f none c) r) :
    Closes d deep site [] ((optional b >>= f) c) r := by
  have hb := hb c hc.ahead_ne_outside (by rw [hc.rule?_nil]; nofun)
  rw [bind_of_ok (optional_of_noMatch hb), Outcome.after_nil]
  exact hnone

theorem closes_optional (hb : Agrees d deep c ts rest (b c) r)
    {f : Option α → Builder β} {g : Option α → Except Failure β}
    (hnone : Closes d deep site ts (f none c) (g none))
    (hsome : ∀ a pos, ({ c with pos := pos }).Before d rest →
      Closes d deep site rest (f (some a) { c with pos := pos }) (g (some a))) :
    Closes d deep site ts ((optional b >>= f) c) ((Descent.maybe r).bind g) := by
  generalize ho : b c = o at hb
  cases hb with
  | noMatch =>
    rw [bind_of_ok (optional_of_noMatch ho), Outcome.after_nil]
    exact hnone
  | settled h =>
    cases h with
    | @value a pos log hend hlog =>
      have hoptional : Settles d deep c ts rest (optional b c) (.ok (some a)) := by
        rw [optional_of_ok ho]
        exact .value hend hlog
      refine closes_bind hoptional fun a? pos ha? hc => ?_
      cases ha?
      exact hsome a pos hc
    | failure he hlog =>
      rw [bind_of_error (optional_of_error ho he),
        Descent.maybe_of_ne fun m hm => he m (Except.error.inj hm)]
      exact .failure rfl he hlog
    | tooDeep h hlog =>
      rw [bind_of_error (optional_of_error ho nofun)]
      exact .tooDeep h hlog

theorem closes_map (hb : Closes d deep site ts (b c) r) (f : α → β) :
    Closes d deep site ts ((f <$> b) c) (r.map f) := by
  generalize ho : b c = o at hb
  cases hb with
  | value hc =>
    rw [map_of_eq ho]
    exact .value hc
  | tooDeep h hlog =>
    rw [map_of_eq ho]
    exact .tooDeep h hlog
  | @failure o e hclosing he hlog =>
    obtain ⟨result, c', log⟩ := o
    rw [map_of_eq ho]
    refine .failure ?_ he hlog
    cases result with
    | error e' =>
      cases hclosing
      rfl
    | ok a =>
      revert hclosing
      simp only [closing, Except.bind, Except.map]
      cases finish site c' with
      | ok u => intro h; cases h
      | error e' => exact fun h => by cases h; rfl

/-! ### Nodes -/

theorem passedOf_cons {rule : String} (ht : t.rule? = some rule) :
    Tree.passedOf d.source (t :: ts) =
      (if Kind.isLate rule then Tree.passedOf d.source t.subtrees ++ [d.site t]
        else d.site t :: Tree.passedOf d.source t.subtrees) ++ Tree.passedOf d.source ts := by
  rw [Tree.passedOf, Tree.passed_of_rule? ht]

theorem settles_tagged {rule : String} (hrule : Kind.isLate rule = false)
    (hc : c.Before d (t :: ts)) (ht : t.rule? = some rule) {f : Site → Builder α}
    (hf : ∀ c', c'.Before d t.subtrees →
      Closes d deep (d.site t) t.subtrees (f (d.site t) c') r) :
    Settles d deep c (t :: ts) ts (tagged rule f c) r := by
  obtain ⟨i, hi, hsite, hr, hinside, hbehind⟩ := hc.exists_item
  have hpassed : Tree.passedOf d.source (t :: ts) =
      d.site t :: (Tree.passedOf d.source t.subtrees ++ Tree.passedOf d.source ts) := by
    rw [passedOf_cons ht, hrule]
    rfl
  have hlog : ∀ {log}, log <+: Tree.passedOf d.source t.subtrees →
      d.site t :: log <+: Tree.passedOf d.source (t :: ts) := by
    intro log hlog
    rw [hpassed]
    exact (List.prefix_cons_inj _).mpr (hlog.trans (List.prefix_append _ _))
  rw [tagged_of_match hi (Option.some.inj (hr.symm.trans ht)), hsite]
  have hf := hf _ hinside
  generalize f (d.site t) (c.inside i) = o at hf
  cases hf with
  | value hend =>
    rw [closing_of_ending hend.ahead_nil]
    exact .value hbehind (by rw [hpassed]; rfl)
  | failure hclosing he hprefix =>
    rw [hclosing]
    exact .failure he (hlog hprefix)
  | tooDeep h hprefix => exact .tooDeep h (hlog hprefix)

theorem agrees_tagged {k : Kind} (hk : Kind.isLate k.rule = false) (hc : c.Before d (t :: ts))
    {f : Site → Builder α} (hf : t.rule? = some k.rule → ∀ c', c'.Before d t.subtrees →
      Closes d deep (d.site t) t.subtrees (f (d.site t) c') r) :
    Agrees d deep c (t :: ts) ts (tagged k.rule f c) (Descent.under k t r) := by
  unfold Descent.under
  split
  · rename_i ht
    exact .settled (settles_tagged hk hc ht (hf ht))
  · rename_i ht
    rw [tagged_of_mismatch hc.ahead_ne_outside (by rwa [hc.rule?_cons]), hc.rule?_cons]
    exact .noMatch

/-- What the variants of a choice and the descent make of the node ahead agrees, kind by kind. -/
inductive VariantsAgree {α : Type} (d : Descent) (deep : Prop) (c : Cursor) (t : Tree)
    (ts : List Tree) : List (Kind × Builder α) → List (Kind × Except Failure α) → Prop
  | nil : VariantsAgree d deep c t ts [] []
  | cons {k : Kind} {b : Builder α} {part : Except Failure α} {vs : List (Kind × Builder α)}
      {ws : List (Kind × Except Failure α)} : Agrees d deep c (t :: ts) ts (b c) part →
      VariantsAgree d deep c t ts vs ws →
        VariantsAgree d deep c t ts ((k, b) :: vs) ((k, part) :: ws)

theorem VariantsAgree.rules_eq {vs : List (Kind × Builder α)} {ws : List (Kind × Except Failure α)}
    (h : VariantsAgree d deep c t ts vs ws) : ws.map (·.1.rule) = vs.map (·.1.rule) := by
  induction h with
  | nil => rfl
  | cons _ _ ih => rw [List.map_cons, List.map_cons, ih]

theorem agrees_firstMatchOf {vs : List (Kind × Builder α)} {ws : List (Kind × Except Failure α)}
    (hc : c.Before d (t :: ts)) (hvs : Separate vs) (h : VariantsAgree d deep c t ts vs ws)
    (rules : List String) :
    Agrees d deep c (t :: ts) ts (firstMatchOf rules (ofKinds vs) c)
      (Descent.selectFrom rules t ws) := by
  induction h with
  | nil =>
    rw [firstMatchOf_of_ne hc.ahead_ne_outside hvs.selects (by simp), hc.rule?_cons]
    exact .noMatch
  | @cons k b part vs ws hagrees _ ih =>
    obtain ⟨hselects, hrest⟩ := List.forall_mem_cons.mp hvs.selects
    obtain ⟨hnew, hnodup⟩ := List.nodup_cons.mp hvs.nodup
    rw [ofKinds_cons, firstMatchOf, Descent.selectFrom]
    split
    · rename_i ht
      have hne : ∀ v ∈ vs, c.rule? ≠ some v.1.rule := by
        intro v hv heq
        rw [hc.rule?_cons, ht] at heq
        exact hnew (List.mem_map.mpr ⟨v, hv, (Option.some.inj heq).symm⟩)
      generalize ho : b c = o at hagrees
      cases hagrees with
      | noMatch =>
        rw [recover_of_noMatch ho, Outcome.after_nil,
          firstMatchOf_of_ne hc.ahead_ne_outside hrest hne, hc.rule?_cons]
        exact .noMatch
      | settled h =>
        subst ho
        exact .settled ((h.recover _).congr fun hr => Descent.declineAs_of_ne hr rules t.rule?)
    · rename_i ht
      obtain ⟨m, hm⟩ := hselects c hc.ahead_ne_outside (by rwa [hc.rule?_cons])
      rw [recover_of_noMatch hm, Outcome.after_nil]
      exact ih ⟨hrest, hnodup⟩

/-- A choice agrees with what the descent makes of the nodes below it: nothing of none, and what it
selects for the first of them if there are no others. -/
theorem agrees_choice {k : Kind} (hk : Kind.isLate k.rule = true) (hc : c.Before d (t :: ts))
    {vs : List (Kind × Builder α)} (hvs : Separate vs)
    (hnil : t.subtrees = [] → r = Descent.decline (vs.map (·.1.rule)) none)
    (hcons : t.rule? = some k.rule → ∀ first others, t.subtrees = first :: others →
      ∃ ws : List (Kind × Except Failure α),
      (r = (Descent.select first ws).bind fun a => d.close (d.site t) a others) ∧
      ∀ c', c'.Before d (first :: others) → VariantsAgree d deep c' first others vs ws) :
    Agrees d deep c (t :: ts) ts (choice k.rule (ofKinds vs) c) (Descent.under k t r) := by
  unfold Descent.under
  split
  case isFalse ht =>
    rw [choice_of_mismatch hc.ahead_ne_outside (by rwa [hc.rule?_cons]), hc.rule?_cons]
    exact .noMatch
  case isTrue ht =>
    obtain ⟨i, hi, hsite, hr, hinside, hbehind⟩ := hc.exists_item
    have hr : i.rule = k.rule := Option.some.inj (hr.symm.trans ht)
    have hrules : (ofKinds vs).map (·.1) = vs.map (·.1.rule) := by
      rw [ofKinds, List.map_map]
      rfl
    have hpassed : Tree.passedOf d.source (t :: ts) =
        Tree.passedOf d.source t.subtrees ++ d.site t :: Tree.passedOf d.source ts := by
      rw [passedOf_cons ht, hk, if_pos rfl, List.append_assoc]
      rfl
    cases hsub : t.subtrees with
    | nil =>
      rw [hsub] at hinside
      have hmismatch : firstMatch (ofKinds vs) (c.inside i)
          = ⟨.error (.noMatch ⟨vs.map (·.1.rule), none⟩), c.inside i, []⟩ := by
        rw [firstMatch, hrules, ← hinside.rule?_nil]
        refine firstMatchOf_of_ne hinside.ahead_ne_outside hvs.selects (fun v _ => ?_) _
        rw [hinside.rule?_nil]
        intro h
        cases h
      rw [choice_of_error hi hr (by rw [hmismatch]; rfl), hmismatch, hnil hsub]
      exact .noMatch
    | cons first others =>
      obtain ⟨ws, rfl, hws⟩ := hcons ht first others hsub
      rw [hsub] at hinside hpassed
      have hws := hws _ hinside
      have hselected : Agrees d deep (c.inside i) (first :: others) others
          (firstMatch (ofKinds vs) (c.inside i)) (Descent.select first ws) := by
        rw [firstMatch, hrules, ← hws.rules_eq]
        exact agrees_firstMatchOf hinside hvs hws _
      generalize ho : firstMatch (ofKinds vs) (c.inside i) = o at hselected
      generalize Descent.select first ws = selected at hselected
      cases hselected with
      | noMatch =>
        rw [choice_of_error hi hr (by rw [ho]; rfl), ho]
        exact .noMatch
      | settled h =>
        have hcloses := closes_of_settles h (d.site t)
        refine .settled ?_
        generalize selected.bind _ = r at hcloses
        cases hcloses with
        | value hend =>
          rw [choice_of_ok hi hr (by rw [ho, closing_of_ending hend.ahead_nil]), ho, hsite]
          exact .value hbehind (by rw [hpassed, List.append_assoc]; rfl)
        | failure hclosing he hlog =>
          rw [choice_of_error hi hr (by rw [ho, hsite, hclosing]), ho]
          refine .failure he (hlog.trans ?_)
          rw [hpassed]
          exact List.prefix_append _ _
        | tooDeep hdeep hlog =>
          rw [choice_of_error hi hr (by rw [ho]; rfl), ho]
          refine .tooDeep hdeep (hlog.trans ?_)
          rw [hpassed]
          exact List.prefix_append _ _

/-! ### Repetition -/

theorem remaining_of_before (hc : c.Before d ts) : c.remaining = ts.length := by
  rw [remaining_of_over hc.stands.segment]
  have hnodes := hc.nodes
  clear hc
  induction ts with
  | nil => rfl
  | cons t ts ih =>
    obtain ⟨ht, hts⟩ := List.forall_mem_cons.mp hnodes
    cases t with
    | token leaf => cases ht
    | node rule region? children =>
      rw [Tree.branchesOf, Tree.branches, List.singleton_append, List.length_cons, List.length_cons,
        ih hts]

theorem closes_atMost {k : Kind} (hb : Declines k.rule b) {f : Tree → Except Failure α} {n : Nat}
    (hn : ts.length < n) (hc : c.Before d ts)
    (h : ∀ t ∈ ts, t.rule? = some k.rule → ∀ c rest, c.Before d (t :: rest) →
      Settles d deep c (t :: rest) rest (b c) (f t)) :
    Closes d deep site ts (atMost b n c) (d.each k f site ts) := by
  induction ts generalizing c n with
  | nil =>
    obtain ⟨n, rfl⟩ := Nat.exists_eq_succ_of_ne_zero (by omega : n ≠ 0)
    have hrule : c.rule? ≠ some k.rule := by
      rw [hc.rule?_nil]
      intro h
      cases h
    rw [atMost_of_noMatch (hb c hc.ahead_ne_outside hrule)]
    exact .value hc
  | cons t ts ih =>
    obtain ⟨hfirst, hothers⟩ := List.forall_mem_cons.mp h
    obtain ⟨n, rfl⟩ := Nat.exists_eq_succ_of_ne_zero (by omega : n ≠ 0)
    rw [Descent.each]
    split
    case isTrue ht =>
      rw [atMost]
      have hsome := settles_optional (hfirst ht c ts hc)
      have hrest : ∀ a pos, ({ c with pos := pos }).Before d ts →
          Closes d deep site ts (((a :: ·) <$> atMost b n) { c with pos := pos })
            ((d.each k f site ts).map (a :: ·)) := fun a pos hc =>
        closes_map (ih (by simpa using hn) hc hothers) _
      generalize f t = r at hsome
      cases r with
      | ok a =>
        refine closes_bind (g := fun _ => (d.each k f site ts).map (a :: ·)) hsome ?_
        intro a? pos ha? hc
        cases ha?
        exact hrest a pos hc
      | error e =>
        refine closes_bind (g := fun _ => .error e) hsome ?_
        intro a? pos ha?
        cases ha?
    case isFalse ht =>
      rw [atMost_of_noMatch (hb c hc.ahead_ne_outside (by rwa [hc.rule?_cons]))]
      exact closes_of_settles (settles_pure hc []) site

theorem closes_many {k : Kind} (hb : Declines k.rule b) {f : Tree → Except Failure α}
    (hc : c.Before d ts) (h : ∀ t ∈ ts, t.rule? = some k.rule → ∀ c rest, c.Before d (t :: rest) →
      Settles d deep c (t :: rest) rest (b c) (f t)) :
    Closes d deep site ts (many b c) (d.each k f site ts) :=
  closes_atMost hb (by rw [remaining_of_before hc]; omega) hc h

end Builder

end RuleTree
