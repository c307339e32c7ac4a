import RuleTree.Proofs.Grammar.Parsing

/-!
# Tokens that a sentence goes on with

Reading refuses a token as soon as no sentence goes on with it, and not before: whatever has been
read can be completed.

* `Viable start ts`: some sentence of the start begins with the tokens.
* `State.exists_completion`: every state that reading leads to can be completed.
* `viable_iff_steps`: tokens are taken in exactly when some sentence begins with them.
* `State.exists_refused`: the token that is refused, and what stands before it.
-/

namespace RuleTree

open Grammar Phrase Reading

/-- Some sentence of the start begins with the tokens. -/
def Viable (start : Start) (ts : List Token) : Prop :=
  ∃ (more : List Token) (d : Derivation (.rule start.rule)), d.tokens = ts ++ more

namespace Reading.State

variable {start : Start} {s s' : State} {ts : List Token}

theorem stmts_of_step {t : Token} (h : s.step .expr t = some s') : s'.stmts = s.stmts := by
  unfold step stepBefore stepBehind at h
  grind

theorem stmts_of_steps (h : s.steps .expr ts = .ok s') : s'.stmts = s.stmts := by
  induction ts generalizing s with
  | nil =>
    cases h
    rfl
  | cons t ts ih =>
    rw [steps] at h
    split at h
    · rename_i next hnext
      rw [ih h, stmts_of_step hnext]
    · cases h

theorem exists_closed (start : Start) (stmts : List Stmt) (frames : List Frame) (slot : Slot)
    (x : Phrase.Term) :
    ∃ more slot' x', State.steps start ⟨stmts, frames, slot, some x⟩ more =
      .ok ⟨stmts, [], slot', some x'⟩ := by
  induction frames generalizing slot x with
  | nil => exact ⟨[], slot, x, rfl⟩
  | cons f frames ih =>
    obtain ⟨more, slot', x', hmore⟩ := ih f.slot (f.close (.last (slot.fill x)) ⟨.origin, .origin⟩)
    refine ⟨⟨.closing f.bracket, ⟨.origin, .origin⟩⟩ :: more, slot', x', ?_⟩
    have hstep : step start ⟨stmts, f :: frames, slot, some x⟩
        ⟨.closing f.bracket, ⟨.origin, .origin⟩⟩ =
          some ⟨stmts, frames, f.slot, some (f.close (.last (slot.fill x)) ⟨.origin, .origin⟩)⟩ :=
      if_pos rfl
    rw [steps_cons _ hstep, hmore]

theorem exists_completion (s : State) (h : start = .expr → s.stmts = []) :
    ∃ more sentence, ((s.steps start more).toOption.bind (·.finish? start)) = some sentence := by
  obtain ⟨stmts, frames, slot, term?⟩ := s
  -- a term that is missing can be a number
  have hterm : ∃ before x, State.steps start ⟨stmts, frames, slot, term?⟩ before =
      .ok ⟨stmts, frames, slot, some x⟩ := by
    cases term? with
    | none => exact ⟨[⟨.literal .decInt "0", ⟨.origin, .origin⟩⟩], _, rfl⟩
    | some x => exact ⟨[], x, rfl⟩
  obtain ⟨before, x, hbefore⟩ := hterm
  obtain ⟨more, slot', x', hmore⟩ := exists_closed start stmts frames slot x
  have hclosed : State.steps start ⟨stmts, frames, slot, term?⟩ (before ++ more) =
      .ok ⟨stmts, [], slot', some x'⟩ := by
    rw [steps_append, hbefore]
    exact hmore
  cases start with
  | expr =>
    have hstmts : stmts = [] := h rfl
    subst hstmts
    exact ⟨before ++ more, _, by rw [hclosed]; rfl⟩
  | program =>
    refine ⟨before ++ more ++ [⟨.semicolon, ⟨.origin, .origin⟩⟩],
      .program (⟨slot'.fill x', ⟨.origin, .origin⟩⟩ :: stmts).reverse, ?_⟩
    rw [steps_append, hclosed]
    rfl

theorem exists_refused {t : Token} (h : s.steps start ts = .error t) :
    ∃ before behind next, ts = before ++ t :: behind ∧ s.steps start before = .ok next ∧
      s.steps start (before ++ [t]) = .error t := by
  induction ts generalizing s with
  | nil => cases h
  | cons u ts ih =>
    rw [steps] at h
    split at h
    · rename_i next hnext
      obtain ⟨before, behind, last, rfl, hbefore, hrefused⟩ := ih h
      refine ⟨u :: before, behind, last, rfl, ?_, ?_⟩
      · rw [steps_cons _ hnext, hbefore]
      · rw [List.cons_append, steps_cons _ hnext, hrefused]
    · rename_i hnone
      cases h
      refine ⟨[], ts, s, rfl, rfl, ?_⟩
      rw [List.nil_append, steps, hnone]

end Reading.State

/-- Tokens are taken in exactly when some sentence begins with them. -/
theorem viable_iff_steps {start : Start} {ts : List Token} :
    Viable start ts ↔ ∃ s, State.initial.steps start ts = .ok s := by
  constructor
  · rintro ⟨more, d, hd⟩
    obtain ⟨sentence, hstart, htokens, -⟩ := exists_sentence d
    have hfinish := finish?_steps_iff.mpr ⟨hstart, htokens.trans hd⟩
    rw [State.steps_append] at hfinish
    cases hsteps : State.initial.steps start ts with
    | ok s => exact ⟨s, rfl⟩
    | error t =>
      rw [hsteps] at hfinish
      cases hfinish
  · rintro ⟨s, hs⟩
    have hstmts : start = .expr → s.stmts = [] := by
      rintro rfl
      exact State.stmts_of_steps hs
    obtain ⟨more, sentence, hfinish⟩ := s.exists_completion hstmts
    have hwhole : ((State.initial.steps start (ts ++ more)).toOption.bind (·.finish? start)) =
        some sentence := by
      rw [State.steps_append, hs]
      exact hfinish
    obtain ⟨rfl, htokens⟩ := finish?_steps_iff.mp hwhole
    obtain ⟨d, hd, -⟩ := exists_derivation sentence
    exact ⟨more, d, hd.trans htokens⟩

end RuleTree
