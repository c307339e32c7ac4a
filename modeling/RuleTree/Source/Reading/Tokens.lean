import RuleTree.Source.Reading

/-!
# Reading and the tokens that were read

`State.tokens` gives back the tokens that a state stands for. Reading neither loses nor invents a
token, and it reads every sentence from its own tokens.

* `tokens_of_step`: a step adds the token that is taken in.
* `tokens_of_finish?`: a complete sentence has the tokens that were read.
* `finish?_of_program`, `finish?_of_expr`: the tokens of a sentence are taken in and give it.
-/

namespace RuleTree.Reading

/-! ## The tokens of a state -/

def Slot.tokens : Slot → List Token
  | left => []
  | right l o m => l.tokens ++ [⟨.operator o, m⟩]

/-- An item and the comma behind it. -/
def itemTokens (item : Phrase.Expr × Span) : List Token :=
  item.1.tokens ++ [⟨.comma, item.2⟩]

def Frame.tokens (f : Frame) : List Token :=
  f.slot.tokens ++ ⟨.opening f.bracket, f.opening⟩ :: f.before.reverse.flatMap itemTokens

namespace State

/-- The tokens that have been read. -/
def tokens (s : State) : List Token :=
  s.stmts.reverse.flatMap Phrase.Stmt.tokens ++ s.frames.reverse.flatMap Frame.tokens
    ++ s.slot.tokens ++ (s.term?.map Phrase.Term.tokens).getD []

end State

theorem tokens_fill (slot : Slot) (t : Phrase.Term) :
    (slot.fill t).tokens = slot.tokens ++ t.tokens := by
  cases slot <;> simp [Slot.fill, Slot.tokens, Phrase.Expr.tokens]

theorem tokens_itemsOf (before : List (Phrase.Expr × Span)) (tail : Phrase.Items) :
    (itemsOf before tail).tokens = before.reverse.flatMap itemTokens ++ tail.tokens := by
  induction before generalizing tail with
  | nil => simp [itemsOf]
  | cons item before ih =>
    have h := ih (.cons item.1 item.2 tail)
    simp only [itemsOf, List.foldl_cons] at h ⊢
    rw [h]
    simp [itemTokens, Phrase.Items.tokens]

theorem tokens_close (f : Frame) (tail : Phrase.Items) (closing : Span) :
    f.slot.tokens ++ (f.close tail closing).tokens
      = f.tokens ++ tail.tokens ++ [⟨.closing f.bracket, closing⟩] := by
  simp [Frame.close, Frame.tokens, Phrase.Term.tokens, tokens_itemsOf]

namespace State

theorem tokens_of_stepBefore {s s' : State} {t : Token} (hs : s.term? = none)
    (h : s.stepBefore t = some s') : s'.tokens = s.tokens ++ [t] := by
  obtain ⟨lexeme, span⟩ := t
  obtain ⟨stmts, frames, slot, term?⟩ := s
  subst hs
  cases lexeme with
  | literal k text =>
    cases h
    simp [tokens, Phrase.Term.tokens]
  | opening b =>
    cases h
    simp [tokens, Frame.tokens, Slot.tokens]
  | closing b =>
    simp only [stepBefore] at h
    split at h
    · rename_i f fs
      split at h
      · rename_i hb
        cases h
        have := tokens_close f .nil span
        simp_all [tokens, Phrase.Items.tokens]
        rfl
      · cases h
    · cases h
  | operator o => cases h
  | comma => cases h
  | semicolon => cases h

theorem tokens_of_stepBehind {start : Start} {s s' : State} {x : Phrase.Term} {t : Token}
    (hs : s.term? = some x) (h : s.stepBehind start x t = some s') :
    s'.tokens = s.tokens ++ [t] := by
  obtain ⟨lexeme, span⟩ := t
  obtain ⟨stmts, frames, slot, term?⟩ := s
  subst hs
  cases lexeme with
  | literal k text => cases h
  | opening b => cases h
  | operator o =>
    cases slot with
    | left =>
      cases h
      simp [tokens, Slot.tokens]
    | right => cases h
  | comma =>
    cases frames with
    | nil => cases h
    | cons f fs =>
      cases h
      simp [tokens, Frame.tokens, itemTokens, tokens_fill, Slot.tokens]
  | closing b =>
    cases frames with
    | nil => cases h
    | cons f fs =>
      simp only [stepBehind] at h
      split at h
      · rename_i hb
        cases h
        have := tokens_close f (.last (slot.fill x)) span
        simp_all [tokens, tokens_fill, Phrase.Items.tokens]
      · cases h
  | semicolon =>
    cases start with
    | expr => cases h
    | program =>
      cases frames with
      | cons => cases h
      | nil =>
        cases h
        simp [tokens, Phrase.Stmt.tokens, tokens_fill, Slot.tokens]

theorem tokens_of_step {start : Start} {s s' : State} {t : Token} (h : s.step start t = some s') :
    s'.tokens = s.tokens ++ [t] := by
  unfold step at h
  split at h
  · exact tokens_of_stepBefore ‹_› h
  · exact tokens_of_stepBehind ‹_› h

theorem tokens_of_steps {start : Start} {s s' : State} {ts : List Token}
    (h : s.steps start ts = .ok s') : s'.tokens = s.tokens ++ ts := by
  induction ts generalizing s with
  | nil =>
    cases h
    simp
  | cons t ts ih =>
    rw [steps] at h
    split at h
    · rename_i next hnext
      rw [ih h, tokens_of_step hnext]
      simp
    · cases h

theorem tokens_of_finish? {start : Start} {s : State} {sentence : Phrase.Sentence}
    (h : s.finish? start = some sentence) : sentence.tokens = s.tokens := by
  unfold finish? at h
  split at h
  · cases h
    simp [tokens, Phrase.Sentence.tokens, Slot.tokens]
  · cases h
    simp [tokens, Phrase.Sentence.tokens, tokens_fill]
  · cases h

end State

/-! ## Reading a phrase from its tokens -/

namespace State

theorem steps_cons {start : Start} {s n : State} {t : Token} (ts : List Token)
    (h : s.step start t = some n) : s.steps start (t :: ts) = n.steps start ts := by
  rw [steps, h]

mutual

theorem steps_term (start : Start) (t : Phrase.Term) (stmts : List Phrase.Stmt)
    (frames : List Frame) (slot : Slot) (rest : List Token) :
    State.steps start ⟨stmts, frames, slot, none⟩ (t.tokens ++ rest)
      = State.steps start ⟨stmts, frames, slot, some t⟩ rest := by
  match t with
  | .literal k x p => exact steps_cons rest rfl
  | .enclosed b p is q =>
    have h := steps_items start is stmts ⟨slot, b, p, []⟩ frames q rest
    simp only [Phrase.Term.tokens, List.append_assoc, List.cons_append, List.nil_append] at h ⊢
    rw [steps_cons (n := ⟨stmts, ⟨slot, b, p, []⟩ :: frames, .left, none⟩) _ rfl, h]
    rfl

theorem steps_expr (start : Start) (e : Phrase.Expr) (stmts : List Phrase.Stmt)
    (frames : List Frame) (rest : List Token) :
    ∃ slot t, slot.fill t = e ∧
      State.steps start ⟨stmts, frames, .left, none⟩ (e.tokens ++ rest)
        = State.steps start ⟨stmts, frames, slot, some t⟩ rest := by
  match e with
  | .single t => exact ⟨.left, t, rfl, steps_term start t stmts frames .left rest⟩
  | .binary l o m r =>
    refine ⟨.right l o m, r, rfl, ?_⟩
    simp only [Phrase.Expr.tokens, List.append_assoc, List.cons_append]
    rw [steps_term, steps_cons (n := ⟨stmts, frames, .right l o m, none⟩) _ rfl, steps_term]

theorem steps_items (start : Start) (is : Phrase.Items) (stmts : List Phrase.Stmt) (f : Frame)
    (frames : List Frame) (q : Span) (rest : List Token) :
    State.steps start ⟨stmts, f :: frames, .left, none⟩
        (is.tokens ++ ⟨.closing f.bracket, q⟩ :: rest)
      = State.steps start ⟨stmts, frames, f.slot, some (f.close is q)⟩ rest := by
  match is with
  | .nil => exact steps_cons rest (by simp [step, stepBefore])
  | .last e =>
    obtain ⟨slot, t, rfl, h⟩ :=
      steps_expr start e stmts (f :: frames) (⟨.closing f.bracket, q⟩ :: rest)
    rw [Phrase.Items.tokens, h]
    exact steps_cons rest (by simp [step, stepBehind])
  | .cons e m is =>
    obtain ⟨slot, t, rfl, h⟩ := steps_expr start e stmts (f :: frames)
      (⟨.comma, m⟩ :: (is.tokens ++ ⟨.closing f.bracket, q⟩ :: rest))
    have h' := steps_items start is stmts { f with before := (slot.fill t, m) :: f.before }
      frames q rest
    simp only [Phrase.Items.tokens, List.append_assoc, List.cons_append]
    rw [h, steps_cons _ rfl]
    exact h'

end

theorem steps_stmts (stmts before : List Phrase.Stmt) :
    State.steps .program ⟨before, [], .left, none⟩ (stmts.flatMap Phrase.Stmt.tokens)
      = .ok ⟨stmts.reverse ++ before, [], .left, none⟩ := by
  induction stmts generalizing before with
  | nil => rfl
  | cons s stmts ih =>
    obtain ⟨e, m⟩ := s
    simp only [List.flatMap_cons, Phrase.Stmt.tokens, List.append_assoc, List.cons_append,
      List.nil_append]
    obtain ⟨slot, t, rfl, h⟩ := steps_expr .program e before []
      (⟨.semicolon, m⟩ :: stmts.flatMap Phrase.Stmt.tokens)
    rw [h, steps_cons _ rfl, ih]
    simp

theorem finish?_of_program (stmts : List Phrase.Stmt) :
    ((initial.steps .program (Phrase.Sentence.program stmts).tokens).toOption.bind
      (·.finish? .program)) = some (.program stmts) := by
  rw [Phrase.Sentence.tokens, initial, steps_stmts]
  simp [Except.toOption, finish?]

theorem finish?_of_expr (e : Phrase.Expr) :
    ((initial.steps .expr (Phrase.Sentence.expr e).tokens).toOption.bind
      (·.finish? .expr)) = some (.expr e) := by
  obtain ⟨slot, t, rfl, h⟩ := steps_expr .expr e [] [] []
  rw [List.append_nil] at h
  rw [Phrase.Sentence.tokens, initial, h]
  rfl

end State

end RuleTree.Reading
