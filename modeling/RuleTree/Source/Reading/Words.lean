import RuleTree.Settings
import RuleTree.Source.Reading

/-!
# Reading words as a sentence

A word that may be read in several ways leads from one state to several. One algorithm commits
itself to one of them, and the other goes on with all that can still make a difference.

* `advance` takes one word in, and `readWords` takes in words until one is refused.
* `readWords_word`: where every word is one token, both algorithms read as `State.steps` does.
* `outline_step`: states of one outline take in the same tokens.
-/

namespace RuleTree.Reading

/-- Whether the slot is on the right of an operator. -/
def Slot.isRight : Slot → Bool
  | left => false
  | right .. => true

namespace State

/-- Whether an operator has just been taken in. -/
def awaitsRight (s : State) : Bool := s.slot.isRight && s.term?.isNone

/-- What decides how a reading can go on: the open brackets, with the slots that they begin, the
current slot, and whether the current term is complete. -/
def outline (s : State) : List (Bracket × Bool) × Bool × Bool :=
  (s.frames.map fun f => (f.bracket, f.slot.isRight), s.slot.isRight, s.term?.isSome)

end State

/-- The states that are kept of those that a word leads to. One algorithm prefers an operator, and
otherwise takes the first state; the other keeps the first of every outline. -/
def keep : ParserKind → List State → List State
  | .lalr, states => ((states.find? State.awaitsRight).or states.head?).toList
  | .earley, states => states.eraseDupsBy fun s s' => s.outline == s'.outline

/-- The states that some states are led to by a word. -/
def advance (kind : ParserKind) (start : Start) (states : List State) (w : Word) : List State :=
  keep kind (states.flatMap fun s => w.tokens.filterMap (s.step start))

/-- Takes in words one after another, from any of some states on; the first that all of them refuse
is the error. -/
def readWords (kind : ParserKind) (start : Start) (states : List State) :
    List Word → Except Word (List State)
  | [] => .ok states
  | w :: ws =>
    match advance kind start states w with
    | [] => .error w
    | next => readWords kind start next ws

/-! ## Words that are one token -/

theorem keep_toList (kind : ParserKind) (s? : Option State) :
    keep kind s?.toList = s?.toList := by
  cases s? with
  | none => cases kind <;> rfl
  | some s =>
    cases kind with
    | lalr => cases h : s.awaitsRight <;> simp [keep, h]
    | earley => rfl

theorem advance_word (kind : ParserKind) (start : Start) (s : State) (t : Token) :
    advance kind start [s] t.word = (s.step start t).toList := by
  have h : [s].flatMap (fun s => t.word.tokens.filterMap (s.step start))
      = (s.step start t).toList := by
    cases h : s.step start t <;> simp [Word.tokens, Token.word, h]
  rw [advance, h, keep_toList]

/-- Words that are one token each are read as those tokens. -/
theorem readWords_word (kind : ParserKind) (start : Start) (s : State) (ts : List Token) :
    readWords kind start [s] (ts.map Token.word)
      = ((s.steps start ts).mapError Token.word).map ([·]) := by
  induction ts generalizing s with
  | nil => rfl
  | cons t ts ih =>
    rw [List.map_cons, readWords, advance_word, State.steps]
    cases s.step start t with
    | none => rfl
    | some next => exact ih next

/-! ## Outlines -/

namespace State

theorem outline_stepBefore {s s' : State} (h : s.outline = s'.outline) (t : Token) :
    (s.stepBefore t).map outline = (s'.stepBefore t).map outline := by
  obtain ⟨stmts, frames, slot, term?⟩ := s
  obtain ⟨stmts', frames', slot', term?'⟩ := s'
  simp only [outline, Prod.mk.injEq] at h
  obtain ⟨hframes, hslot, -⟩ := h
  obtain ⟨lexeme, span⟩ := t
  cases lexeme with
  | literal k text => simp [stepBefore, outline, hframes, hslot]
  | opening b => simp [stepBefore, outline, hframes, hslot]
  | closing b =>
    cases slot <;> cases slot' <;> cases hslot
    · cases frames <;> cases frames' <;>
        simp only [List.map_cons, List.map_nil, List.cons.injEq, reduceCtorEq,
          Prod.mk.injEq] at hframes
      · rfl
      · obtain ⟨⟨hbracket, hs⟩, hrest⟩ := hframes
        simp only [stepBefore, hbracket]
        split <;> simp [outline, hs, hrest]
    · rfl
  | operator o => rfl
  | comma => rfl
  | semicolon => rfl

theorem outline_stepBehind {s s' : State} (h : s.outline = s'.outline) (start : Start)
    (x x' : Phrase.Term) (t : Token) :
    (s.stepBehind start x t).map outline = (s'.stepBehind start x' t).map outline := by
  obtain ⟨stmts, frames, slot, term?⟩ := s
  obtain ⟨stmts', frames', slot', term?'⟩ := s'
  simp only [outline, Prod.mk.injEq] at h
  obtain ⟨hframes, hslot, -⟩ := h
  obtain ⟨lexeme, span⟩ := t
  cases lexeme with
  | literal k text => rfl
  | opening b => rfl
  | operator o =>
    cases slot <;> cases slot' <;> cases hslot
    · simp only [stepBehind, outline, Option.map_some, hframes]
      rfl
    · rfl
  | comma => cases frames <;> cases frames' <;> simp_all [stepBehind, outline]
  | closing b =>
    cases frames <;> cases frames' <;>
      simp only [List.map_cons, List.map_nil, List.cons.injEq, reduceCtorEq,
        Prod.mk.injEq] at hframes
    · rfl
    · obtain ⟨⟨hbracket, hs⟩, hrest⟩ := hframes
      simp only [stepBehind, hbracket]
      split <;> simp [outline, hs, hrest]
  | semicolon =>
    cases start <;> cases frames <;> cases frames' <;> simp_all [stepBehind, outline]

theorem outline_step {s s' : State} (h : s.outline = s'.outline) (start : Start) (t : Token) :
    (s.step start t).map outline = (s'.step start t).map outline := by
  have hterm : s.term?.isSome = s'.term?.isSome := congrArg (fun o => o.2.2) h
  unfold step
  cases hx : s.term? <;> cases hx' : s'.term? <;>
    simp only [hx, hx', Option.isSome, reduceCtorEq] at hterm
  · exact outline_stepBefore h t
  · exact outline_stepBehind h start _ _ t

end State

end RuleTree.Reading
