import RuleTree.Source.Phrase

/-!
# Reading tokens as a sentence

A sentence is read one token at a time. The state of a reading keeps the phrases that are complete
and, for every bracket that is open, what was read before it and inside it.

* `State.step` takes one token in, and refuses it where no sentence goes on with it.
* `State.steps` takes tokens in until one is refused.
* `State.finish?` gives the sentence, if the tokens read so far are one.
-/

namespace RuleTree.Reading

/-- What a whole source has to be. -/
inductive Start
  | program
  | expr
  deriving DecidableEq, Repr

namespace Start

def name : Start → String
  | program => "main"
  | expr => "expr"

def all : List Start := [program, expr]

/-- The start of a given name. -/
def ofName? (name : String) : Option Start :=
  all.find? (·.name == name)

end Start

/-- The place of a term in its expression: the first, or the one on the right of an operator. -/
inductive Slot
  | left
  | right (left : Phrase.Term) (operator : Operator) (mark : Span)

/-- The expression that is complete with `t` in the slot. -/
def Slot.fill (t : Phrase.Term) : Slot → Phrase.Expr
  | left => .single t
  | right l o m => .binary l o m t

/-- A bracket that is still open. -/
structure Frame where
  /-- The slot of the term that the bracket begins. -/
  slot : Slot
  bracket : Bracket
  opening : Span
  /-- The items before the current one with their commas, the latest first. -/
  before : List (Phrase.Expr × Span)

/-- The items of a closed bracket: those before, and the ones that end them. -/
def itemsOf (before : List (Phrase.Expr × Span)) (tail : Phrase.Items) : Phrase.Items :=
  before.foldl (fun items item => .cons item.1 item.2 items) tail

/-- The term that a frame becomes when it is closed behind `tail`. -/
def Frame.close (f : Frame) (tail : Phrase.Items) (closing : Span) : Phrase.Term :=
  .enclosed f.bracket f.opening (itemsOf f.before tail) closing

/-- What has been read so far. -/
structure State where
  /-- The complete statements, the latest first. -/
  stmts : List Phrase.Stmt
  /-- The open brackets, the innermost first. -/
  frames : List Frame
  /-- The slot of the current term. -/
  slot : Slot
  /-- The current term, if it is complete. -/
  term? : Option Phrase.Term

namespace State

/-- Before the first token. -/
def initial : State := ⟨[], [], .left, none⟩

/-- Takes in a token where a term is expected. The closing bracket may stand there at the beginning
of an item, and then ends the items without one more. -/
def stepBefore (s : State) (t : Token) : Option State :=
  match t.lexeme with
  | .literal k text => some { s with term? := some (.literal k text t.span) }
  | .opening b => some ⟨s.stmts, ⟨s.slot, b, t.span, []⟩ :: s.frames, .left, none⟩
  | .closing b =>
    match s.slot, s.frames with
    | .left, f :: fs =>
      if f.bracket = b then some ⟨s.stmts, fs, f.slot, some (f.close .nil t.span)⟩ else none
    | _, _ => none
  | _ => none

/-- Takes in a token behind the complete term `x`. -/
def stepBehind (start : Start) (s : State) (x : Phrase.Term) (t : Token) : Option State :=
  match t.lexeme with
  | .operator o =>
    match s.slot with
    | .left => some ⟨s.stmts, s.frames, .right x o t.span, none⟩
    | .right .. => none
  | .comma =>
    match s.frames with
    | f :: fs =>
      some ⟨s.stmts, { f with before := (s.slot.fill x, t.span) :: f.before } :: fs, .left, none⟩
    | [] => none
  | .closing b =>
    match s.frames with
    | f :: fs =>
      if f.bracket = b then
        some ⟨s.stmts, fs, f.slot, some (f.close (.last (s.slot.fill x)) t.span)⟩
      else none
    | [] => none
  | .semicolon =>
    match start, s.frames with
    | .program, [] => some ⟨⟨s.slot.fill x, t.span⟩ :: s.stmts, [], .left, none⟩
    | _, _ => none
  | _ => none

/-- Takes in a token, if some sentence goes on with it. -/
def step (start : Start) (s : State) (t : Token) : Option State :=
  match s.term? with
  | none => s.stepBefore t
  | some x => s.stepBehind start x t

/-- The sentence that has been read, if it is complete. -/
def finish? (start : Start) (s : State) : Option Phrase.Sentence :=
  match start, s with
  | .program, ⟨stmts, [], .left, none⟩ => some (.program stmts.reverse)
  | .expr, ⟨[], [], slot, some x⟩ => some (.expr (slot.fill x))
  | _, _ => none

/-- Takes in tokens one after another; the first that is refused is the error. -/
def steps (start : Start) (s : State) : List Token → Except Token State
  | [] => .ok s
  | t :: ts =>
    match s.step start t with
    | some next => steps start next ts
    | none => .error t

theorem steps_append (start : Start) (s : State) (ts us : List Token) :
    s.steps start (ts ++ us) = (s.steps start ts).bind (·.steps start us) := by
  induction ts generalizing s with
  | nil => rfl
  | cons t ts ih =>
    rw [List.cons_append, steps, steps]
    cases s.step start t with
    | none => rfl
    | some next => exact ih next

end State

end RuleTree.Reading
