import RuleTree.Builder.Nodes
import RuleTree.Literal.Decoder

/-!
# Sessions

A session moves several cursors over one queue, one command at a time. The first cursor is given,
and others are opened over the children of a node that a cursor stands before; they remember that
node as their owner.
-/

namespace RuleTree

/-- What can be asked of a cursor. -/
inductive Command
  | peek
  | advance
  | check (rules : List String)
  | remaining
  | render
  | radixFloats
  /-- Goes past so many siblings, or all of them. -/
  | iterate (count : Option Nat)
  /-- Opens a cursor over the children of the next sibling. -/
  | inside
  | expect (rule : String)
  /-- Goes past the next sibling, if it has the rule, and opens a cursor over its children. -/
  | enter (rule : String)
  | commit
  /-- Checks that nothing is left at the cursor. -/
  | finish
  | build (kind : Kind)
  | optional (kind : Kind)
  | required (kind : Kind) (what : String)
  | firstMatch (kinds : List Kind)
  | decode (decoder : Decoder)

/-- What a command answers. -/
inductive Reply
  | nothing
  | site (s : Site)
  | opened (number : Nat) (owner : Site)
  | flag (value : Bool)
  | count (n : Nat)
  | text (s : String)
  | rules (names : List String)
  | node (n : Node)
  | value (v : Decoded)

/-- What a command comes to. -/
inductive Effect
  | answer (r : Reply)
  /-- A cursor is to be opened over the children of the node. -/
  | opening (i : Item)

/-- The cursors of a session, each with its owner. -/
structure Session where
  cursors : List (Cursor × Option Site)

namespace Session

/-- A session with one cursor. -/
def start (c : Cursor) : Session := ⟨[(c, none)]⟩

/-- Answers with something that is read off the cursor. -/
def reading (f : Cursor → Reply) : Builder Effect := fun c => ⟨.ok (.answer (f c)), c, []⟩

/-- Answers with something that the place of the cursor shows, which has to be in the queue. -/
def looking (f : Cursor → Reply) : Builder Effect := fun c =>
  if c.ahead = .outside then Builder.fail .outside c else reading f c

/-- Answers with something that all siblings ahead show, none of which may lead outside the
queue. -/
def surveying (f : Cursor → Reply) : Builder Effect := fun c =>
  if c.last.ahead = .outside then Builder.fail .outside c else reading f c

/-- The next sibling; `absent` is the failure at the end of the cursor. -/
def pending (absent : Failure) : Builder Item := fun c =>
  match c.ahead with
  | .item i => ⟨.ok i, c, []⟩
  | .ending => Builder.fail absent c
  | .outside => Builder.fail .outside c

/-- Goes past so many siblings, or all of them, as far as the queue goes. -/
def iterate (count : Option Nat) : Builder Effect := fun c =>
  let (items, c') := (count.map (c.take ·)).getD c.takeAll
  if c'.ahead = .outside ∧ count ≠ some items.length then Builder.fail .outside c'
  else ⟨.ok (.answer (.rules (items.map (·.rule)))), c', []⟩

/-- Checks that nothing is left at a cursor with a given owner. -/
def finish (owner : Option Site) (c : Cursor) : Except Failure Unit :=
  match owner, c.ahead with
  | some site, _ => Builder.finish site c
  | none, .item _ => .error .noOwner
  | none, .ending => .ok ()
  | none, .outside => .error .outside

/-- Builds a value that the owner of the cursor cannot do without. -/
def required {α : Type} (owner : Option Site) (what : String) (b : Builder α) : Builder α :=
  match owner with
  | some site => Builder.required site what b
  | none => Builder.recover b fun _ => Builder.fail .noOwner

/-- Builds a node and answers with it. -/
def building (b : Builder Node) : Builder Effect := (fun n => .answer (.node n)) <$> b

/-- What a command comes to at a cursor with a given owner. -/
def perform (owner : Option Site) : Command → Builder Effect
  | .peek => looking fun c => (c.peek?.map (.site ·.entry.site)).getD .nothing
  | .advance => do
    let i ← pending .exhausted
    fun c => ⟨.ok (.answer (.site i.entry.site)), c.behind i, []⟩
  | .check rules => looking fun c => .flag (c.check rules)
  | .remaining => surveying fun c => .count c.remaining
  | .render => surveying fun c => .text c.render
  | .radixFloats => reading fun c => .flag c.settings.radixFloats
  | .iterate count => iterate count
  | .inside => fun c =>
    match c.ahead with
    | .item i => ⟨.ok (.opening i), c, []⟩
    | .ending => ⟨.ok (.answer .nothing), c, []⟩
    | .outside => Builder.fail .outside c
  | .expect rule => (fun i => .answer (.site i.entry.site)) <$> Builder.expect rule
  | .enter rule => do
    let i ← Builder.expect rule
    Builder.commit i
    return .opening i
  | .commit => do
    let i ← pending .exhausted
    Builder.commit i
    return .answer .nothing
  | .finish => fun c => ⟨(finish owner c).map fun _ => .answer .nothing, c, []⟩
  | .build kind => building (Builder.node defaultAllowance kind)
  | .optional kind => do
    match ← Builder.optional (Builder.node defaultAllowance kind) with
    | some n => return .answer (.node n)
    | none => return .answer .nothing
  | .required kind what => building (required owner what (Builder.node defaultAllowance kind))
  | .firstMatch kinds =>
    building (Builder.firstMatch (kinds.map fun k => (k.rule, Builder.node defaultAllowance k)))
  | .decode decoder => do
    let i ← pending .nothingToDecode
    let v ← Builder.decode i.entry.site decoder.run
    return .answer (.value v)

/-- Gives a command to the cursor of a number: the session after it, what it answers and the nodes
that it went past. -/
def step (s : Session) (number : Nat) (command : Command) :
    Option (Session × Except Failure Reply × List Site) :=
  (s.cursors[number]?).map fun (c, owner) =>
    let o := perform owner command c
    let moved := s.cursors.set number (o.cursor, owner)
    match o.result with
    | .error e => (⟨moved⟩, .error e, o.log)
    | .ok (.answer r) => (⟨moved⟩, .ok r, o.log)
    | .ok (.opening i) =>
      let site := i.entry.site
      (⟨moved ++ [(c.inside i, some site)]⟩, .ok (.opened moved.length site), o.log)

end Session

end RuleTree
