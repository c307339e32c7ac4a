import RuleTree.Builder.Failure
import RuleTree.Queue.Cursor

/-!
# Builders

A builder makes a value of the siblings at a cursor. It tells how far it got and which nodes it went
past on its way, also when it fails.

* `expect`, `commit` and `within` are the steps: find a node, go past it, build from its children.
* `tagged` goes past its node before it looks inside, `choice` after a variant has matched there.
* `recover`, and with it `optional`, `required` and `firstMatch`, go on where a builder does not
  match.
-/

namespace RuleTree

/-- What running a builder yields. -/
structure Outcome (α : Type) where
  result : Except Failure α
  cursor : Cursor
  /-- The nodes that were gone past, in order. -/
  log : List Site

/-- A builder of values of type `α`. -/
def Builder (α : Type) : Type := Cursor → Outcome α

namespace Outcome

/-- An outcome after other nodes were gone past. -/
def after {α : Type} (log : List Site) (o : Outcome α) : Outcome α :=
  { o with log := log ++ o.log }

end Outcome

namespace Builder

variable {α β : Type}

instance : Monad Builder where
  map f b := fun c =>
    let o := b c
    { o with result := o.result.map f }
  pure a := fun c => ⟨.ok a, c, []⟩
  bind b f := fun c =>
    match b c with
    | ⟨.ok a, c', log⟩ => (f a c').after log
    | ⟨.error e, c', log⟩ => ⟨.error e, c', log⟩

/-- Fails without going past anything. -/
def fail (e : Failure) : Builder α := fun c => ⟨.error e, c, []⟩

/-- Fails with an error that is about a node. -/
def failAt (site : Site) (cause : FatalCause) : Builder α := fail (.fatal ⟨some site, cause⟩)

/-- Does not match, because a rule in `expected` is not what comes next. What comes next has to be
known for that. -/
def mismatch (expected : List String) : Builder α := fun c =>
  match c.ahead with
  | .outside => fail .outside c
  | _ => fail (.noMatch ⟨expected, c.rule?⟩) c

/-- The next sibling, if it has the rule. -/
def expect (rule : String) : Builder Item := fun c =>
  match c.peek? with
  | some i => if i.rule = rule then ⟨.ok i, c, []⟩ else mismatch [rule] c
  | none => mismatch [rule] c

/-- Goes past a node. -/
def commit (i : Item) : Builder Unit := fun c => ⟨.ok (), c.behind i, [i.entry.site]⟩

/-- Checks that nothing is left at a cursor over the children of a node. -/
def finish (site : Site) (inner : Cursor) : Except Failure Unit :=
  match inner.ahead with
  | .item extra => .error (.fatal ⟨some site, .extraneous extra.entry.site⟩)
  | .ending => .ok ()
  | .outside => .error .outside

/-- Builds from the children of a node, all of which have to be used. -/
def within (i : Item) (b : Builder α) : Builder α := fun c =>
  let o := b (c.inside i)
  ⟨o.result.bind fun a => (finish i.entry.site o.cursor).map fun _ => a, c, o.log⟩

/-- Goes past the next sibling, if it has the rule, and then builds from its children. -/
def tagged (rule : String) (b : Site → Builder α) : Builder α := do
  let i ← expect rule
  commit i
  within i (b i.entry.site)

/-- Runs `next` where `b` does not match, with the rule that was found in place of what `b` is
for. -/
def recover (b : Builder α) (next : Option String → Builder α) : Builder α := fun c =>
  match b c with
  | ⟨.error (.noMatch m), c', log⟩ => (next m.found c').after log
  | o => o

/-- Builds a value if the builder matches. -/
def optional (b : Builder α) : Builder (Option α) :=
  recover (some <$> b) fun _ => pure none

/-- Builds a value that the node at `parent` cannot do without. -/
def required (parent : Site) (what : String) (b : Builder α) : Builder α :=
  recover b fun found => failAt parent (.missingChild what found)

/-- A rule and the builder for it. -/
abbrev Variant (α : Type) := String × Builder α

/-- Tries the variants one after another; `rules` are those of all of them. -/
def firstMatchOf (rules : List String) : List (Variant α) → Builder α
  | [] => mismatch rules
  | v :: vs => recover v.2 fun _ => firstMatchOf rules vs

/-- The value of the first variant that matches. -/
def firstMatch (variants : List (Variant α)) : Builder α :=
  firstMatchOf (variants.map (·.1)) variants

/-- Builds from the children of the next sibling, if it has the rule, and only then goes past it. -/
def choice (rule : String) (variants : List (Variant α)) : Builder α := do
  let i ← expect rule
  let a ← within i (firstMatch variants)
  commit i
  return a

/-- Builds values until the builder does not match, but no more than a given number. -/
def atMost (b : Builder α) : Nat → Builder (List α)
  | 0 => pure []
  | n + 1 => do
    match ← optional b with
    | none => pure []
    | some a => (a :: ·) <$> atMost b n

/-- Builds values until the builder does not match. Each of them uses up a sibling, so that it is
tried at most once more than there are siblings ahead. -/
def many (b : Builder α) : Builder (List α) := fun c => atMost b (c.remaining + 1) c

/-- Decodes the text of a node. -/
def decode (site : Site) (decoder : String → Except Fault α) : Builder α :=
  match decoder site.text with
  | .ok a => pure a
  | .error (.malformed literal) => failAt site (.badLiteral literal)
  | .error fault => fail (.limit fault)

/-- The settings that the cursor carries. -/
def settings : Builder Settings := fun c => ⟨.ok c.settings, c, []⟩

end Builder

end RuleTree
