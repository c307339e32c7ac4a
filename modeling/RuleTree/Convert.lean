import RuleTree.Builder.Nodes
import RuleTree.Source.Parse

/-!
# From a source to typed syntax

* `parse` gives the rule tree of a source under some settings.
* `convert` builds a typed node from the root of a tree, if flattening the tree gives a queue, and
  `convertUnder` does so with any nesting allowance and any depth of the tree.
* `parseProgram` and `parseExpression` do both.
-/

namespace RuleTree

/-- What is noted while a source is worked on. -/
inductive Event
  | matched (site : Site)
  | converted (kind : Kind) (rule : String)
  | parsed (statements : Nat)
  deriving DecidableEq, Repr

/-- An event as a line of the log. -/
def Event.line : Event → String
  | matched site => site.rule ++ " matched at " ++ site.location
  | converted kind rule => "converted " ++ kind.name ++ " from " ++ rule
  | parsed statements => "parsed program with " ++ toString statements ++ " statements"

/-- Why a source yields no typed syntax. -/
inductive Error
  | request (e : RequestError)
  | parse (e : ParseError)
  | build (e : Failure)
  deriving DecidableEq, Repr

/-- The result of some work and the events on the way to it. -/
structure Logged (α : Type) where
  result : Except Error α
  log : List Event

namespace Logged

variable {α β : Type}

/-- The same work with a function applied to what it yields. -/
def map (f : α → β) (l : Logged α) : Logged β := ⟨l.result.map f, l.log⟩

end Logged

/-- The rule tree of a source. `files` tells the vocabularies of the grammars that paths lead to. -/
def parse (settings : Settings) (files : String → Option Vocabulary) (start source : String) :
    Except Error Tree :=
  match Reading.Start.ofName? start with
  | none => .error (.request (.unknownStart start))
  | some start =>
    match locateGrammar .standard files settings.grammarPath with
    | .error e => .error (.request e)
    | .ok v => (parseTree settings.parser v start source).mapError .parse

/-- A failure of the builder for the root of a tree, as a failure of the conversion. -/
def Failure.atRoot (kind : Kind) (root : Option Site) : Failure → Failure
  | noMatch mismatch => fatal ⟨root, .rootMismatch kind mismatch⟩
  | tooDeep => fatal ⟨root, .rootTooDeep kind⟩
  | failure => failure

/-- Runs the builder `b` for nodes of a kind at a cursor. `rule` is that of the root. -/
def convertFrom {α : Type} (b : Builder α) (kind : Kind) (rule : String) (c : Cursor) : Logged α :=
  let o := b c
  let log := o.log.map Event.matched
  match o.result with
  | .ok a => ⟨.ok a, log ++ [.converted kind rule]⟩
  | .error e => ⟨.error (.build (e.atRoot kind (c.peek?.map (·.entry.site)))), log⟩

/-- Runs the builder `b` for nodes of a kind on the root of a tree, if the tree has a queue. The scans
that break off are not among the failures of the builder. -/
def convertRoot {α : Type} (b : Builder α) (kind : Kind) (settings : Settings)
    (source : Option String) (t : Tree) : Logged α :=
  match Cursor.ofTree? settings (source.map charsOf) t with
  | some c => convertFrom b kind (t.rule?.getD "") c
  | none => ⟨.error (.build .tooDeep), []⟩

/-- Builds a node of a kind from the root of a tree. -/
def convert (settings : Settings) (source : Option String) (kind : Kind) (t : Tree) : Logged Node :=
  convertRoot (Builder.node defaultAllowance kind) kind settings source t

/-- Runs the builder `b` for nodes of a kind on the root of a tree, however deep the tree is. -/
def convertWith {α : Type} (b : Builder α) (kind : Kind) (settings : Settings)
    (source : Option String) (t : Tree) : Logged α :=
  convertFrom b kind (t.rule?.getD "") (Cursor.ofTree settings (source.map charsOf) t)

/-- Builds a node of a kind from the root of a tree under a nesting allowance. Flattening the tree
takes nothing of the allowance and always gives a queue. -/
def convertUnder (allowance : Nat) (settings : Settings) (source : Option String) (kind : Kind)
    (t : Tree) : Logged Node :=
  convertWith (Builder.node allowance kind) kind settings source t

/-- Parses a source and builds its root. -/
def parseWith {α : Type} (b : Builder α) (kind : Kind) (start : Reading.Start) (settings : Settings)
    (files : String → Option Vocabulary) (source : String) : Logged α :=
  match parse settings files start.name source with
  | .error e => ⟨.error e, []⟩
  | .ok t => convertRoot b kind settings (some source) t

/-- The program that a source is. -/
def parseProgram (settings : Settings) (files : String → Option Vocabulary) (source : String) :
    Logged Program :=
  let l := parseWith (Builder.program defaultAllowance) .program .program settings files source
  match l.result with
  | .ok p => { l with log := l.log ++ [.parsed p.statements.length] }
  | .error _ => l

/-- The expression that a source is. -/
def parseExpression (settings : Settings) (files : String → Option Vocabulary) (source : String) :
    Logged Expression :=
  parseWith (Builder.expression defaultAllowance) .expression .expr settings files source

end RuleTree
