import RuleTree.Ast.Kind
import RuleTree.Literal.Fault
import RuleTree.Queue.Entry

/-!
# Failures of building

A builder that does not find the node it is for does not match, and another builder may be tried at
the same place. Once the node is found, anything wrong below it is fatal.
-/

namespace RuleTree

/-- The text, or a phrase for an absent or empty one. -/
def textOr (phrase : String) (text : Option String) : String :=
  (text.filter (· ≠ "")).getD phrase

/-- Why a builder did not match: the rules that it is for, and the rule that it found. -/
structure Mismatch where
  expected : List String
  found : Option String
  deriving DecidableEq, Repr

def Mismatch.message (m : Mismatch) : String :=
  "expected " ++ " | ".intercalate m.expected ++ ", found " ++ textOr "end of input" m.found

/-- What is wrong with a node. -/
inductive FatalCause
  | missingChild (what : String) (found : Option String)
  | extraneous (extra : Site)
  | badLiteral (literal : Malformed)
  /-- The root of the tree is not what is to be built. -/
  | rootMismatch (kind : Kind) (mismatch : Mismatch)
  /-- Groups, arrays and tuples are nested too deep for what is to be built. -/
  | rootTooDeep (kind : Kind)
  /-- A cause in the words of whoever reports it. -/
  | stated (words : String)
  deriving DecidableEq, Repr

/-- A fatal error at a node, if it is about one. -/
structure FatalError where
  site : Option Site
  cause : FatalCause
  deriving DecidableEq, Repr

namespace FatalError

/-- The message without the place. -/
def bare (e : FatalError) : String :=
  let rule := (e.site.map (·.rule)).getD ""
  match e.cause with
  | .missingChild what found =>
    rule ++ ": missing " ++ what ++ ", found " ++ textOr "end of node" found
  | .extraneous extra => rule ++ ": unexpected " ++ extra.rule ++ " " ++ quoted extra.text
  | .badLiteral literal =>
    "bad " ++ rule ++ " literal " ++ quoted ((e.site.map (·.text)).getD "") ++ ": "
      ++ literal.reason.message
  | .rootMismatch kind mismatch => "cannot build " ++ kind.name ++ ": " ++ mismatch.message
  | .rootTooDeep kind => "cannot build " ++ kind.name ++ ": nesting too deep"
  | .stated words => words

/-- The message with the place, as far as it is known. -/
def message (e : FatalError) : String :=
  match e.site.bind (·.place.line), e.site.bind (·.place.column) with
  | none, _ => e.bare
  | some line, none => e.bare ++ " (line " ++ toString line ++ ")"
  | some line, some column =>
    e.bare ++ " (line " ++ toString line ++ ", col " ++ toString column ++ ")"

end FatalError

/-- Why a builder yields no node. -/
inductive Failure
  | noMatch (mismatch : Mismatch)
  | fatal (error : FatalError)
  /-- The nesting allowance is used up. -/
  | tooDeep
  /-- A general kind has no builder. -/
  | noBuilder
  /-- A decoder met one of its limits. -/
  | limit (fault : Fault)
  /-- No sibling is left to go past. -/
  | exhausted
  /-- The cursor has left its queue before it came to its end. -/
  | outside
  /-- No sibling is left to decode. -/
  | nothingToDecode
  /-- What is wrong concerns the owner of a cursor that has none. -/
  | noOwner
  deriving DecidableEq, Repr

end RuleTree
