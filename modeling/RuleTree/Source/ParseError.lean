import RuleTree.Text.Column
import RuleTree.Text.Slice

/-!
# Errors of parsing

A source that is refused is reported with the place of the error and the piece of the source around
it, above a line that points at the place.
-/

namespace RuleTree

/-- How a source was found to be wrong. -/
inductive ParseCause
  /-- No terminal can stand at the place. -/
  | character
  /-- No sentence goes on with the token at the place. -/
  | token
  /-- The source ends before a sentence does. -/
  | ending
  deriving DecidableEq, Repr

/-- The report of a source that is refused. -/
structure ParseError where
  /-- The message without the place. -/
  bare : String
  line : Option Int := none
  column : Option Int := none
  context : String := ""
  cause : Option ParseCause := none
  deriving DecidableEq, Repr

/-- The message with the place, if the line is known. -/
def ParseError.message (e : ParseError) : String :=
  match e.line with
  | none => e.bare
  | some line => e.bare ++ " at line " ++ toString line ++ ", col " ++ showColumn e.column

namespace ParseError

/-- How much of the source is shown on each side of an error. -/
def contextSize : Int := 40

/-- Where the column stands that is reached behind `c` from a column, with tab stops eight apart. -/
def nextColumn (column : Nat) (c : Char) : Nat :=
  if c = '\t' then column + (8 - column % 8) else if c = '\r' then 0 else column + 1

/-- How many columns a character takes at a column. -/
def columnsOf (column : Nat) (c : Char) : Nat :=
  if c = '\t' then 8 - column % 8 else 1

/-- How many columns a text takes that begins at a column. -/
def displayWidth (column : Nat) : List Char → Nat
  | [] => 0
  | c :: cs => columnsOf column c + displayWidth (nextColumn column c) cs

/-- The end of `cs` behind its last line feed. -/
def lastLine (cs : List Char) : List Char :=
  (cs.reverse.takeWhile (· ≠ '\n')).reverse

/-- The beginning of `cs` before its first line feed. -/
def firstLine (cs : List Char) : List Char :=
  cs.takeWhile (· ≠ '\n')

/-- The line around an offset, cut at a distance, and below it a mark under the offset. -/
def contextAt (source : Array Char) (offset : Int) : String :=
  let before := lastLine (slice source (some (max (offset - contextSize) 0)) (some offset))
  let behind := firstLine (slice source (some offset) (some (offset + contextSize)))
  let margin := List.replicate (displayWidth 0 before) ' '
  String.ofList (before ++ behind ++ '\n' :: margin ++ ['^', '\n'])

end ParseError

end RuleTree
