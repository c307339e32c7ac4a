import RuleTree.Text.Blank
import RuleTree.Text.LowerCase
import RuleTree.Text.Quoted

/-!
# Settings

What a caller can choose: the parsing algorithm, the file of the grammar and how float literals are
read. The settings can also be taken from environment variables.
-/

namespace RuleTree

/-- The parsing algorithm. They differ in how they report a source that ends too early, and in what
they make of a source that operators with the spelling of other words leave open. -/
inductive ParserKind
  | lalr
  | earley
  deriving DecidableEq, Repr

namespace ParserKind

def name : ParserKind → String
  | lalr => "lalr"
  | earley => "earley"

def all : List ParserKind := [lalr, earley]

/-- The algorithm of a given name. -/
def ofName? (name : String) : Option ParserKind :=
  all.find? (·.name == name)

theorem ofName?_name (k : ParserKind) : ofName? k.name = some k := by cases k <;> decide

end ParserKind

/-- What a caller can choose. -/
structure Settings where
  parser : ParserKind := .lalr
  /-- The file of the grammar; none, or an empty path, for the packaged one. -/
  grammarPath : Option String := none
  /-- Whether the integer part of a float literal may carry the prefix of a radix. -/
  radixFloats : Bool := false
  deriving DecidableEq, Repr

/-- Why a request is refused before anything is read. -/
inductive RequestError
  | unknownParser (name : String)
  | unknownStart (name : String)
  | grammarNotFound (path : String)
  deriving DecidableEq, Repr

namespace RequestError

def message : RequestError → String
  | unknownParser name =>
    "unknown parser kind " ++ quoted name ++ "; expected one of "
      ++ ", ".intercalate (ParserKind.all.map (·.name))
  | unknownStart name => "unknown start symbol " ++ quoted name
  | grammarNotFound path => "grammar file not found: " ++ path

end RequestError

namespace Settings

/-- Settings with the parsing algorithm given by its name. -/
def make (parser : String) (grammarPath : Option String) (radixFloats : Bool) :
    Except RequestError Settings :=
  match ParserKind.ofName? parser with
  | some kind => .ok ⟨kind, grammarPath, radixFloats⟩
  | none => .error (.unknownParser parser)

/-- The words that switch a flag on. -/
def flagWords : List String := ["1", "true", "yes"]

/-- The settings that a set of environment variables asks for. White space around a value and its
letter case do not matter, except in the path of the grammar, and an empty path asks for the
packaged grammar. -/
def ofEnvironment (lookup : String → Option String) : Except RequestError Settings :=
  let word (value : String) := lowerCase (trimBlank value)
  make (((lookup "TESSEL_PARSER").map word).getD ParserKind.lalr.name)
    ((lookup "TESSEL_GRAMMAR").filter (· ≠ ""))
    ((lookup "TESSEL_RADIX_FLOATS").any fun value => flagWords.contains (word value))

end Settings

/-- What the grammar at a path is: the packaged one where no path is given, and otherwise what the
path leads to. -/
def locateGrammar {α : Type} (packaged : α) (files : String → Option α) (path : Option String) :
    Except RequestError α :=
  match path with
  | none => .ok packaged
  | some path =>
    if path = "" then .ok packaged
    else match files path with
      | some grammar => .ok grammar
      | none => .error (.grammarNotFound path)

end RuleTree
