import RuleTree.Source.Position

/-!
# Tokens

What a source is made of: literals of seven kinds, punctuation, and the five operators, whose
spelling a vocabulary fixes. A word of the source is one token. It may be read in several ways where
a vocabulary spells different things alike.
-/

namespace RuleTree

/-- The binary operators. -/
inductive Operator
  | add
  | sub
  | mul
  | div
  | pow
  deriving DecidableEq, Repr

namespace Operator

def all : List Operator := [add, sub, mul, div, pow]

/-- The symbol that an operator is known by. -/
def symbol : Operator → String
  | add => "+"
  | sub => "-"
  | mul => "*"
  | div => "/"
  | pow => "**"

theorem mem_all (o : Operator) : o ∈ all := by cases o <;> decide

end Operator

/-- The two pairs of brackets. -/
inductive Bracket
  | round
  | square
  deriving DecidableEq, Repr

/-- The kinds of literal tokens. -/
inductive LiteralKind
  | float
  | hexInt
  | binInt
  | octInt
  | decInt
  | char
  | string
  deriving DecidableEq, Repr

/-- The name of a kind of literal token. -/
def LiteralKind.name : LiteralKind → String
  | float => "FLOAT"
  | hexInt => "HEX_INT"
  | binInt => "BIN_INT"
  | octInt => "OCT_INT"
  | decInt => "DEC_INT"
  | char => "CHAR"
  | string => "STRING"

/-- Whether a literal of the kind gives way to an operator that is spelled like it. -/
def LiteralKind.yields : LiteralKind → Bool
  | decInt => true
  | char => true
  | string => true
  | _ => false

/-- What a token says. -/
inductive Lexeme
  | literal (kind : LiteralKind) (text : String)
  | operator (o : Operator)
  | opening (b : Bracket)
  | closing (b : Bracket)
  | comma
  | semicolon
  deriving DecidableEq, Repr

/-- A lexeme at its place in the source. -/
structure Token where
  lexeme : Lexeme
  span : Span
  deriving DecidableEq, Repr

/-- A stretch of the source that is one token, with the lexemes that it may be read as. -/
structure Word where
  readings : List Lexeme
  span : Span
  deriving DecidableEq, Repr

/-- The tokens that a word may be. -/
def Word.tokens (w : Word) : List Token := w.readings.map (⟨·, w.span⟩)

/-- The word that can only be the token. -/
def Token.word (t : Token) : Word := ⟨[t.lexeme], t.span⟩

/-- The spelling of the operators in a source. -/
structure Vocabulary where
  spelling : Operator → String

namespace Vocabulary

/-- Every operator is written by its own symbol. -/
def standard : Vocabulary := ⟨Operator.symbol⟩

/-- How a lexeme is written. -/
def text (v : Vocabulary) : Lexeme → String
  | .literal _ text => text
  | .operator o => v.spelling o
  | .opening .round => "("
  | .closing .round => ")"
  | .opening .square => "["
  | .closing .square => "]"
  | .comma => ","
  | .semicolon => ";"

/-- The lexemes that are not literals, in the order in which they are preferred for a text that
means several of them. -/
def fixedLexemes : List Lexeme :=
  .comma :: Operator.all.map .operator
    ++ [.semicolon, .opening .round, .closing .round, .opening .square, .closing .square]

/-- The lexemes that a text means by itself: more than one where the spelling of an operator is also
that of another or of punctuation. -/
def meanings (v : Vocabulary) (text : String) : List Lexeme :=
  fixedLexemes.filter fun l => v.text l = text

theorem mem_meanings_iff {v : Vocabulary} {text : String} {l : Lexeme} :
    l ∈ v.meanings text ↔ l ∈ fixedLexemes ∧ v.text l = text := by
  simp [meanings]

theorem meanings_standard : ∀ l ∈ fixedLexemes, standard.meanings (standard.text l) = [l] := by
  decide

end Vocabulary

end RuleTree
