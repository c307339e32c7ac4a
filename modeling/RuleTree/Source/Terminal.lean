import RuleTree.Literal.Integer
import RuleTree.Source.Token

/-!
# Terminals

What can stand at a place of the source: a literal, a fixed lexeme, white space or a comment. The
width of a terminal is how many characters it takes there, and zero where it cannot stand.

* `Vocabulary.terminalAt?` chooses the terminal: the first in the order of `namedTerminals` that can
  stand there, and else the longest fixed lexeme.
-/

namespace RuleTree

/-- A kind of thing that the source is cut into. -/
inductive Terminal
  | literal (kind : LiteralKind)
  | blank
  | comment
  | fixed (lexeme : Lexeme)
  deriving DecidableEq, Repr

namespace Terminal

/-- The number of leading characters in `p`. -/
def run (p : Char → Bool) (cs : List Char) : Nat :=
  (cs.takeWhile p).length

/-- The width of an integer with the prefix of its radix. -/
def prefixedWidth (r : Radix) (cs : List Char) : Nat :=
  match r.dropPrefix? cs with
  | some rest => if run r.isDigit rest = 0 then 0 else 2 + run r.isDigit rest
  | none => 0

/-- The width of the integer part of a float: an integer with prefix or a run of digits. -/
def wholeWidth (cs : List Char) : Nat :=
  match [Radix.hexadecimal, .binary, .octal].find? fun r => prefixedWidth r cs ≠ 0 with
  | some r => prefixedWidth r cs
  | none => run isDecimalDigit cs

/-- The width of a float: the integer part, a point and at least one digit. -/
def floatWidth (cs : List Char) : Nat :=
  let whole := wholeWidth cs
  match cs.drop whole with
  | '.' :: rest =>
    if whole = 0 ∨ run isDecimalDigit rest = 0 then 0 else whole + 1 + run isDecimalDigit rest
  | _ => 0

/-- The width of a character literal: anything but quotes and line feeds between two quotes. -/
def charWidth : List Char → Nat
  | '\'' :: cs =>
    let inside := run (fun c => c ≠ '\'' && c ≠ '\n') cs
    if (cs.drop inside).head? = some '\'' then inside + 2 else 0
  | _ => 0

/-- The width of what follows the opening quote of a string, the closing one included. A backslash
takes the character after it along, and a line feed ends the search. -/
def stringTail? : List Char → Option Nat
  | '"' :: _ => some 1
  | '\\' :: c :: cs => if c = '\n' then none else (stringTail? cs).map (· + 2)
  | c :: cs => if c = '\n' ∨ c = '\\' then none else (stringTail? cs).map (· + 1)
  | [] => none

/-- The width of a string literal. -/
def stringWidth : List Char → Nat
  | '"' :: cs => ((stringTail? cs).map (· + 1)).getD 0
  | _ => 0

/-- The width of a comment, which ends before the next line feed. -/
def commentWidth : List Char → Nat
  | '/' :: '/' :: cs => 2 + run (· ≠ '\n') cs
  | _ => 0

/-- `isLayout c` says whether `c` is white space between tokens. -/
def isLayout (c : Char) : Bool :=
  c = ' ' || c = '\t' || c = '\x0c' || c = '\r' || c = '\n'

/-- The width of a terminal at the beginning of `cs`. -/
def width (v : Vocabulary) (cs : List Char) : Terminal → Nat
  | literal .float => floatWidth cs
  | literal .hexInt => prefixedWidth .hexadecimal cs
  | literal .binInt => prefixedWidth .binary cs
  | literal .octInt => prefixedWidth .octal cs
  | literal .decInt => run isDecimalDigit cs
  | literal .char => charWidth cs
  | literal .string => stringWidth cs
  | blank => run isLayout cs
  | comment => commentWidth cs
  | fixed lexeme =>
    let text := (v.text lexeme).toList
    if text.isPrefixOf cs then text.length else 0

/-- The lexemes that a terminal with the given text may be read as; white space and comments are
not read. -/
def readings (v : Vocabulary) (text : String) : Terminal → List Lexeme
  | literal kind =>
    if kind.yields ∧ v.meanings text ≠ [] then v.meanings text else [.literal kind text]
  | fixed _ => v.meanings text
  | blank => []
  | comment => []

end Terminal

/-- A terminal and the number of characters that it takes. -/
structure TerminalMatch where
  terminal : Terminal
  width : Nat
  width_pos : 0 < width

/-- The terminals other than fixed lexemes, in the order in which they are tried. -/
def namedTerminals : List Terminal :=
  [.literal .float, .literal .hexInt, .literal .binInt, .literal .octInt, .literal .char,
    .literal .string, .comment, .literal .decInt, .blank]

namespace Vocabulary

/-- `t` at the beginning of `cs`, if it can stand there. -/
def matchAt? (v : Vocabulary) (cs : List Char) (t : Terminal) : Option TerminalMatch :=
  if h : 0 < t.width v cs then some ⟨t, t.width v cs, h⟩ else none

/-- The widest of some matches, the first of those that are equally wide. -/
def widest? : List TerminalMatch → Option TerminalMatch
  | [] => none
  | m :: ms =>
    match widest? ms with
    | some n => if m.width < n.width then some n else some m
    | none => some m

/-- The terminal that is taken at the beginning of `cs`. -/
def terminalAt? (v : Vocabulary) (cs : List Char) : Option TerminalMatch :=
  (namedTerminals.findSome? (v.matchAt? cs)).or
    (widest? ((fixedLexemes.map Terminal.fixed).filterMap (v.matchAt? cs)))

end Vocabulary

end RuleTree
