import RuleTree.Text.LetterCase

/-!
# Lower case

The lower-case form of a text. Every character is mapped on its own, but for the capital sigma,
which at the end of a word becomes the final small sigma.
-/

namespace RuleTree

/-- The lower-case form of a character, whatever stands around it. -/
def lowerChar (c : Char) : List Char :=
  if c = '\u0130' then ['i', '\u0307']
  else match caseBlocks.find? (·.covers c.toNat) with
    | some b => [Char.ofNat (c.toNat + b.shift).toNat]
    | none => [c]

/-- The first character that is not case-ignorable is cased. -/
def startsCased (cs : List Char) : Bool :=
  match cs.dropWhile caseIgnorableRanges.contains with
  | [] => false
  | c :: _ => casedRanges.contains c

/-- A sigma is final between `before`, read backwards, and `after` when a cased letter stands before
it and none after it. -/
def isFinalSigma (before after : List Char) : Bool :=
  startsCased before && !startsCased after

/-- Lower-cases `after`, of which `before` is the part already read, backwards. -/
def lowerFrom (before : List Char) : List Char → List Char
  | [] => []
  | c :: after =>
    (if c = '\u03a3' then [if isFinalSigma before after then '\u03c2' else '\u03c3']
      else lowerChar c) ++ lowerFrom (c :: before) after

/-- The text in lower case. -/
def lowerCase (text : String) : String :=
  String.ofList (lowerFrom [] text.toList)

end RuleTree
