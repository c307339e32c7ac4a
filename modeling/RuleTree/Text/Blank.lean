import RuleTree.Text.CodeRanges

/-!
# White space

The characters that count as white space when a setting is read, and a text without those at its
ends.
-/

namespace RuleTree

/-- The white space characters: the bidirectional classes "white space", "paragraph separator" and
"segment separator", and the separators of Unicode. -/
def blankRanges : CodeRanges :=
  [(0x09, 0x0d), (0x1c, 0x20), (0x85, 0x85), (0xa0, 0xa0), (0x1680, 0x1680), (0x2000, 0x200a),
  (0x2028, 0x2029), (0x202f, 0x202f), (0x205f, 0x205f), (0x3000, 0x3000)]

/-- `isBlank c` says whether `c` is white space. -/
def isBlank (c : Char) : Bool :=
  blankRanges.contains c

/-- A list without the elements in `p` at its two ends. -/
def trimEnds {α : Type} (p : α → Bool) (xs : List α) : List α :=
  ((xs.dropWhile p).reverse.dropWhile p).reverse

/-- The text without white space at its ends. -/
def trimBlank (text : String) : String :=
  String.ofList (trimEnds isBlank text.toList)

end RuleTree
