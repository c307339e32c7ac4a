import RuleTree.Literal.Fault
import RuleTree.Text.Blank

/-!
# Character and string literals

Both lose every quote at their two ends, also those that belong to the content, and nothing inside
them is unescaped.
-/

namespace RuleTree

/-- The first character between the quotes of a character literal. -/
def decodeChar (text : String) : Except Fault Char :=
  match trimEnds (· == '\'') text.toList with
  | [] => .error (.malformed ⟨text, .emptyChar, false⟩)
  | c :: _ => .ok c

/-- What stands between the quotes of a string literal. -/
def decodeString (text : String) : String :=
  String.ofList (trimEnds (· == '"') text.toList)

end RuleTree
