/-!
# Columns in messages
-/

namespace RuleTree

/-- A column as it is written, also when it is not known. -/
def showColumn : Option Int → String
  | some column => toString column
  | none => "None"

end RuleTree
