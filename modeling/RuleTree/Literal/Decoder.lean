import RuleTree.Literal.Float
import RuleTree.Literal.Quotation

/-!
# Decoders of literals

The decoders as values, for callers that choose one at run time.
-/

namespace RuleTree

/-- A way to read the text of a literal. -/
inductive Decoder
  | integer (base : Int)
  | float
  | radixFloat
  | char
  | string
  deriving DecidableEq, Repr

/-- The value of a literal. -/
inductive Decoded
  | integer (value : Int)
  | float (value : Binary64)
  | text (value : String)
  deriving DecidableEq

/-- The value that the decoder gives a text. -/
def Decoder.run (decoder : Decoder) (text : String) : Except Fault Decoded :=
  match decoder with
  | integer base => (decodeInteger base text).map .integer
  | float => (decodeFloat text).map .float
  | radixFloat => (decodeRadixFloat text).map .float
  | char => (decodeChar text).map fun c => .text (String.singleton c)
  | string => .ok (.text (decodeString text))

end RuleTree
