import RuleTree.Convert
import RuleTree.Session
import RuleTree.Source.GrammarText
import RuleTree.Source.Reading.Tokens
import RuleTree.Source.Spelling
import RuleTree.Source.Terminal.Width
import RuleTree.Proofs.Builder.Protocol
import RuleTree.Proofs.Conversion.Limit
import RuleTree.Proofs.Builder.Agreement
import RuleTree.Proofs.Builder.Recursion
import RuleTree.Proofs.Conversion.Whole
import RuleTree.Proofs.Conversion.Written
import RuleTree.Proofs.Source.Excerpt
import RuleTree.Proofs.Grammar.Parts
import RuleTree.Proofs.Source.Truncation
import RuleTree.Proofs.Tree.Regions
import RuleTree.Proofs.Conversion.Subexpression
import RuleTree.Proofs.Conversion.Rejection
import RuleTree.Proofs.Conversion.ErrorPlace
import RuleTree.Proofs.Conversion.Acceptance
import RuleTree.Proofs.Conversion.Passage
import RuleTree.Proofs.Queue.Walk
import RuleTree.Proofs.Queue.Preorder
import RuleTree.Proofs.Conversion.RadixFloats
import RuleTree.Proofs.Conversion.Sourceless
import RuleTree.Proofs.Conversion.Concatenation
import RuleTree.Proofs.Conversion.Respelling
import RuleTree.Proofs.Literal.RadixFloat
import RuleTree.Proofs.Literal.Minus
import RuleTree.Proofs.Literal.Quotation
import RuleTree.Proofs.Source.Longest
import RuleTree.Proofs.Conversion.Run
import RuleTree.Proofs.Conversion.Allowance
import RuleTree.Proofs.Queue.Faithful
