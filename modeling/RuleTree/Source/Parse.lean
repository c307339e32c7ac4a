import RuleTree.Source.ParseError
import RuleTree.Source.Reading.Words
import RuleTree.Source.Scan
import RuleTree.Tree.OfPhrase

/-!
# Parsing

From a source to its rule tree. Words are taken in as they are cut off, so that a word that no
sentence goes on with is reported before a later place where no terminal can stand, and the end of
the source last.
-/

namespace RuleTree

namespace ParseError

/-- The error at a place of the source. -/
def atMark (source : Array Char) (start : Reading.Start) (cause : ParseCause) (m : Mark) :
    ParseError where
  bare := "unexpected input for " ++ start.name
  line := some m.line
  column := some m.column
  context := contextAt source m.offset
  cause := some cause

/-- The error of a source that ends too early. One algorithm reports it as its last word, the other
at no place of the source. -/
def atEnd (kind : ParserKind) (source : Array Char) (start : Reading.Start) (words : List Word) :
    ParseError :=
  match kind with
  | .lalr =>
    atMark source start .token ((words.getLast?.map (·.span.start)).getD .origin)
  | .earley =>
    { bare := "unexpected input for " ++ start.name
      line := some (-1)
      column := some (-1)
      context := contextAt source (-1)
      cause := some .ending }

end ParseError

/-- The sentence that a source is; of several, the first. -/
def parseSentence (kind : ParserKind) (v : Vocabulary) (start : Reading.Start) (source : String) :
    Except ParseError Phrase.Sentence :=
  let scan := Scan.ofSource v source
  let chars := charsOf source
  match Reading.readWords kind start [.initial] scan.words with
  | .error word => .error (.atMark chars start .token word.span.start)
  | .ok states =>
    match scan.failure with
    | some place => .error (.atMark chars start .character place)
    | none =>
      match states.findSome? (·.finish? start) with
      | some sentence => .ok sentence
      | none => .error (.atEnd kind chars start scan.words)

/-- The rule tree of a source. -/
def parseTree (kind : ParserKind) (v : Vocabulary) (start : Reading.Start) (source : String) :
    Except ParseError Tree :=
  (parseSentence kind v start source).map Phrase.Sentence.tree

end RuleTree
