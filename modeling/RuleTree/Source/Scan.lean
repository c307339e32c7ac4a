import RuleTree.Source.Terminal

/-!
# Cutting a source into words

A source is cut into terminals from its beginning on, up to its end or to the first place where none
can stand. White space and comments leave no word.
-/

namespace RuleTree

/-- What cutting a source into words yields. -/
structure Scan where
  words : List Word
  /-- The place where no terminal can stand, if the source was not cut to its end. -/
  failure : Option Mark
  deriving DecidableEq, Repr

namespace Scan

/-- Cuts a text that begins at `m`. -/
def ofChars (v : Vocabulary) (m : Mark) : List Char → Scan
  | [] => ⟨[], none⟩
  | c :: cs =>
    match v.terminalAt? (c :: cs) with
    | none => ⟨[], some m⟩
    | some found =>
      let text := (c :: cs).take found.width
      let rest := ofChars v (m.after text) ((c :: cs).drop found.width)
      match found.terminal.readings v (String.ofList text) with
      | [] => rest
      | readings => ⟨⟨readings, m, m.after text⟩ :: rest.words, rest.failure⟩
termination_by cs => cs.length
decreasing_by
  have := found.width_pos
  simp only [List.length_drop, List.length_cons]
  omega

/-- Cuts a source. -/
def ofSource (v : Vocabulary) (source : String) : Scan :=
  ofChars v .origin source.toList

end Scan

end RuleTree
