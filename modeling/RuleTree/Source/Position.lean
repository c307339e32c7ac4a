/-!
# Positions in a source text

A place in a source text is known by its offset and by its line and column. Only a line feed begins
a new line.
-/

namespace RuleTree

/-- A place between two characters of a source text. -/
structure Mark where
  /-- The number of characters before it. -/
  offset : Nat
  /-- The line it is on, counted from one. -/
  line : Nat
  /-- The column it is at, counted from one. -/
  column : Nat
  deriving DecidableEq, Repr

namespace Mark

/-- The beginning of a text. -/
def origin : Mark := ⟨0, 1, 1⟩

/-- The place behind a character. -/
def next (m : Mark) (c : Char) : Mark :=
  if c = '\n' then ⟨m.offset + 1, m.line + 1, 1⟩ else ⟨m.offset + 1, m.line, m.column + 1⟩

/-- The place behind a run of characters. -/
def after (m : Mark) (cs : List Char) : Mark :=
  cs.foldl next m

theorem after_nil (m : Mark) : m.after [] = m := rfl

theorem after_append (m : Mark) (cs ds : List Char) :
    m.after (cs ++ ds) = (m.after cs).after ds :=
  List.foldl_append

theorem offset_after (m : Mark) (cs : List Char) : (m.after cs).offset = m.offset + cs.length := by
  induction cs generalizing m with
  | nil => rfl
  | cons c cs ih =>
    rw [after, List.foldl_cons, ← after, ih, List.length_cons]
    by_cases h : c = '\n' <;> simp [next, h] <;> omega

end Mark

/-- A stretch of a source text. -/
structure Span where
  start : Mark
  stop : Mark
  deriving DecidableEq, Repr

/-- The stretch from the start of one to the end of another. -/
def Span.through (first last : Span) : Span := ⟨first.start, last.stop⟩

end RuleTree
