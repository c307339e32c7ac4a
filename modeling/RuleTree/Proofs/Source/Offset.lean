import Mathlib.Data.List.Induction
import RuleTree.Source.Position

/-!
# Places by their offsets

A place in a text is known by its offset alone. Its line is one more than the number of line feeds
before it, and its column counts from behind the last of them.

* `Mark.ofOffset`: the place at an offset of a text.
* `Mark.origin_after`: going over a text from its beginning leads to the place at its end.
* `Mark.within`: a place of a text, where the text begins at a place of another one. By
  `Mark.within_after` going over characters there comes to the same.
-/

namespace RuleTree

/-- The index just behind the last line feed of a text, or zero if there is none. -/
def lineStart (cs : List Char) : Nat := cs.length - cs.reverse.idxOf '\n'

theorem lineStart_concat (cs : List Char) (c : Char) :
    lineStart (cs ++ [c]) = if c = '\n' then cs.length + 1 else lineStart cs := by
  by_cases hc : c = '\n'
  · simp [lineStart, hc]
  · have hidx : (c :: cs.reverse).idxOf '\n' = cs.reverse.idxOf '\n' + 1 := by
      rw [List.idxOf_cons, beq_false_of_ne hc, cond_false]
    rw [if_neg hc, lineStart, lineStart, List.reverse_concat, hidx, List.length_append,
      List.length_singleton]
    omega

theorem lineStart_le_length (cs : List Char) : lineStart cs ≤ cs.length := by
  unfold lineStart
  omega

namespace Mark

/-- The place at an offset of a text. -/
def ofOffset (cs : List Char) (n : Nat) : Mark where
  offset := n
  line := 1 + (cs.take n).count '\n'
  column := n - lineStart (cs.take n) + 1

theorem ofOffset_length (cs : List Char) :
    Mark.ofOffset cs cs.length = ⟨cs.length, 1 + cs.count '\n', cs.length - lineStart cs + 1⟩ := by
  rw [Mark.ofOffset, List.take_length]

theorem ofOffset_append {cs : List Char} {n : Nat} (h : n ≤ cs.length) (ds : List Char) :
    Mark.ofOffset (cs ++ ds) n = Mark.ofOffset cs n := by
  rw [Mark.ofOffset, Mark.ofOffset, List.take_append_of_le_length h]

theorem after_concat (m : Mark) (cs : List Char) (c : Char) :
    m.after (cs ++ [c]) = (m.after cs).next c :=
  m.after_append cs [c]

theorem origin_after (cs : List Char) : origin.after cs = Mark.ofOffset cs cs.length := by
  induction cs using List.reverseRecOn with
  | nil => rfl
  | append_singleton cs c ih =>
    have hle := lineStart_le_length cs
    rw [after_concat, ih, ofOffset_length, ofOffset_length, lineStart_concat, next]
    by_cases hc : c = '\n'
    · simp [hc, Nat.add_assoc]
    · simp [hc]
      omega

theorem origin_after_eq_ofOffset (cs ds : List Char) :
    origin.after cs = Mark.ofOffset (cs ++ ds) cs.length := by
  rw [origin_after, ofOffset_append (Nat.le_refl _)]

/-! ### Places of a text inside another -/

/-- The place `k` of a text that begins at the place `m` of another, as a place of the other. Only
on its first line are the columns different. -/
def within (m k : Mark) : Mark where
  offset := k.offset + m.offset
  line := k.line + (m.line - 1)
  column := if k.line = 1 then k.column + (m.column - 1) else k.column

/-- A place that lines and columns are counted for from one. -/
structure Real (m : Mark) : Prop where
  line_pos : 0 < m.line
  column_pos : 0 < m.column

theorem real_origin : origin.Real := ⟨Nat.one_pos, Nat.one_pos⟩

theorem real_ofOffset (cs : List Char) (n : Nat) : (Mark.ofOffset cs n).Real :=
  ⟨Nat.add_pos_left Nat.one_pos _, Nat.succ_pos _⟩

theorem Real.next {m : Mark} (h : m.Real) (c : Char) : (m.next c).Real := by
  unfold Mark.next
  split
  · exact ⟨Nat.succ_pos _, Nat.one_pos⟩
  · exact ⟨h.line_pos, Nat.succ_pos _⟩

theorem Real.after {m : Mark} (h : m.Real) (cs : List Char) : (m.after cs).Real := by
  induction cs using List.reverseRecOn with
  | nil => exact h
  | append_singleton cs c ih =>
    rw [after_concat]
    exact ih.next c

theorem within_origin {m : Mark} (h : m.Real) : m.within origin = m := by
  have hline : 1 + (m.line - 1) = m.line := by have := h.line_pos; omega
  have hcolumn : 1 + (m.column - 1) = m.column := by have := h.column_pos; omega
  rw [within, origin, if_pos rfl, hline, hcolumn, Nat.zero_add]

theorem within_next (m : Mark) {k : Mark} (hk : k.Real) (c : Char) :
    m.within (k.next c) = (m.within k).next c := by
  have hline := hk.line_pos
  by_cases hc : c = '\n'
  · have hne : k.line + 1 ≠ 1 := by omega
    simp only [within, next, if_pos hc, if_neg hne, Mark.mk.injEq, and_true]
    omega
  · by_cases hfirst : k.line = 1
    · simp only [within, next, if_neg hc, if_pos hfirst, Mark.mk.injEq, true_and]
      omega
    · simp only [within, next, if_neg hc, if_neg hfirst, Mark.mk.injEq, and_true]
      omega

theorem within_after (m : Mark) {k : Mark} (hk : k.Real) (cs : List Char) :
    m.within (k.after cs) = (m.within k).after cs := by
  induction cs using List.reverseRecOn with
  | nil => rfl
  | append_singleton cs c ih => rw [after_concat, after_concat, within_next m (hk.after cs), ih]

end Mark

end RuleTree
