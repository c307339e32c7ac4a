import RuleTree.Source.Terminal.Width

/-!
# The texts of literals

What the text of a literal token looks like, kind by kind.

* `LiteralKind.Spells` describes the texts of a kind.
* `spells_take_width`: what a terminal takes for a literal is such a text.
-/

namespace RuleTree

/-- The text is the prefix of the radix and at least one of its digits. -/
def Radix.Spells (r : Radix) (text : List Char) : Prop :=
  ∃ digits, r.dropPrefix? text = some digits ∧ digits ≠ [] ∧ ∀ c ∈ digits, r.isDigit c = true

/-- What stands between the quotes of a string: a backslash takes the next character along, and
neither a quote nor a line feed stands by itself. -/
inductive StringContent : List Char → Prop
  | nil : StringContent []
  | escaped {c : Char} {cs : List Char} (hc : c ≠ '\n') (hcs : StringContent cs) :
    StringContent ('\\' :: c :: cs)
  | plain {c : Char} {cs : List Char} (hc : c ≠ '"' ∧ c ≠ '\\' ∧ c ≠ '\n')
    (hcs : StringContent cs) : StringContent (c :: cs)

namespace LiteralKind

/-- The texts of literals of a kind. -/
def Spells (text : List Char) : LiteralKind → Prop
  | decInt => Radix.decimal.Spells text
  | binInt => Radix.binary.Spells text
  | octInt => Radix.octal.Spells text
  | hexInt => Radix.hexadecimal.Spells text
  | float =>
    ∃ (r : Radix) (whole fraction : List Char), text = whole ++ '.' :: fraction ∧ r.Spells whole ∧
      fraction ≠ [] ∧ ∀ c ∈ fraction, isDecimalDigit c = true
  | char =>
    ∃ inside : List Char, text = '\'' :: (inside ++ ['\'']) ∧ ∀ c ∈ inside, c ≠ '\'' ∧ c ≠ '\n'
  | string => ∃ inside : List Char, text = '"' :: (inside ++ ['"']) ∧ StringContent inside

end LiteralKind

/-- The kind of the literals of a radix. -/
def Radix.literalKind : Radix → LiteralKind
  | .binary => .binInt
  | .octal => .octInt
  | .decimal => .decInt
  | .hexadecimal => .hexInt

theorem LiteralKind.cases_radix (k : LiteralKind) :
    k = .float ∨ k = .char ∨ k = .string ∨ ∃ r : Radix, k = r.literalKind := by
  cases k with
  | float => exact .inl rfl
  | char => exact .inr (.inl rfl)
  | string => exact .inr (.inr (.inl rfl))
  | hexInt => exact .inr (.inr (.inr ⟨.hexadecimal, rfl⟩))
  | binInt => exact .inr (.inr (.inr ⟨.binary, rfl⟩))
  | octInt => exact .inr (.inr (.inr ⟨.octal, rfl⟩))
  | decInt => exact .inr (.inr (.inr ⟨.decimal, rfl⟩))

theorem LiteralKind.spells_literalKind {r : Radix} {text : List Char} :
    r.literalKind.Spells text ↔ r.Spells text := by
  cases r <;> rfl

namespace Terminal

theorem take_run (p : Char → Bool) (cs : List Char) : cs.take (run p cs) = cs.takeWhile p :=
  (List.prefix_iff_eq_take.mp (List.takeWhile_prefix p)).symm

theorem mem_takeWhile {p : Char → Bool} {cs : List Char} {c : Char} (h : c ∈ cs.takeWhile p) :
    p c = true :=
  List.all_eq_true.mp List.all_takeWhile c h

theorem spells_run {cs : List Char} (h : run isDecimalDigit cs ≠ 0) :
    Radix.decimal.Spells (cs.take (run isDecimalDigit cs)) := by
  refine ⟨cs.take (run isDecimalDigit cs), rfl, ?_, ?_⟩
  · rw [take_run]
    intro hnil
    exact h (by rw [run, hnil, List.length_nil])
  · rw [take_run]
    intro c hc
    exact mem_takeWhile hc

theorem dropPrefix?_eq_some {r : Radix} (hr : r ≠ .decimal) {cs rest : List Char}
    (h : r.dropPrefix? cs = some rest) :
    ∃ mark, cs = '0' :: mark :: rest ∧ ∀ ds, r.dropPrefix? ('0' :: mark :: ds) = some ds := by
  unfold Radix.dropPrefix? at h ⊢
  split at h
  · rename_i hmarks
    cases r <;> first | exact absurd rfl hr | cases hmarks
  · rename_i lower upper hmarks
    split at h
    · rename_i mark _
      split at h
      · rename_i hmark
        cases h
        exact ⟨mark, rfl, fun ds => if_pos hmark⟩
      · cases h
    · cases h

theorem spells_prefixedWidth {r : Radix} (hr : r ≠ .decimal) {cs : List Char}
    (h : prefixedWidth r cs ≠ 0) : r.Spells (cs.take (prefixedWidth r cs)) := by
  unfold prefixedWidth at h ⊢
  split at h
  · rename_i rest hrest
    obtain ⟨mark, rfl, hdrop⟩ := dropPrefix?_eq_some hr hrest
    split at h
    · exact absurd rfl h
    · rename_i hrun
      rw [if_neg hrun, Nat.add_comm, List.take_succ_cons, List.take_succ_cons, take_run]
      refine ⟨_, hdrop _, fun hnil => hrun (by rw [run, hnil, List.length_nil]), ?_⟩
      intro c hc
      exact mem_takeWhile hc
  · exact absurd rfl h

theorem spells_wholeWidth {cs : List Char} (h : wholeWidth cs ≠ 0) :
    ∃ r : Radix, r.Spells (cs.take (wholeWidth cs)) := by
  unfold wholeWidth at h ⊢
  split
  · rename_i r hr
    have hne : r ≠ .decimal := by
      rintro rfl
      simpa using List.mem_of_find?_eq_some hr
    exact ⟨r, spells_prefixedWidth hne (by simpa using List.find?_some hr)⟩
  · rename_i hnone
    rw [hnone] at h
    exact ⟨.decimal, spells_run h⟩

theorem spells_floatWidth {cs : List Char} (h : floatWidth cs ≠ 0) :
    LiteralKind.float.Spells (cs.take (floatWidth cs)) := by
  simp only [floatWidth] at h ⊢
  split at h
  · rename_i rest hrest
    split at h
    · exact absurd rfl h
    · rename_i hne
      obtain ⟨hwhole, hrun⟩ := not_or.mp hne
      obtain ⟨r, hr⟩ := spells_wholeWidth hwhole
      refine ⟨r, cs.take (wholeWidth cs), rest.takeWhile isDecimalDigit, ?_, hr, ?_, ?_⟩
      · rw [if_neg hne, Nat.add_assoc, List.take_add, hrest, Nat.add_comm 1, List.take_succ_cons,
          take_run]
      · intro hnil
        exact hrun (by rw [run, hnil, List.length_nil])
      · intro c hc
        exact mem_takeWhile hc
  · exact absurd rfl h

theorem spells_charWidth {cs : List Char} (h : charWidth cs ≠ 0) :
    LiteralKind.char.Spells (cs.take (charWidth cs)) := by
  unfold charWidth at h ⊢
  split at h
  · rename_i rest
    simp only at h ⊢
    split at h
    · rename_i hquote
      rw [if_pos hquote]
      obtain ⟨after, hafter⟩ := List.head?_eq_some_iff.mp hquote
      refine ⟨rest.takeWhile fun c => c ≠ '\'' && c ≠ '\n', ?_, ?_⟩
      · rw [List.take_succ_cons, List.take_add, hafter, take_run]
        rfl
      · intro c hc
        simpa using mem_takeWhile hc
    · exact absurd rfl h
  · exact absurd rfl h

theorem take_stringTail? {cs : List Char} {n : Nat} (h : stringTail? cs = some n) :
    ∃ inside, cs.take n = inside ++ ['"'] ∧ StringContent inside := by
  fun_induction stringTail? cs generalizing n with
  | case1 =>
    cases h
    exact ⟨[], rfl, .nil⟩
  | case2 => cases h
  | case3 c cs hc ih =>
    obtain ⟨m, hm, rfl⟩ := Option.map_eq_some_iff.mp h
    obtain ⟨inside, hinside, hcontent⟩ := ih hm
    refine ⟨'\\' :: c :: inside, ?_, .escaped hc hcontent⟩
    rw [List.take_succ_cons, List.take_succ_cons, hinside]
    rfl
  | case4 => cases h
  | case5 c cs hquote _ hc ih =>
    obtain ⟨m, hm, rfl⟩ := Option.map_eq_some_iff.mp h
    obtain ⟨inside, hinside, hcontent⟩ := ih hm
    obtain ⟨hline, hslash⟩ := not_or.mp hc
    refine ⟨c :: inside, ?_, .plain ⟨?_, hslash, hline⟩ hcontent⟩
    · rw [List.take_succ_cons, hinside]
      rfl
    · rintro rfl
      exact hquote rfl
  | case6 => cases h

theorem spells_stringWidth {cs : List Char} (h : stringWidth cs ≠ 0) :
    LiteralKind.string.Spells (cs.take (stringWidth cs)) := by
  unfold stringWidth at h ⊢
  split at h
  · rename_i rest
    cases hn : stringTail? rest with
    | none =>
      rw [hn] at h
      exact absurd rfl h
    | some n =>
      obtain ⟨inside, hinside, hcontent⟩ := take_stringTail? hn
      refine ⟨inside, ?_, hcontent⟩
      rw [Option.map_some, Option.getD_some, List.take_succ_cons, hinside]
  · exact absurd rfl h

theorem spells_take_width {v : Vocabulary} {k : LiteralKind} {cs : List Char}
    (h : (literal k).width v cs ≠ 0) : k.Spells (cs.take ((literal k).width v cs)) := by
  match k with
  | .float => exact spells_floatWidth h
  | .hexInt => exact spells_prefixedWidth (by decide) h
  | .binInt => exact spells_prefixedWidth (by decide) h
  | .octInt => exact spells_prefixedWidth (by decide) h
  | .decInt => exact spells_run h
  | .char => exact spells_charWidth h
  | .string => exact spells_stringWidth h

end Terminal

end RuleTree
