import RuleTree.Proofs.Source.Truncation

/-!
# The longest match

The terminals are tried in an order, and the first that can stand in a place is taken, whatever the
others would take there. In the standard vocabulary this is never less than they would take: what is
taken is longer than all else that can stand in the place.

Two terminals that begin alike are two numbers, a comment and a division, or two operators
(`Terminal.cases_of_openers`). No number goes on as one that is tried later
(`LiteralKind.Spells.not_begins`), and of the fixed lexemes the longest is taken anyhow.

* `Terminal.Stands`: the texts of a terminal in a place.
* `Vocabulary.Takes.length_lt`: where a terminal is taken, every other one has shorter texts only.
* `terminalAt?_longest`: where terminals can stand, one is taken, and it takes more than any other.
-/

namespace RuleTree

open Vocabulary

/-- All terminals. -/
def terminals : List Terminal := namedTerminals ++ fixedLexemes.map .fixed

/-- One of the texts of the terminal stands at the beginning of `cs`. -/
def Terminal.Stands (v : Vocabulary) (cs text : List Char) (t : Terminal) : Prop :=
  t.Spells v text ∧ text <+: cs

variable {cs text text' rest : List Char} {t u : Terminal} {v : Vocabulary}

theorem Terminal.Stands.length_le (h : t.Stands v cs text) : text.length ≤ t.width v cs := by
  obtain ⟨hspells, rest, rfl⟩ := h
  exact length_le_width hspells rest

theorem Terminal.stands_take (h : t.width v cs ≠ 0) :
    t.Stands v cs (cs.take (t.width v cs)) :=
  ⟨spells_take h, List.take_prefix _ _⟩

theorem Vocabulary.Takes.stands (h : v.Takes t text rest) : t.Stands v (text ++ rest) text := by
  have hne : t.width v (text ++ rest) ≠ 0 := by
    rw [h.width_eq]
    exact List.length_pos_iff.mpr h.ne_nil |>.ne'
  have hstands := Terminal.stands_take hne
  rwa [h.width_eq, List.take_left] at hstands

/-! ### Numbers -/

theorem LiteralKind.number_cases {k : LiteralKind} (hk : k.isQuoted = false) :
    k = .float ∨ ∃ r : Radix, k = r.literalKind := by
  rcases k.cases_radix with rfl | rfl | rfl | hr
  · exact .inl rfl
  · cases hk
  · cases hk
  · exact .inr hr

theorem LiteralKind.Spells.exists_digit {k : LiteralKind} (hk : k.isQuoted = false)
    (h : k.Spells text) : ∃ c cs, text = c :: cs ∧ isDecimalDigit c = true := by
  rcases number_cases hk with rfl | ⟨r, rfl⟩
  · obtain ⟨r, whole, fraction, rfl, hwhole, -⟩ := h
    obtain ⟨c, cs, rfl, hc⟩ := hwhole.exists_head
    exact ⟨c, _, rfl, hc⟩
  · exact (spells_literalKind.mp h).exists_head

theorem Radix.Spells.not_begins {r r' : Radix} (hr : r ≠ .decimal) (hne : r ≠ r')
    (h : r.Spells text) (h' : r'.Spells text') : ¬text <+: text' := by
  rintro ⟨rest, rfl⟩
  have hle := Terminal.length_le_prefixedWidth hr h rest
  have hzero : Terminal.prefixedWidth r ((text ++ rest) ++ []) = 0 :=
    Terminal.prefixedWidth_of_ne hr hne h' (by simp)
  obtain ⟨c, cs, rfl, -⟩ := h.exists_head
  rw [List.append_nil] at hzero
  simp only [List.length_cons] at hle
  omega

theorem LiteralKind.Spells.not_begins {k k' : LiteralKind} (hk : k.isQuoted = false)
    (hk' : k'.isQuoted = false) (hne : k ≠ k')
    (hlater : .literal k' ∉ namedTerminals.takeWhile (· ≠ .literal k)) (h : k.Spells text)
    (h' : k'.Spells text') : ¬text <+: text' := by
  rcases number_cases hk with rfl | ⟨r, rfl⟩ <;> rcases number_cases hk' with rfl | ⟨r', rfl⟩
  · exact absurd rfl hne
  · -- there is a point in a float, and none in an integer
    obtain ⟨-, whole, fraction, rfl, -⟩ := h
    intro hbegins
    exact ne_point_of_spells (spells_literalKind.mp h') '.' (hbegins.subset (by simp)) rfl
  · exact absurd (by cases r <;> decide) hlater
  · by_cases hr : r = .decimal
    · subst hr
      have hr' : r' ≠ .decimal := by
        rintro rfl
        exact hne rfl
      exact absurd (by cases r' <;> first | decide | exact absurd rfl hr') hlater
    · refine (spells_literalKind.mp h).not_begins hr ?_ (spells_literalKind.mp h')
      rintro rfl
      exact hne rfl

/-! ### How terminals begin -/

namespace Terminal

/-- Whether the terminal is that of a number. -/
def isNumber : Terminal → Bool
  | literal k => !k.isQuoted
  | _ => false

theorem exists_literal_of_isNumber (h : t.isNumber = true) :
    ∃ k, t = literal k ∧ k.isQuoted = false := by
  cases t with
  | literal k => exact ⟨k, rfl, by simpa [isNumber] using h⟩
  | _ => cases h

/-- The characters that a text of the terminal can begin with. -/
def openers : Terminal → List Char
  | literal .char => ['\'']
  | literal .string => ['"']
  | literal _ => "0123456789".toList
  | blank => [' ', '\t', '\x0c', '\r', '\n']
  | comment => ['/']
  | fixed l => (standard.text l).toList.take 1

theorem exists_opener (ht : t ∈ terminals) (h : t.Spells .standard text) :
    ∃ c ∈ t.openers, text.head? = some c := by
  cases t with
  | literal k =>
    by_cases hk : k.isQuoted = true
    · cases k with
      | char =>
        obtain ⟨inside, rfl, -⟩ := h
        exact ⟨'\'', by decide, rfl⟩
      | string =>
        obtain ⟨inside, rfl, -⟩ := h
        exact ⟨'"', by decide, rfl⟩
      | _ => cases hk
    · obtain ⟨c, cs, rfl, hc⟩ := LiteralKind.Spells.exists_digit (by simpa using hk) h
      have hopeners : (literal k).openers = "0123456789".toList := by
        cases k <;> first | rfl | exact absurd rfl hk
      refine ⟨c, ?_, rfl⟩
      rw [hopeners]
      exact forall_isDecimalDigit (p := fun c => c ∈ "0123456789".toList) (by decide) hc
  | blank =>
    obtain ⟨hne, hlayout⟩ := h
    cases text with
    | nil => exact absurd rfl hne
    | cons c cs => exact ⟨c, by simpa [isLayout, openers, or_assoc] using hlayout c, rfl⟩
  | comment =>
    obtain ⟨inside, rfl, -⟩ := h
    exact ⟨'/', by decide, rfl⟩
  | fixed l =>
    have hl : l ∈ fixedLexemes := by simpa [terminals, namedTerminals] using ht
    obtain ⟨c, cs, htext⟩ := List.exists_cons_of_ne_nil (text_standard_ne_nil l hl)
    have hspells : text = (standard.text l).toList := h
    rw [hspells, openers, htext]
    exact ⟨c, List.mem_cons_self, rfl⟩

theorem Stands.ne_nil (h : t.Stands .standard cs text) (ht : t ∈ terminals) : text ≠ [] := by
  obtain ⟨c, -, hhead⟩ := exists_opener ht h.1
  rintro rfl
  cases hhead

theorem Stands.width_ne_zero (h : t.Stands .standard cs text) (ht : t ∈ terminals) :
    t.width .standard cs ≠ 0 := by
  have hpos := List.length_pos_iff.mpr (h.ne_nil ht)
  have hle := h.length_le
  omega

theorem Stands.exists_opener (h : t.Stands .standard cs text) (ht : t ∈ terminals) :
    ∃ c ∈ t.openers, cs.head? = some c := by
  obtain ⟨hspells, rest, rfl⟩ := h
  obtain ⟨c, hc, hhead⟩ := Terminal.exists_opener ht hspells
  obtain ⟨cs, rfl⟩ := List.head?_eq_some_iff.mp hhead
  exact ⟨c, hc, rfl⟩

theorem openers_apart : (namedTerminals.all fun t => terminals.all fun u =>
    t = u || t.isNumber && u.isNumber || t = .comment && u = .fixed (.operator .div) ||
      t.openers.all fun c => !u.openers.contains c) = true := by
  decide +kernel

/-- Two terminals that begin alike, and are not both fixed lexemes, are two numbers or a comment and
a division. -/
theorem cases_of_openers {c : Char} (ht : t ∈ namedTerminals) (hu : u ∈ terminals)
    (hc : c ∈ t.openers) (hc' : c ∈ u.openers) :
    t = u ∨ (t.isNumber = true ∧ u.isNumber = true) ∨
      (t = .comment ∧ u = .fixed (.operator .div)) := by
  have h := List.all_eq_true.mp (List.all_eq_true.mp openers_apart t ht) u hu
  simp only [Bool.or_eq_true, Bool.and_eq_true, decide_eq_true_iff, or_assoc] at h
  rcases h with heq | hnumbers | hslash | hapart
  · exact .inl heq
  · exact .inr (.inl hnumbers)
  · exact .inr (.inr hslash)
  · have hnot := List.all_eq_true.mp hapart c hc
    simp [hc'] at hnot

end Terminal

/-! ### What is taken -/

namespace Vocabulary

theorem Takes.length_lt_of_fixed {l : Lexeme} (h : standard.Takes (.fixed l) text rest)
    (hu : u ∈ terminals) (hne : u ≠ .fixed l)
    (hstands : u.Stands .standard (text ++ rest) text') : text'.length < text.length := by
  rcases List.mem_append.mp hu with hu' | hu'
  · exact absurd (h.width_eq_zero u hu') (hstands.width_ne_zero hu)
  · obtain ⟨l', hl', rfl⟩ := List.mem_map.mp hu'
    obtain ⟨rfl, hbegins⟩ := hstands
    have hle := h.length_le hl' hbegins
    rw [h.eq_text] at hbegins hle ⊢
    by_contra hlt
    exact hne (congrArg _ (eq_of_length h.mem_fixedLexemes hl' hbegins (by omega)))

/-- Where a terminal is taken, every other one has shorter texts only. -/
theorem Takes.length_lt (h : standard.Takes t text rest) (hu : u ∈ terminals) (hne : u ≠ t)
    (hstands : u.Stands .standard (text ++ rest) text') : text'.length < text.length := by
  rcases h.fixed_or_named with ⟨l, -, rfl⟩ | ⟨ht, hbefore⟩
  · exact h.length_lt_of_fixed hu hne hstands
  obtain ⟨c, hc, hhead⟩ := hstands.exists_opener hu
  obtain ⟨d, hd, hhead'⟩ := h.stands.exists_opener (List.mem_append_left _ ht)
  have hcd : c = d := Option.some.inj (hhead.symm.trans hhead')
  rcases Terminal.cases_of_openers ht hu hd (hcd ▸ hc) with heq | ⟨hnumber, hnumber'⟩ | ⟨rfl, rfl⟩
  · exact absurd heq.symm hne
  · obtain ⟨k, rfl, hk⟩ := Terminal.exists_literal_of_isNumber hnumber
    obtain ⟨k', rfl, hk'⟩ := Terminal.exists_literal_of_isNumber hnumber'
    have hlater : .literal k' ∉ namedTerminals.takeWhile (· ≠ .literal k) :=
      fun hmem => hstands.width_ne_zero hu (hbefore _ hmem)
    -- else the number that is taken would begin the other one
    by_contra hlt
    refine LiteralKind.Spells.not_begins hk hk' ?_ hlater h.stands.1 hstands.1 ?_
    · rintro rfl
      exact hne rfl
    · exact List.prefix_of_prefix_length_le h.stands.2 hstands.2 (by omega)
  · obtain ⟨inside, rfl, -⟩ := h.stands.1
    rw [show text' = ['/'] from hstands.1]
    simp

theorem Takes.mem_terminals (h : v.Takes t text rest) : t ∈ terminals := by
  rcases h.fixed_or_named with ⟨l, hl, rfl⟩ | ⟨ht, -⟩
  · exact List.mem_append_right _ (List.mem_map.mpr ⟨l, hl, rfl⟩)
  · exact List.mem_append_left _ ht

theorem exists_terminalAt? (ht : t ∈ terminals) (h : t.width v cs ≠ 0) :
    ∃ found, v.terminalAt? cs = some found := by
  refine Option.ne_none_iff_exists'.mp fun hnone => h ?_
  obtain ⟨hnamed, hfixed⟩ := Option.or_eq_none_iff.mp hnone
  rcases List.mem_append.mp ht with ht | ht
  · exact width_eq_zero_of_matchAt? (List.findSome?_eq_none_iff.mp hnamed t ht)
  · have hempty := eq_nil_of_widest? hfixed
    exact width_eq_zero_of_matchAt? (List.filterMap_eq_nil_iff.mp hempty t ht)

end Vocabulary

/-- **The longest match is taken.** Wherever in a source any terminal can stand, one is taken, for a
text of its own that is not empty; and what any other terminal takes there, or could take, is
shorter. So the order of the terminals cuts nothing short, and no two of them tie. -/
theorem terminalAt?_longest (source : String) (i : Nat)
    (h : ∃ t ∈ terminals, ∃ text, t.Stands .standard (source.toList.drop i) text) :
    ∃ found, standard.terminalAt? (source.toList.drop i) = some found ∧
      found.terminal ∈ terminals ∧ 0 < found.width ∧
      found.terminal.Stands .standard (source.toList.drop i)
        ((source.toList.drop i).take found.width) ∧
      ∀ u ∈ terminals, u ≠ found.terminal →
        u.width .standard (source.toList.drop i) < found.width ∧
        ∀ text, u.Stands .standard (source.toList.drop i) text → text.length < found.width := by
  obtain ⟨t, ht, text, hstands⟩ := h
  obtain ⟨found, hfound⟩ := exists_terminalAt? ht (hstands.width_ne_zero ht)
  obtain ⟨taken, rest, hsplit, htakes⟩ := exists_takes hfound
  have hwidth : found.width = taken.length := by
    rw [(terminalAt?_eq_some hfound).1, hsplit, htakes.width_eq]
  rw [hsplit] at hfound ⊢
  refine ⟨found, hfound, htakes.mem_terminals, found.width_pos, ?_, fun u hu hne => ?_⟩
  · rw [hwidth, List.take_left]
    exact htakes.stands
  · have hshorter (text : List Char) (hstands : u.Stands .standard (taken ++ rest) text) :
        text.length < found.width := hwidth ▸ htakes.length_lt hu hne hstands
    refine ⟨?_, hshorter⟩
    by_cases hzero : u.width .standard (taken ++ rest) = 0
    · rw [hzero]
      exact found.width_pos
    · have hlength := hshorter _ (Terminal.stands_take hzero)
      have hbound := Terminal.width_le_length .standard (taken ++ rest) u
      rwa [List.length_take, Nat.min_eq_left hbound] at hlength

/-- Behind a power a float with the prefix of a radix is taken, though an integer with this prefix
and a decimal integer can stand there, too. -/
theorem terminalAt?_longest_power :
    (∃ t ∈ terminals, ∃ text, t.Stands .standard ("2**0x1F.5//".toList.drop 3) text) ∧
    ∃ found, standard.terminalAt? ("2**0x1F.5//".toList.drop 3) = some found ∧
      found.terminal = .literal .float ∧
      (Terminal.literal .hexInt).width .standard ("2**0x1F.5//".toList.drop 3) < found.width := by
  have hstands : (Terminal.literal .decInt).Stands .standard ("2**0x1F.5//".toList.drop 3) ['0'] :=
    ⟨⟨['0'], rfl, by simp, List.forall_mem_singleton.mpr (by decide)⟩, "x1F.5//".toList, by decide⟩
  have hsome : ∃ t ∈ terminals, ∃ text,
      t.Stands .standard ("2**0x1F.5//".toList.drop 3) text :=
    ⟨.literal .decInt, by decide, ['0'], hstands⟩
  obtain ⟨found, hfound, -, -, -, hlongest⟩ := terminalAt?_longest "2**0x1F.5//" 3 hsome
  have hterminal : found.terminal = .literal .float := by
    have heq : (standard.terminalAt? ("2**0x1F.5//".toList.drop 3)).map (·.terminal) =
        some (.literal .float) := by decide
    rw [hfound] at heq
    exact Option.some.inj heq
  refine ⟨hsome, found, hfound, hterminal, (hlongest (.literal .hexInt) (by decide) ?_).1⟩
  rw [hterminal]
  decide

end RuleTree
