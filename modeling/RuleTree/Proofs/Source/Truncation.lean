import Mathlib.Data.List.TakeWhile
import RuleTree.Proofs.Source.Excerpt
import RuleTree.Proofs.Source.Taking

/-!
# Cutting a text short

Behind a terminal that is taken the text may be cut short: the same terminal is taken there. A
terminal takes no more where less follows, and where it stands whole it takes no less.

* `Terminal.Spells`: the texts of a terminal. The width of a terminal is the length of the longest of
  them that stands in a place: `Terminal.spells_take`, `Terminal.length_le_width`.
* `Terminal.MatchesWhole`: a terminal matches a text from end to end. For a literal this means that it
  is a text of its kind: `Terminal.matchesWhole_literal_iff`.
* `Terminal.width_le_append`, `Terminal.width_take`: what more or less behind a terminal does to its
  width.
* `Vocabulary.Takes.truncate`: the terminal that is taken, in the standard vocabulary.
* `Cuts.truncate`: a whole text.
-/

namespace RuleTree

namespace Terminal

theorem length_le_run {p : Char → Bool} {cs : List Char} (h : ∀ c ∈ cs, p c = true)
    (rest : List Char) : cs.length ≤ run p (cs ++ rest) := by
  rw [run, List.takeWhile_append_of_pos h, List.length_append]
  exact Nat.le_add_right _ _

theorem length_le_prefixedWidth {r : Radix} {text : List Char} (hr : r ≠ .decimal)
    (h : r.Spells text) (rest : List Char) : text.length ≤ prefixedWidth r (text ++ rest) := by
  obtain ⟨digits, hdrop, hne, hdigits⟩ := h
  obtain ⟨mark, rfl, hmark⟩ := dropPrefix?_eq_some hr hdrop
  have hrun := length_le_run hdigits rest
  have hpos := List.length_pos_iff.mpr hne
  rw [List.cons_append, List.cons_append, prefixedWidth, hmark]
  simp only [List.length_cons]
  rw [if_neg (by omega)]
  omega

theorem length_le_floatWidth {text : List Char} (h : LiteralKind.float.Spells text)
    (rest : List Char) : text.length ≤ floatWidth (text ++ rest) := by
  obtain ⟨r, whole, fraction, rfl, hspells, hne, hfraction⟩ := h
  have hrun : fraction.length ≤ run isDecimalDigit (fraction ++ rest) :=
    length_le_run hfraction rest
  have hpos := List.length_pos_iff.mpr hne
  rw [List.append_assoc, List.cons_append, floatWidth_of_point hspells (by omega),
    List.length_append, List.length_cons]
  omega

theorem length_le_width_integer {r : Radix} {text : List Char} (h : r.Spells text) (v : Vocabulary)
    (rest : List Char) : text.length ≤ (literal r.literalKind).width v (text ++ rest) := by
  by_cases hr : r = .decimal
  · subst hr
    obtain ⟨digits, hdrop, -, hdigits⟩ := h
    cases hdrop
    exact length_le_run hdigits rest
  · cases r <;> first | exact absurd rfl hr | exact length_le_prefixedWidth hr h rest

theorem length_le_width_literal {k : LiteralKind} {text : List Char} (h : k.Spells text)
    (v : Vocabulary) (rest : List Char) : text.length ≤ (literal k).width v (text ++ rest) := by
  rcases k.cases_radix with rfl | rfl | rfl | ⟨r, rfl⟩
  · exact length_le_floatWidth h rest
  · exact Nat.le_of_eq (charWidth_of_spells h).symm
  · exact Nat.le_of_eq (stringWidth_of_spells h).symm
  · exact length_le_width_integer (LiteralKind.spells_literalKind.mp h) v rest

/-- The texts of a terminal. -/
def Spells (v : Vocabulary) (text : List Char) : Terminal → Prop
  | literal k => k.Spells text
  | blank => text ≠ [] ∧ ∀ c ∈ text, isLayout c = true
  | comment => ∃ inside, text = '/' :: '/' :: inside ∧ ∀ c ∈ inside, c ≠ '\n'
  | fixed lexeme => text = (v.text lexeme).toList

variable {v : Vocabulary} {t : Terminal} {cs text : List Char}

theorem spells_take (h : t.width v cs ≠ 0) : t.Spells v (cs.take (t.width v cs)) := by
  cases t with
  | literal k => exact spells_take_width h
  | blank =>
    simp only [width, Spells, take_run] at h ⊢
    refine ⟨?_, fun c hc => mem_takeWhile hc⟩
    intro hnil
    exact h (by rw [run, hnil, List.length_nil])
  | comment =>
    simp only [width, Spells] at h ⊢
    unfold commentWidth at h ⊢
    split at h
    · rename_i cs
      refine ⟨cs.takeWhile (· ≠ '\n'), ?_, fun c hc => by simpa using mem_takeWhile hc⟩
      rw [Nat.add_comm, List.take_succ_cons, List.take_succ_cons, take_run]
    · exact absurd rfl h
  | fixed l =>
    simp only [width, Spells] at h ⊢
    split at h
    · rename_i hpre
      rw [if_pos hpre]
      exact (List.prefix_iff_eq_take.mp (List.isPrefixOf_iff_prefix.mp hpre)).symm
    · exact absurd rfl h

theorem length_le_width (h : t.Spells v text) (rest : List Char) :
    text.length ≤ t.width v (text ++ rest) := by
  cases t with
  | literal k => exact length_le_width_literal h v rest
  | blank => exact length_le_run h.2 rest
  | comment =>
    obtain ⟨inside, rfl, hinside⟩ := h
    have hrun : inside.length ≤ run (· ≠ '\n') (inside ++ rest) :=
      length_le_run (fun c hc => decide_eq_true (hinside c hc)) rest
    rw [List.cons_append, List.cons_append, width, commentWidth]
    simp only [List.length_cons]
    omega
  | fixed l =>
    subst h
    have hpre := List.isPrefixOf_iff_prefix.mpr (List.prefix_append (v.text l).toList rest)
    exact Nat.le_of_eq (if_pos hpre).symm

/-- The terminal matches the text from end to end. -/
def MatchesWhole (v : Vocabulary) (t : Terminal) (text : List Char) : Prop :=
  text ≠ [] ∧ t.width v text = text.length

instance (v : Vocabulary) (t : Terminal) (text : List Char) : Decidable (t.MatchesWhole v text) :=
  inferInstanceAs (Decidable (_ ∧ _))

theorem matchesWhole_literal_iff {k : LiteralKind} :
    (literal k).MatchesWhole v text ↔ k.Spells text := by
  constructor
  · rintro ⟨hne, hwidth⟩
    have hpos : (literal k).width v text ≠ 0 := by
      rw [hwidth]
      exact List.length_pos_iff.mpr hne |>.ne'
    have hspells := spells_take_width hpos
    rwa [hwidth, List.take_length] at hspells
  · intro h
    have hle := length_le_width_literal h v []
    have hge := width_le_length v text (literal k)
    rw [List.append_nil] at hle
    refine ⟨?_, by omega⟩
    rintro rfl
    cases h.opensLiteral

theorem width_le_append (v : Vocabulary) (cs ds : List Char) (t : Terminal) :
    t.width v cs ≤ t.width v (cs ++ ds) := by
  by_cases hzero : t.width v cs = 0
  · omega
  have hle := length_le_width (spells_take hzero) (cs.drop (t.width v cs) ++ ds)
  rwa [← List.append_assoc, List.take_append_drop, List.length_take,
    Nat.min_eq_left (width_le_length v cs t)] at hle

theorem width_take (v : Vocabulary) (cs : List Char) (t : Terminal) :
    t.width v (cs.take (t.width v cs)) = t.width v cs := by
  by_cases hzero : t.width v cs = 0
  · rw [hzero, List.take_zero]
    have := width_le_length v [] t
    simpa using this
  have hlength : (cs.take (t.width v cs)).length = t.width v cs := by
    rw [List.length_take, Nat.min_eq_left (width_le_length v cs t)]
  have hle := length_le_width (spells_take hzero) []
  have hge := width_le_length v (cs.take (t.width v cs)) t
  rw [List.append_nil] at hle
  omega

theorem width_truncate {rest rest' : List Char}
    (h : t.width v (text ++ rest) = text.length) (hrest : rest' <+: rest) :
    t.width v (text ++ rest') = text.length := by
  obtain ⟨tail, rfl⟩ := hrest
  have hwhole := width_take v (text ++ (rest' ++ tail)) t
  rw [h, List.take_left] at hwhole
  have hle := width_le_append v text rest' t
  have hge := width_le_append v (text ++ rest') tail t
  rw [List.append_assoc] at hge
  omega

end Terminal

namespace Vocabulary

open Terminal

variable {v : Vocabulary} {text rest rest' : List Char}

theorem width_eq_zero_of_matchAt? {cs : List Char} {t : Terminal} (h : v.matchAt? cs t = none) :
    t.width v cs = 0 := by
  unfold matchAt? at h
  split at h
  · cases h
  · omega

theorem Takes.width_eq_zero {l : Lexeme} (h : v.Takes (.fixed l) text rest) :
    ∀ t ∈ namedTerminals, t.width v (text ++ rest) = 0 := by
  obtain ⟨found, hfound, hterminal, -⟩ := h
  intro t ht
  rcases Option.or_eq_some_iff.mp hfound with hnamed | ⟨hnone, -⟩
  · obtain ⟨u, hu, hmatch⟩ := List.exists_of_findSome?_eq_some hnamed
    obtain ⟨hu', -⟩ := matchAt?_eq_some hmatch
    rw [← hu', hterminal] at hu
    simp [namedTerminals] at hu
  · exact width_eq_zero_of_matchAt? (List.findSome?_eq_none_iff.mp hnone t ht)

/-- What is taken is a fixed lexeme, or a named terminal where none can stand that is tried before
it. -/
theorem Takes.fixed_or_named {t : Terminal} (h : v.Takes t text rest) :
    (∃ l ∈ fixedLexemes, t = .fixed l) ∨ (t ∈ namedTerminals ∧
      ∀ u ∈ namedTerminals.takeWhile (· ≠ t), u.width v (text ++ rest) = 0) := by
  obtain ⟨found, hfound, rfl, -⟩ := h
  rcases Option.or_eq_some_iff.mp hfound with hnamed | ⟨-, hfixed⟩
  · right
    obtain ⟨before, u, behind, hsplit, hmatch, hnone⟩ := List.findSome?_eq_some_iff.mp hnamed
    obtain ⟨rfl, -⟩ := matchAt?_eq_some hmatch
    refine ⟨by simp [hsplit], fun w hw => width_eq_zero_of_matchAt? (hnone w ?_)⟩
    rw [hsplit, List.takeWhile_append] at hw
    split at hw
    · simpa using hw
    · exact (List.takeWhile_prefix _).subset hw
  · left
    obtain ⟨u, hu, hmatch⟩ := List.mem_filterMap.mp (mem_of_widest? hfixed)
    obtain ⟨l, hl, rfl⟩ := List.mem_map.mp hu
    exact ⟨l, hl, (matchAt?_eq_some hmatch).1⟩

theorem eq_nil_of_widest? {ms : List TerminalMatch} (h : widest? ms = none) : ms = [] := by
  cases ms with
  | nil => rfl
  | cons n ms =>
    rw [widest?] at h
    split at h
    · split at h <;> cases h
    · cases h

theorem width_le_of_widest? {ms : List TerminalMatch} {m : TerminalMatch} (h : widest? ms = some m) :
    ∀ n ∈ ms, n.width ≤ m.width := by
  induction ms generalizing m with
  | nil => simp
  | cons n ms ih =>
    cases hwidest : widest? ms with
    | none =>
      rw [widest?, hwidest] at h
      cases h
      simp [eq_nil_of_widest? hwidest]
    | some n' =>
      have hle := ih hwidest
      simp only [widest?, hwidest] at h
      intro k hk
      by_cases hlt : n.width < n'.width
      · rw [if_pos hlt] at h
        cases h
        rcases List.mem_cons.mp hk with rfl | hk
        · omega
        · exact hle k hk
      · rw [if_neg hlt] at h
        cases h
        rcases List.mem_cons.mp hk with rfl | hk
        · omega
        · have := hle k hk
          omega

theorem Takes.length_le {l l' : Lexeme} (h : v.Takes (.fixed l) text rest) (hl' : l' ∈ fixedLexemes)
    (hbegins : (v.text l').toList <+: text ++ rest) : (v.text l').toList.length ≤ text.length := by
  have hzero := h.width_eq_zero
  obtain ⟨found, hfound, -, hwidth⟩ := h
  have hnone : namedTerminals.findSome? (v.matchAt? (text ++ rest)) = none := by
    rw [List.findSome?_eq_none_iff]
    intro t ht
    rw [matchAt?, dif_neg (by rw [hzero t ht]; exact Nat.lt_irrefl 0)]
  rw [terminalAt?, hnone, Option.none_or] at hfound
  have hwidth' : (fixed l').width v (text ++ rest) = (v.text l').toList.length := by
    rw [width]
    exact if_pos (List.isPrefixOf_iff_prefix.mpr hbegins)
  by_cases hpos : 0 < (fixed l').width v (text ++ rest)
  · have hle := width_le_of_widest? hfound ⟨fixed l', _, hpos⟩ <| by
      refine List.mem_filterMap.mpr ⟨fixed l', List.mem_map.mpr ⟨l', hl', rfl⟩, ?_⟩
      rw [matchAt?, dif_pos hpos]
    rw [hwidth] at hle
    exact hwidth' ▸ hle
  · omega

theorem eq_of_length {l l' : Lexeme} (hl : l ∈ fixedLexemes) (hl' : l' ∈ fixedLexemes)
    (hbegins : (standard.text l').toList <+: (standard.text l).toList ++ rest)
    (hlength : (standard.text l').toList.length = (standard.text l).toList.length) : l' = l := by
  have heq : (standard.text l').toList = (standard.text l).toList := by
    obtain ⟨tail, htail⟩ := hbegins
    exact (List.append_inj htail hlength).1
  have hmeanings := meanings_standard l hl
  rw [← String.toList_injective heq, meanings_standard l' hl'] at hmeanings
  exact List.singleton_inj.mp hmeanings

/-- In the standard vocabulary the terminal that is taken is taken also where less follows. -/
theorem Takes.truncate {t : Terminal} (h : standard.Takes t text rest) (hrest : rest' <+: rest) :
    standard.Takes t text rest' := by
  have hless (u : Terminal) (hu : u.width standard (text ++ rest) = 0) :
      u.width standard (text ++ rest') = 0 := by
    obtain ⟨tail, rfl⟩ := hrest
    have hle := width_le_append standard (text ++ rest') tail u
    rw [List.append_assoc] at hle
    omega
  rcases h.fixed_or_named with ⟨l, hl, rfl⟩ | ⟨ht, hbefore⟩
  · have htext := h.eq_text
    subst htext
    refine takes_fixed hl (text_standard_ne_nil l hl) (fun t ht => hless t (h.width_eq_zero t ht)) ?_
    intro l' hl' hbegins
    have hlength := h.length_le hl' (hbegins.trans (List.prefix_append_right_inj _ |>.mpr hrest))
    by_cases hlt : (standard.text l').toList.length < (standard.text l).toList.length
    · exact .inr hlt
    · exact .inl (eq_of_length hl hl' hbegins (by omega))
  · exact takes_of_width ht (fun u hu => hless u (hbefore u hu)) (width_truncate h.width_eq hrest)
      h.ne_nil

end Vocabulary

/-- A text is cut into the same tokens also where less follows. -/
theorem Cuts.truncate {m : Mark} {cs rest rest' : List Char} {ts : List Token}
    (h : Cuts .standard rest m cs ts) (hrest : rest' <+: rest) : Cuts .standard rest' m cs ts := by
  induction h with
  | nil m => exact .nil m
  | piece htakes _ ih =>
    exact .piece (htakes.truncate ((List.prefix_append_right_inj _).mpr hrest)) ih

end RuleTree
