import RuleTree.Proofs.Source.Truncation

/-!
# What a string loses

The value of a string literal is its text without the quotes at the two ends, however many stand
there. Behind the first quote none can follow, because a quote ends the string; before the last one
there can be one, which a backslash has escaped, but no more than one.

* `StringContent.EndsEscaped`: the one way for a content to end with a quote.
* `StringContent.Leaves`: what is left of a content, from which the content can be told.
* `decodeString_of_matchesWhole`: this is the value, and no two strings have the same value.
-/

namespace RuleTree

/-! ### The ends of a content -/

namespace StringContent

variable {front rest content : List Char}

theorem head?_ne (h : StringContent content) : ∀ c ∈ content.head?, c ≠ '"' := by
  cases h with
  | nil => simp
  | escaped => simp
  | plain hc => simpa using hc.1

theorem of_escaped {c : Char} (h : StringContent ('\\' :: c :: content)) :
    StringContent content := by
  cases h with
  | escaped _ h => exact h
  | plain hc => exact absurd rfl hc.2.1

theorem of_plain {c : Char} (hc : c ≠ '\\') (h : StringContent (c :: content)) :
    StringContent content := by
  cases h with
  | escaped => exact absurd rfl hc
  | plain _ h => exact h

theorem of_append (hfront : StringContent front) (h : StringContent (front ++ rest)) :
    StringContent rest := by
  induction hfront with
  | nil => exact h
  | escaped _ _ ih => exact ih h.of_escaped
  | plain hc _ ih => exact ih (h.of_plain hc.2.1)

theorem not_append_backslash (hfront : StringContent front) :
    ¬StringContent (front ++ ['\\']) := by
  intro h
  cases hfront.of_append h with
  | plain hc _ => exact hc.2.1 rfl

/-- The content ends with an escaped quote: the backslash before it is not escaped itself. -/
def EndsEscaped (content : List Char) : Prop :=
  ∃ front, StringContent front ∧ content = front ++ ['\\', '"']

/-- What is left of a content: all of it, but for the last quote if that is an escaped one. -/
def Leaves (content value : List Char) : Prop :=
  (EndsEscaped content → value ++ ['"'] = content) ∧ (¬EndsEscaped content → value = content)

theorem endsEscaped_of_getLast? (h : StringContent content) (hlast : content.getLast? = some '"') :
    EndsEscaped content := by
  induction h with
  | nil => simp at hlast
  | @escaped c cs hc hcs ih =>
    cases cs with
    | nil =>
      have hquote : c = '"' := by simpa using hlast
      exact ⟨[], .nil, by rw [hquote]; rfl⟩
    | cons d cs =>
      obtain ⟨front, hfront, heq⟩ := ih (by simpa using hlast)
      exact ⟨'\\' :: c :: front, .escaped hc hfront, by rw [heq]; rfl⟩
  | @plain c cs hc hcs ih =>
    cases cs with
    | nil => exact absurd (by simpa using hlast) hc.1
    | cons d cs =>
      obtain ⟨front, hfront, heq⟩ := ih (by simpa using hlast)
      exact ⟨c :: front, .plain hc hfront, by rw [heq]; rfl⟩

/-- A content that has lost its last quote ends with the backslash of the escape, and so it is no
content: what is left of a content tells whether a quote is missing. -/
theorem Leaves.unique {content' value : List Char} (hleaves : Leaves content value)
    (hleaves' : Leaves content' value) (h : StringContent content) (h' : StringContent content') :
    content = content' := by
  have hapart {c c' : List Char} (hc : EndsEscaped c) (hlost : value ++ ['"'] = c)
      (hc' : StringContent c') : value ≠ c' := by
    obtain ⟨front, hfront, rfl⟩ := hc
    rintro rfl
    have heq : value = front ++ ['\\'] := List.append_cancel_right (hlost.trans (by simp))
    exact hfront.not_append_backslash (heq ▸ hc')
  by_cases hends : EndsEscaped content <;> by_cases hends' : EndsEscaped content'
  · exact (hleaves.1 hends).symm.trans (hleaves'.1 hends')
  · exact absurd (hleaves'.2 hends') (hapart hends (hleaves.1 hends) h')
  · exact absurd (hleaves.2 hends) (hapart hends' (hleaves'.1 hends') h)
  · exact (hleaves.2 hends).symm.trans (hleaves'.2 hends')

end StringContent

/-! ### The value -/

open StringContent

theorem toList_decodeString_of_append {text : String} {value closing : List Char}
    (htext : text.toList = '"' :: (value ++ closing)) (hclosing : ∀ c ∈ closing, c = '"')
    (hhead : ∀ c ∈ value.head?, c ≠ '"') (hlast : ∀ c ∈ value.getLast?, c ≠ '"') :
    (decodeString text).toList = value := by
  have htrim : trimEnds (· == '"') (['"'] ++ (value ++ closing)) = value :=
    trimEnds_append (by simp) (by simpa using hclosing) (by simpa using hhead)
      (by simpa using hlast)
  rw [decodeString, String.toList_ofList, htext]
  exact htrim

theorem toList_decodeString {text : String} {content : List Char}
    (htext : text.toList = '"' :: (content ++ ['"'])) (h : StringContent content) :
    Leaves content (decodeString text).toList := by
  constructor
  · rintro ⟨front, hfront, rfl⟩
    have htext' : text.toList = '"' :: ((front ++ ['\\']) ++ ['"', '"']) := by simp [htext]
    have hhead : ∀ c ∈ (front ++ ['\\']).head?, c ≠ '"' := by
      cases front with
      | nil => simp
      | cons c front => exact h.head?_ne
    rw [toList_decodeString_of_append htext' (by simp) hhead (by simp)]
    simp
  · intro hends
    refine toList_decodeString_of_append htext (by simp) h.head?_ne ?_
    rintro c hc rfl
    exact hends (h.endsEscaped_of_getLast? hc)

/-- **Decoding loses no string.** The value of a text that the terminal of strings matches is what
stands between its delimiters, but for the last quote if that is an escaped one; and two such texts
with the same value are the same. -/
theorem decodeString_of_matchesWhole (v : Vocabulary) :
    (∀ text : String, (Terminal.literal .string).MatchesWhole v text.toList →
      ∃ content, text.toList = '"' :: (content ++ ['"']) ∧ StringContent content ∧
        Leaves content (decodeString text).toList) ∧
    ∀ text text' : String, (Terminal.literal .string).MatchesWhole v text.toList →
      (Terminal.literal .string).MatchesWhole v text'.toList →
      decodeString text = decodeString text' → text = text' := by
  constructor
  · intro text hmatches
    obtain ⟨content, htext, hcontent⟩ := Terminal.matchesWhole_literal_iff.mp hmatches
    exact ⟨content, htext, hcontent, toList_decodeString htext hcontent⟩
  · intro text text' hmatches hmatches' heq
    obtain ⟨content, htext, hcontent⟩ := Terminal.matchesWhole_literal_iff.mp hmatches
    obtain ⟨content', htext', hcontent'⟩ := Terminal.matchesWhole_literal_iff.mp hmatches'
    have hleaves := toList_decodeString htext hcontent
    have hleaves' := toList_decodeString htext' hcontent'
    rw [heq] at hleaves
    exact String.toList_injective
      (by rw [htext, htext', hleaves.unique hleaves' hcontent hcontent'])

/-- One quote is lost of the string that ends with an escaped quote, none of the one that ends with
an escaped backslash. -/
theorem decodeString_of_matchesWhole_escapes :
    (∃ content, "\"a\\\"\"".toList = '"' :: (content ++ ['"']) ∧ StringContent content ∧
      Leaves content (decodeString "\"a\\\"\"").toList) ∧
    decodeString "\"a\\\"\"" = "a\\" ∧
    decodeString "\"a\\\"\"" ≠ decodeString "\"a\\\\\"" := by
  have hescaped : (Terminal.literal .string).MatchesWhole .standard "\"a\\\"\"".toList := by
    decide
  have hslash : (Terminal.literal .string).MatchesWhole .standard "\"a\\\\\"".toList := by
    decide
  refine ⟨(decodeString_of_matchesWhole .standard).1 _ hescaped, by decide, fun heq => ?_⟩
  exact absurd ((decodeString_of_matchesWhole .standard).2 _ _ hescaped hslash heq) (by decide)

end RuleTree
