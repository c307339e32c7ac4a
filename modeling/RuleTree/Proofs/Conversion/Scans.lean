import RuleTree.Convert
import RuleTree.Proofs.Builder.Steps
import RuleTree.Proofs.Queue.Scannable

/-!
# Conversions and scans

A conversion begins with flattening the tree. Where a scan for the text of a node breaks off, nothing
is built and the failure is reported as it is, without a node. Everything else that is said of
conversions here is said of `convertUnder`, which takes the queue for granted.

* `convert_eq`: where the tree has a queue, a conversion is one that takes it for granted.
* `scannable_of_parse`: with its source the tree of a source always has one, however deep it is.
-/

namespace RuleTree

theorem convertRoot_eq {α : Type} (b : Builder α) (k : Kind) (settings : Settings)
    (source : Option String) (t : Tree) :
    convertRoot b k settings source t =
      if t.Scannable scanAllowance (source.map charsOf) then convertWith b k settings source t
      else ⟨.error (.build .tooDeep), []⟩ := by
  unfold convertRoot Cursor.ofTree?
  rw [Tree.flattenUnder_eq]
  by_cases h : t.Scannable scanAllowance (source.map charsOf)
  · rw [if_pos h, if_pos h]
    rfl
  · rw [if_neg h, if_neg h]
    rfl

/-- **Only a scan stands between a tree and its conversion.** If no scan for the text of a node breaks
off, a conversion is one of the queue of the tree, under the nesting allowance of conversions.
Otherwise it fails with nothing to say of where, and notes nothing. -/
theorem convert_eq (settings : Settings) (source : Option String) (k : Kind) (t : Tree) :
    convert settings source k t =
      if t.Scannable scanAllowance (source.map charsOf) then
        convertUnder defaultAllowance settings source k t
      else ⟨.error (.build .tooDeep), []⟩ :=
  convertRoot_eq ..

variable {settings : Settings} {files : String → Option Vocabulary} {start source : String}
  {t : Tree}

theorem exists_sentence_of_parse (h : parse settings files start source = .ok t) :
    ∃ v start' s, parseSentence settings.parser v start' source = .ok s ∧ s.tree = t := by
  unfold parse at h
  split at h
  · cases h
  split at h
  · cases h
  rename_i start' _ _ v _
  rw [mapError_eq_ok_iff, parseTree, map_eq_ok_iff] at h
  obtain ⟨s, hsentence, htree⟩ := h
  exact ⟨v, start', s, hsentence, htree⟩

/-- The texts of an accepted source are cut out of it, so that no scan goes deep. -/
theorem scannable_of_parse (h : parse settings files start source = .ok t) :
    t.Scannable scanAllowance (some (charsOf source)) := by
  obtain ⟨v, start', s, -, rfl⟩ := exists_sentence_of_parse h
  exact s.scannable_tree (by decide) (charsOf source)

end RuleTree
