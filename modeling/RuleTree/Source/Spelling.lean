import RuleTree.Number.Radix
import RuleTree.Source.Token

/-!
# Spellings of operators

A table gives the spelling of an operator as it is written between double quotes in a grammar, where
a backslash begins an escape.

* `Spelling.unescape?` replaces the escapes, and `Spelling.halve` then lets one backslash stand for
  two.
* `Vocabulary.ofTable` is the vocabulary of a table.
-/

namespace RuleTree

namespace Spelling

/-- The character with the code that `count` hexadecimal digits at the beginning of `cs` write. -/
def coded? (count : Nat) (cs : List Char) : Option Char :=
  let digits := cs.take count
  let code := Radix.hexadecimal.value digits
  if digits.length = count ∧ digits.all Radix.hexadecimal.isDigit ∧ code.isValidChar then
    some (Char.ofNat code)
  else none

/-- What the escape with the letter `c` stands for, and how many of the characters `cs` behind the
letter belong to it. A letter without a meaning keeps its backslash, and a backslash stays two. -/
def escape? (c : Char) (cs : List Char) : Option (List Char × Nat) :=
  let coded (count : Nat) := (coded? count cs).map fun d => ([d], count)
  match c with
  | 'n' => some (['\n'], 0)
  | 't' => some (['\t'], 0)
  | 'r' => some (['\r'], 0)
  | 'f' => some (['\x0c'], 0)
  | '"' => some (['"'], 0)
  | 'x' => coded 2
  | 'u' => coded 4
  | 'U' => coded 8
  | c => some (['\\', c], 0)

/-- Replaces every escape by what it stands for, if all of them are complete. -/
def unescape? : List Char → Option (List Char)
  | [] => some []
  | '\\' :: c :: cs =>
    match escape? c cs with
    | some (text, width) => (unescape? (cs.drop width)).map (text ++ ·)
    | none => none
  | c :: cs => if c = '\\' then none else (unescape? cs).map (c :: ·)
termination_by cs => cs.length

/-- Writes one backslash for every two. -/
def halve : List Char → List Char
  | '\\' :: '\\' :: cs => '\\' :: halve cs
  | c :: cs => c :: halve cs
  | [] => []

/-- The text that a spelling in a table means. One with an incomplete escape means itself. -/
def text (written : String) : String :=
  match unescape? written.toList with
  | some cs => String.ofList (halve cs)
  | none => written

theorem unescape?_of_not_mem {cs : List Char} (h : '\\' ∉ cs) : unescape? cs = some cs := by
  fun_induction unescape? cs with
  | case1 => rfl
  | case2 => simp at h
  | case3 => simp at h
  | case4 => simp at h
  | case5 c cs _ _ ih => rw [ih fun hc => h (List.mem_cons_of_mem _ hc)]; rfl

theorem halve_of_not_mem {cs : List Char} (h : '\\' ∉ cs) : halve cs = cs := by
  fun_induction halve cs with
  | case1 => simp at h
  | case2 c cs _ ih => rw [ih fun hc => h (List.mem_cons_of_mem _ hc)]
  | case3 => rfl

theorem text_of_not_mem {written : String} (h : '\\' ∉ written.toList) :
    text written = written := by
  rw [text, unescape?_of_not_mem h]
  simp [halve_of_not_mem h]

end Spelling

/-- The vocabulary that takes the spellings in a table and the standard one for the rest. -/
def Vocabulary.ofTable (table : Operator → Option String) : Vocabulary :=
  ⟨fun o => ((table o).map Spelling.text).getD o.symbol⟩

end RuleTree
