import RuleTree.Proofs.Source.Offset
import RuleTree.Source.ParseError

/-!
# Lines and the context of an error

The line and the column of a place say which line of the text it is on, and how much of that line is
before it. The context of an error at the place shows this line, cut at a distance from the place.

* `getElem?_splitOn`: the line of a text that a place is on.
* `contextAt_eq`: the context of an error at a place.
-/

namespace RuleTree

namespace ParseError

/-! ### Lines -/

theorem lastLine_concat (cs : List Char) (c : Char) :
    lastLine (cs ++ [c]) = if c = '\n' then [] else lastLine cs ++ [c] := by
  by_cases hc : c = '\n'
  · simp [lastLine, hc]
  · simp [lastLine, hc]

theorem length_splitOn (cs : List Char) : (cs.splitOn '\n').length = cs.count '\n' + 1 := by
  induction cs with
  | nil => rfl
  | cons c cs ih =>
    rw [List.splitOn_cons_eq_if_modifyHead, List.count_cons]
    split <;> simp [ih]

theorem head?_splitOn (cs : List Char) : (cs.splitOn '\n')[0]? = some (firstLine cs) := by
  induction cs with
  | nil => rfl
  | cons c cs ih =>
    rw [List.splitOn_cons_eq_if_modifyHead]
    by_cases hc : c = '\n'
    · simp [hc, firstLine]
    · rw [if_neg (by simp [hc]), List.getElem?_modifyHead, ih]
      simp [hc, firstLine]

theorem getElem?_splitOn (cs rest : List Char) :
    ((cs ++ rest).splitOn '\n')[cs.count '\n']? = some (lastLine cs ++ firstLine rest) := by
  induction cs using List.reverseRecOn generalizing rest with
  | nil => exact head?_splitOn rest
  | append_singleton cs c ih =>
    rw [List.append_assoc, List.singleton_append, lastLine_concat, List.count_append]
    by_cases hc : c = '\n'
    · subst hc
      have hindex : cs.count '\n' + ['\n'].count '\n' = (cs.splitOn '\n').length := by
        rw [length_splitOn]
        rfl
      rw [List.splitOn_append_cons_self, hindex, List.getElem?_append_right (Nat.le_refl _),
        Nat.sub_self, head?_splitOn]
      rfl
    · rw [if_neg hc]
      have hline := ih (c :: rest)
      have hfirst : firstLine (c :: rest) = c :: firstLine rest := by simp [firstLine, hc]
      rw [hfirst] at hline
      simpa [hc] using hline

theorem column_origin_after (cs : List Char) :
    (Mark.origin.after cs).column = (lastLine cs).length + 1 := by
  induction cs using List.reverseRecOn with
  | nil => rfl
  | append_singleton cs c ih =>
    rw [Mark.after_concat, Mark.next, lastLine_concat]
    by_cases hc : c = '\n'
    · simp [hc]
    · simp [hc, ih]

theorem line_origin_after (cs : List Char) :
    (Mark.origin.after cs).line = 1 + cs.count '\n' := by
  rw [Mark.origin_after, Mark.ofOffset_length]

/-! ### Contexts -/

theorem takeWhile_take {α : Type} (p : α → Bool) (xs : List α) (n : Nat) :
    (xs.take n).takeWhile p = (xs.takeWhile p).take n := by
  induction xs generalizing n with
  | nil => simp
  | cons x xs ih =>
    cases n with
    | zero => simp
    | succ n =>
      by_cases hx : p x = true
      · simp [hx, ih]
      · simp [hx]

theorem firstLine_take (cs : List Char) (n : Nat) : firstLine (cs.take n) = (firstLine cs).take n :=
  takeWhile_take _ cs n

theorem lastLine_drop (cs : List Char) (n : Nat) :
    lastLine (cs.drop (cs.length - n)) = (lastLine cs).drop ((lastLine cs).length - n) := by
  have hdrop : cs.drop (cs.length - n) = (cs.reverse.take n).reverse := by
    rw [List.reverse_take]
    simp
  rw [hdrop, lastLine, lastLine, List.reverse_reverse, takeWhile_take, List.reverse_take]
  simp

theorem slice_of_le {α : Type} (xs : Array α) {m : Nat} (hm : m ≤ xs.size) (n : Nat) :
    slice xs (some m) (some n) = (xs.toList.take n).drop m := by
  by_cases hn : n ≤ xs.size
  · exact slice_natCast xs hm hn
  · have hstop : sliceBound xs.size n = xs.size := by
      rw [sliceBound, if_neg (by omega)]
      omega
    have hwhole : xs.toList.take n = xs.toList.take xs.size := by
      rw [List.take_of_length_le (by simp; omega), List.take_of_length_le (by simp)]
    rw [hwhole, ← slice_natCast xs hm (Nat.le_refl _)]
    simp [slice, hstop, sliceBound_natCast (Nat.le_refl xs.size)]

/-- The context of an error shows the line around the place, no more than forty characters on either
side, and below it a mark under the place. -/
theorem contextAt_eq {source cs rest : List Char} (hsource : source = cs ++ rest) :
    contextAt source.toArray cs.length =
      let before := (lastLine cs).drop ((lastLine cs).length - 40)
      let behind := (firstLine rest).take 40
      String.ofList (before ++ behind ++
        '\n' :: List.replicate (displayWidth 0 before) ' ' ++ ['^', '\n']) := by
  have hlow : max ((cs.length : Int) - contextSize) 0 = ((cs.length - 40 : Nat) : Int) := by
    unfold contextSize
    omega
  have hhigh : (cs.length : Int) + contextSize = ((cs.length + 40 : Nat) : Int) := by
    unfold contextSize
    omega
  have hbefore : slice source.toArray (some ((cs.length - 40 : Nat) : Int)) (some (cs.length : Int)) =
      cs.drop (cs.length - 40) := by
    rw [slice_of_le _ (by simp [hsource]; omega)]
    simp [hsource]
  have hbehind : slice source.toArray (some (cs.length : Int)) (some ((cs.length + 40 : Nat) : Int)) =
      rest.take 40 := by
    rw [slice_of_le _ (by simp [hsource]), List.drop_take, Nat.add_sub_cancel_left]
    simp [hsource]
  simp only [contextAt, hlow, hhigh, hbefore, hbehind, lastLine_drop, firstLine_take]

/-- The context of an error that names no place counts from the end of the text. It shows the last
line up to the last character, and the last character only in a text of less than forty. -/
theorem contextAt_end (source : List Char) :
    contextAt source.toArray (-1) =
      let before := lastLine source.dropLast
      let behind := firstLine (if source.length ≤ 39 then source.drop (source.length - 1) else [])
      String.ofList (before ++ behind ++
        '\n' :: List.replicate (displayWidth 0 before) ' ' ++ ['^', '\n']) := by
  have hlow : max ((-1 : Int) - contextSize) 0 = 0 := by decide
  have hhigh : (-1 : Int) + contextSize = 39 := by decide
  have hlast : ((-1 : Int) + source.length).toNat = source.length - 1 := by omega
  have hbefore : slice source.toArray (some 0) (some (-1)) = source.dropLast := by
    simp [slice, sliceBound, hlast, List.dropLast_eq_take]
  have hbehind : slice source.toArray (some (-1)) (some 39) =
      if source.length ≤ 39 then source.drop (source.length - 1) else [] := by
    have hextract : slice source.toArray (some (-1)) (some 39) =
        (source.take (min 39 source.length)).drop (source.length - 1) := by
      simp [slice, sliceBound, hlast, List.extract_eq_take_drop, List.drop_take]
    rw [hextract]
    split
    · rw [List.take_of_length_le (by omega)]
    · exact List.drop_eq_nil_of_le (by rw [List.length_take]; omega)
  simp only [contextAt, hlow, hhigh, hbefore, hbehind]

end ParseError

end RuleTree
