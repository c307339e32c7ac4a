import Mathlib.Data.List.Forall2

/-!
# Lists that are related member by member

What else is known of two lists if each member of one is related to the member of the other in the
same place.

* `exists_forall₂`: a list of what each member is related to.
* `exists_mem_of_forall₂`: back from the lists to their members.
* `forall₂_getElem?_cases`, `forall₂_set`: looking up and replacing members by their place.
-/

namespace RuleTree

variable {α β γ : Type} {r s : α → β → Prop} {as : List α} {bs : List β} {a : α} {b : β}

theorem exists_forall₂ {p : β → Prop} (h : ∀ a ∈ as, ∃ b, p b ∧ r a b) :
    ∃ bs, (∀ b ∈ bs, p b) ∧ List.Forall₂ r as bs := by
  induction as with
  | nil => exact ⟨[], nofun, .nil⟩
  | cons a as ih =>
    obtain ⟨⟨b, hp, hr⟩, has⟩ := List.forall_mem_cons.mp h
    obtain ⟨bs, hps, hrs⟩ := ih has
    exact ⟨b :: bs, List.forall_mem_cons.mpr ⟨hp, hps⟩, .cons hr hrs⟩

theorem exists_mem_of_forall₂ (h : List.Forall₂ r as bs) (ha : a ∈ as) : ∃ b ∈ bs, r a b := by
  induction h with
  | nil => cases ha
  | cons hab _ ih =>
    rcases List.mem_cons.mp ha with rfl | ha
    · exact ⟨_, List.mem_cons_self, hab⟩
    · obtain ⟨b, hb, hr⟩ := ih ha
      exact ⟨b, List.mem_cons_of_mem _ hb, hr⟩

theorem forall₂_imp_of_mem (h : List.Forall₂ r as bs)
    (hrs : ∀ a ∈ as, ∀ b ∈ bs, r a b → s a b) : List.Forall₂ s as bs := by
  induction h with
  | nil => exact .nil
  | cons hab _ ih =>
    refine .cons (hrs _ List.mem_cons_self _ List.mem_cons_self hab) (ih fun a ha b hb => ?_)
    exact hrs a (List.mem_cons_of_mem _ ha) b (List.mem_cons_of_mem _ hb)

theorem map_eq_of_forall₂ {f : α → γ} {g : β → γ}
    (h : List.Forall₂ (fun a b => f a = g b) as bs) : as.map f = bs.map g := by
  rw [← List.forall₂_eq_eq_eq, List.forall₂_map_left_iff, List.forall₂_map_right_iff]
  exact h

theorem forall₂_getElem?_cases (h : List.Forall₂ r as bs) (n : Nat) :
    (as[n]? = none ∧ bs[n]? = none) ∨ ∃ a b, as[n]? = some a ∧ bs[n]? = some b ∧ r a b := by
  induction h generalizing n with
  | nil => exact .inl ⟨rfl, rfl⟩
  | @cons a b as bs hab _ ih =>
    cases n with
    | zero => exact .inr ⟨a, b, rfl, rfl, hab⟩
    | succ n => exact ih n

theorem forall₂_set (h : List.Forall₂ r as bs) (hab : r a b) (n : Nat) :
    List.Forall₂ r (as.set n a) (bs.set n b) := by
  induction h generalizing n with
  | nil => exact .nil
  | cons h hs ih =>
    cases n with
    | zero => exact .cons hab hs
    | succ n => exact .cons h (ih n)

end RuleTree
