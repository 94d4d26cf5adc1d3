import Mathlib.Algebra.BigOperators.Group.List.Basic
import Mathlib.Data.Finset.Card
import Mathlib.Tactic

/-! # Counting by a property

Each member of a finite set has a value, and the members whose value has some property are
counted. When the value of one member changes, the count loses the old value and gains the
new one. In a list of updates, each a key with a value, the values of those keys that have
some property are added up.
-/

namespace P4Survey.Lib

section Census

variable {V β : Type*}

/-- The number of members whose value has the property. -/
def census (s : Finset V) (f : V → β) (p : β → Prop) [DecidablePred p] : ℕ :=
  (s.filter fun v => p (f v)).card

variable {s : Finset V} {f : V → β} {p q : β → Prop} [DecidablePred p] [DecidablePred q]

theorem census_mono (h : ∀ v ∈ s, p (f v) → q (f v)) : census s f p ≤ census s f q := by
  apply Finset.card_le_card
  intro v hv
  rw [Finset.mem_filter] at hv ⊢
  exact ⟨hv.1, h v hv.1 hv.2⟩

theorem census_eq_zero (h : ∀ v ∈ s, ¬p (f v)) : census s f p = 0 := by
  rw [census, Finset.card_eq_zero, Finset.filter_eq_empty_iff]
  exact fun _ hv => h _ hv

variable [DecidableEq V] {v : V}

theorem census_erase (hv : v ∈ s) :
    census s f p = census (s.erase v) f p + if p (f v) then 1 else 0 := by
  unfold census
  rw [Finset.filter_erase]
  split_ifs with h
  · rw [Finset.card_erase_add_one]
    exact Finset.mem_filter.mpr ⟨hv, h⟩
  · rw [Finset.erase_eq_of_notMem, Nat.add_zero]
    exact fun hmem => h (Finset.mem_filter.mp hmem).2

/-- One member changes its value. -/
theorem census_update (hv : v ∈ s) (b : β) :
    census s (Function.update f v b) p + (if p (f v) then 1 else 0) =
      census s f p + if p b then 1 else 0 := by
  have hrest : census (s.erase v) (Function.update f v b) p = census (s.erase v) f p := by
    unfold census
    congr 1
    apply Finset.filter_congr
    intro w hw
    rw [Function.update_of_ne (Finset.ne_of_mem_erase hw)]
  rw [census_erase hv, census_erase (f := f) hv, hrest, Function.update_self]
  omega

end Census

section Tally

variable {α : Type*} (l l' : List (α × ℤ)) (p q : α → Prop) [DecidablePred p] [DecidablePred q]

/-- The sum of the values of the keys with the property. -/
def tally : ℤ := (l.map fun u => if p u.1 then u.2 else 0).sum

/-- The updates that take back those of the list. -/
def negated : List (α × ℤ) := l.map fun u => (u.1, -u.2)

@[simp] theorem tally_nil : tally [] p = 0 := rfl

@[simp] theorem tally_cons (u : α × ℤ) :
    tally (u :: l) p = (if p u.1 then u.2 else 0) + tally l p := rfl

@[simp] theorem tally_append : tally (l ++ l') p = tally l p + tally l' p := by
  simp [tally]

@[simp] theorem tally_negated : tally (negated l) p = -tally l p := by
  induction l with
  | nil => rfl
  | cons u l ih =>
    rw [negated, List.map_cons, ← negated, tally_cons, tally_cons, ih]
    split_ifs <;> ring

/-- A property splits the updates in two. -/
theorem tally_split :
    tally l (fun a => p a ∧ q a) + tally l (fun a => p a ∧ ¬q a) = tally l p := by
  induction l with
  | nil => rfl
  | cons u l ih =>
    simp only [tally_cons]
    by_cases hp : p u.1
    · by_cases hq : q u.1
      · simp only [hp, hq, and_self, not_true_eq_false, and_false, if_true, if_false]
        omega
      · simp only [hp, hq, and_false, not_false_eq_true, and_self, if_true, if_false]
        omega
    · simp only [hp, false_and, if_false]
      omega

variable {l p q}

theorem tally_congr (h : ∀ a, p a ↔ q a) : tally l p = tally l q := by
  simp only [tally, h]

theorem tally_mono (hl : ∀ u ∈ l, 0 ≤ u.2) (h : ∀ a, p a → q a) : tally l p ≤ tally l q := by
  apply List.sum_le_sum
  intro u hu
  by_cases hp : p u.1
  · rw [if_pos hp, if_pos (h _ hp)]
  · rw [if_neg hp]
    split_ifs
    · exact hl u hu
    · exact le_rfl

end Tally

end P4Survey.Lib
