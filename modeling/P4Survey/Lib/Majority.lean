import Mathlib.Data.List.Count
import Mathlib.Tactic

/-! # Majority by votes for one candidate

Each vote is for the candidate or against it, and a candidate without a lead gives way to
the next vote. An item with more than half of all votes is the candidate at the end.
-/

namespace P4Survey.Lib

variable {α : Type*} [DecidableEq α]

/-- What the votes of a list say about a candidate and its lead. -/
structure Leads (l : List α) (item : α) (lead : ℤ) : Prop where
  nonneg : 0 ≤ lead
  candidate : 2 * (l.count item : ℤ) ≤ l.length + lead
  others : ∀ b, b ≠ item → 2 * (l.count b : ℤ) + lead ≤ l.length

namespace Leads

variable {l : List α} {item a : α} {lead : ℤ}

theorem nil (item : α) : Leads [] item 0 := ⟨le_rfl, by simp, by simp⟩

/-- A candidate without a lead can be exchanged. -/
theorem exchange (h : Leads l item 0) (a : α) : Leads l a 0 := by
  have hall (b : α) : 2 * (l.count b : ℤ) ≤ l.length := by
    by_cases hb : b = item
    · have := h.candidate
      rw [hb]
      omega
    · have := h.others b hb
      omega
  refine ⟨le_rfl, ?_, ?_⟩
  · have := hall a
    omega
  · intro b _
    have := hall b
    omega

theorem vote (h : Leads l item lead) : Leads (l ++ [item]) item (lead + 1) := by
  have hnonneg := h.nonneg
  have hlength : (l ++ [item]).length = l.length + 1 := List.length_append
  refine ⟨by omega, ?_, ?_⟩
  · have := h.candidate
    rw [List.count_append, List.count_singleton_self, hlength]
    push_cast
    omega
  · intro b hb
    have := h.others b hb
    rw [List.count_append, List.count_cons_of_ne hb.symm, List.count_nil, hlength]
    push_cast
    omega

theorem oppose (h : Leads l item lead) (hlead : lead ≠ 0) (ha : item ≠ a) :
    Leads (l ++ [a]) item (lead - 1) := by
  have hnonneg := h.nonneg
  have hlength : (l ++ [a]).length = l.length + 1 := List.length_append
  refine ⟨by omega, ?_, ?_⟩
  · have := h.candidate
    rw [List.count_append, List.count_cons_of_ne ha.symm, List.count_nil, hlength]
    push_cast
    omega
  · intro b hb
    have := h.others b hb
    have hle : (l ++ [a]).count b ≤ l.count b + 1 := by
      rw [List.count_append, List.count_singleton]
      split_ifs <;> omega
    rw [hlength]
    push_cast
    omega

theorem eq_of_majority (h : Leads l item lead) (ha : (l.length : ℤ) < 2 * l.count a) :
    item = a := by
  by_contra hne
  have hothers := h.others a (Ne.symm hne)
  have hnonneg := h.nonneg
  omega

end Leads

end P4Survey.Lib
