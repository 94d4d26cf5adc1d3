import Mathlib.Algebra.BigOperators.Group.Finset.Piecewise
import Mathlib.Tactic

/-! # Tables of counted flows

A table gives each slot a flow and a count. The counts can be added up with a
weight for each flow, and the table of the Space-Saving algorithm keeps bounds
for the flows it has and for those it does not have.
-/

namespace P4Survey.Lib

variable {ι α : Type*}

/-- A flow and the number of packets it is credited with. -/
@[ext] structure FlowCount (α : Type*) where
  flowid : α
  count : ℕ
  deriving DecidableEq, Inhabited

/-- The count of an entry, weighted by its flow. -/
def FlowCount.weigh (w : α → ℕ) (e : FlowCount α) : ℕ := w e.flowid * e.count

/-- The weighted counts of a table added up. -/
def mass (I : Finset ι) (w : α → ℕ) (f : ι → FlowCount α) : ℕ := ∑ i ∈ I, (f i).weigh w

/-- The weight that counts one flow only. -/
def only [DecidableEq α] (a b : α) : ℕ := if b = a then 1 else 0

theorem mass_update [DecidableEq ι] {I : Finset ι} {i : ι} (hi : i ∈ I) (w : α → ℕ)
    (f : ι → FlowCount α) (e : FlowCount α) :
    mass I w (Function.update f i e) + (f i).weigh w = mass I w f + e.weigh w := by
  have hrest : ∑ j ∈ I.erase i, (Function.update f i e j).weigh w =
      ∑ j ∈ I.erase i, (f j).weigh w := by
    apply Finset.sum_congr rfl
    intro j hj
    rw [Function.update_of_ne (Finset.ne_of_mem_erase hj)]
  rw [mass, mass, ← Finset.add_sum_erase _ _ hi, ← Finset.add_sum_erase _ _ hi, hrest,
    Function.update_self]
  omega

section SpaceSaving

variable [Fintype ι] [DecidableEq ι] [DecidableEq α]

/-- The table after a list of packets: an empty slot has the flow `z`, a stored count
is at most the minimum too large, and a flow without a slot is not above the minimum. -/
structure Saves (z : α) (f : ι → FlowCount α) (l : List α) : Prop where
  empty : ∀ i, (f i).flowid = z → (f i).count = 0
  distinct : ∀ {i j}, (f i).flowid ≠ z → (f i).flowid = (f j).flowid → i = j
  total : ∑ i, (f i).count = l.length
  lower : ∀ i, (f i).flowid ≠ z → l.count (f i).flowid ≤ (f i).count
  upper : ∀ i j, (f i).flowid ≠ z → (f i).count ≤ l.count (f i).flowid + (f j).count
  absent : ∀ {a}, a ≠ z → (∀ i, (f i).flowid ≠ a) → ∀ j, l.count a ≤ (f j).count

namespace Saves

variable {z : α} {f : ι → FlowCount α} {l : List α} {a : α}

omit [DecidableEq ι] in
theorem start : Saves z (fun _ : ι => ⟨z, 0⟩) [] where
  empty _ _ := rfl
  distinct h := absurd rfl h
  total := by simp
  lower _ h := absurd rfl h
  upper _ _ h := absurd rfl h
  absent _ _ _ := by simp

theorem total_update (h : Saves z f l) (a : α) (i : ι) :
    ∑ j, (Function.update f i ⟨a, (f i).count + 1⟩ j).count = (a :: l).length := by
  have hsum := mass_update (Finset.mem_univ i) (fun _ => 1) f ⟨a, (f i).count + 1⟩
  simp only [mass, FlowCount.weigh, one_mul, h.total] at hsum
  rw [List.length_cons]
  omega

omit [Fintype ι] [DecidableEq α] in
theorem count_le_update {i : ι} {e : FlowCount α} (he : (f i).count ≤ e.count) (j : ι) :
    (f j).count ≤ (Function.update f i e j).count := by
  by_cases hj : j = i
  · subst hj
    rwa [Function.update_self]
  · rw [Function.update_of_ne hj]

/-- A packet of the flow `a` goes to slot `i`: no other slot has the flow, the count of the
slot fits it, and the flow that leaves is not above the minimum. -/
theorem put (h : Saves z f l) (ha : a ≠ z) {i : ι}
    (hother : ∀ j, j ≠ i → (f j).flowid ≠ z → (f j).flowid ≠ a)
    (hlower : l.count a ≤ (f i).count) (hupper : ∀ k, (f i).count ≤ l.count a + (f k).count)
    (hleaves : (f i).flowid ≠ z → (f i).flowid ≠ a → ∀ k, l.count (f i).flowid ≤ (f k).count) :
    Saves z (Function.update f i ⟨a, (f i).count + 1⟩) (a :: l) := by
  have hle := count_le_update (f := f) (i := i) (e := ⟨a, (f i).count + 1⟩) (Nat.le_succ _)
  constructor
  · intro j hj
    by_cases hji : j = i
    · subst hji
      rw [Function.update_self] at hj
      exact absurd hj ha
    · rw [Function.update_of_ne hji] at hj ⊢
      exact h.empty j hj
  · intro j k hj hjk
    by_cases hji : j = i
    · subst hji
      by_contra hne
      rw [Function.update_self, Function.update_of_ne (Ne.symm hne)] at hjk
      exact hother k (Ne.symm hne) (hjk ▸ ha) hjk.symm
    · rw [Function.update_of_ne hji] at hj hjk
      by_cases hki : k = i
      · subst hki
        rw [Function.update_self] at hjk
        exact absurd hjk (hother j hji hj)
      · rw [Function.update_of_ne hki] at hjk
        exact h.distinct hj hjk
  · exact h.total_update a i
  · intro j hj
    by_cases hji : j = i
    · subst hji
      rw [Function.update_self, List.count_cons_self]
      exact Nat.succ_le_succ hlower
    · rw [Function.update_of_ne hji] at hj ⊢
      rw [List.count_cons_of_ne (hother j hji hj).symm]
      exact h.lower j hj
  · intro j k hj
    refine Nat.le_trans ?_ (Nat.add_le_add_left (hle k) _)
    by_cases hji : j = i
    · subst hji
      rw [Function.update_self, List.count_cons_self]
      have := hupper k
      dsimp only
      omega
    · rw [Function.update_of_ne hji] at hj ⊢
      rw [List.count_cons_of_ne (hother j hji hj).symm]
      exact h.upper j k hj
  · intro b hb hgone j
    have hba : b ≠ a := by
      rintro rfl
      exact hgone i (by rw [Function.update_self])
    rw [List.count_cons_of_ne hba.symm]
    refine Nat.le_trans ?_ (hle j)
    by_cases hbi : (f i).flowid = b
    · subst hbi
      exact hleaves hb hba j
    · refine h.absent hb (fun k hk => ?_) j
      by_cases hki : k = i
      · exact hbi (hki ▸ hk)
      · exact hgone k (by rwa [Function.update_of_ne hki])

/-- A packet of a stored flow. -/
theorem hit (h : Saves z f l) (ha : a ≠ z) {i : ι} (hi : (f i).flowid = a) :
    Saves z (Function.update f i ⟨a, (f i).count + 1⟩) (a :: l) := by
  subst hi
  apply h.put ha
  · intro j hji hj heq
    exact hji (h.distinct hj heq)
  · exact h.lower i ha
  · intro k
    exact h.upper i k ha
  · intro _ hne
    exact absurd rfl hne

/-- A packet of another flow takes a slot with the smallest count. -/
theorem replace (h : Saves z f l) (ha : a ≠ z) (habs : ∀ i, (f i).flowid ≠ a) {i : ι}
    (hmin : ∀ j, (f i).count ≤ (f j).count) :
    Saves z (Function.update f i ⟨a, (f i).count + 1⟩) (a :: l) := by
  apply h.put ha
  · intro j _ _
    exact habs j
  · exact h.absent ha habs i
  · intro k
    exact (hmin k).trans (Nat.le_add_left _ _)
  · -- the flow that has to leave has at most the smallest count
    intro hi _ k
    exact (h.lower i hi).trans (hmin k)

omit [DecidableEq ι] in
theorem of_reverse (h : Saves z f l.reverse) : Saves z f l where
  empty := h.empty
  distinct := h.distinct
  total := by simpa using h.total
  lower := by simpa using h.lower
  upper := by simpa using h.upper
  absent {a} ha habs := by simpa using h.absent ha habs

omit [DecidableEq ι] in
/-- A flow with more than its share of the packets has a slot. -/
theorem stored_of_frequent (h : Saves z f l) (ha : a ≠ z)
    (hfreq : l.length < Fintype.card ι * l.count a) : ∃ i, (f i).flowid = a := by
  by_contra hno
  have habs : ∀ i, (f i).flowid ≠ a := fun i hi => hno ⟨i, hi⟩
  have hsum : ∑ _i : ι, l.count a ≤ ∑ i, (f i).count :=
    Finset.sum_le_sum fun i _ => h.absent ha habs i
  rw [h.total, Finset.sum_const, Finset.card_univ, smul_eq_mul] at hsum
  omega

end Saves

end SpaceSaving

end P4Survey.Lib
