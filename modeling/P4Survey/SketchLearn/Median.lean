import P4Survey.Lib.Sorted
import P4Survey.SketchLearn.Counters

/-! # The median of the estimates

The part of `skl_est_bucket_size` that sorts the estimates of the bits of a key and selects
one of them.
-/

namespace P4Survey.SketchLearn

open Lib

/-- `cmp_int32` -/
def cmpInt32 (a b : ℤ) : ℤ := if a < b then 1 else 0

/-- What `qsort` leaves: no element compares as greater than a later one. -/
def qsort (cmp : ℤ → ℤ → ℤ) (l : List ℤ) : List ℤ := l.insertionSort fun a b => cmp a b ≤ 0

def readAt (l : List ℤ) (i : ℤ) : Except Fault ℤ :=
  if 0 ≤ i then
    match l[i.toNat]? with
    | some v => .ok v
    | none => .error .outside
  else .error .outside

/-- The value that is selected. `bit_est` has 104 places, and the sum is one of 32 bits. -/
def selectEst (est : List ℤ) : Except Fault ℤ :=
  let nBit := est.length
  let bitEst := qsort cmpInt32 est
  if 104 < nBit then .error .outside
  else if nBit / 2 = 1 then readAt bitEst (nBit / 2 : ℕ)
  else (readAt bitEst ((nBit / 2 : ℕ) - 1)).bind fun a =>
    (readAt bitEst ((nBit / 2 : ℕ) - 1)).bind fun b => (fit (a + b)).map fun v => v.tdiv 2

/-- The element in the middle, or the mean of the two in the middle as C divides. -/
def median (est : List ℤ) : ℤ :=
  if est.length % 2 = 1 then ranked est (est.length / 2)
  else (ranked est (est.length / 2 - 1) + ranked est (est.length / 2)).tdiv 2

/-- The two elements in the middle in descending order, the second one in the middle itself if
their number is odd. -/
def upper (est : List ℤ) : ℤ := ranked est (est.length - est.length / 2)

def lower (est : List ℤ) : ℤ := ranked est (est.length - 1 - est.length / 2)

/-- Three estimates, or two or at least four with equal ones in the middle. If their number is
even, neighbours will do if the division rounds to the one that is taken. -/
def MiddleTied (est : List ℤ) : Prop :=
  est.length = 3 ∨
    est.length = 2 ∧ (upper est = lower est ∨ upper est = lower est + 1 ∧ 0 ≤ lower est) ∨
    4 ≤ est.length ∧ est.length ≤ 104 ∧ -2 ^ 30 ≤ upper est ∧ upper est < 2 ^ 30 ∧
      (upper est = lower est ∨
        est.length % 2 = 0 ∧ upper est = lower est + 1 ∧ lower est < 0)

variable {est : List ℤ}

theorem qsort_perm (cmp : ℤ → ℤ → ℤ) (l : List ℤ) : (qsort cmp l).Perm l :=
  List.perm_insertionSort _ l

theorem cmpInt32_le_iff (a b : ℤ) : cmpInt32 a b ≤ 0 ↔ a ≥ b := by
  unfold cmpInt32
  split_ifs <;> omega

/-- The comparison orders the estimates downwards. -/
theorem qsort_descending (l : List ℤ) : (qsort cmpInt32 l).Pairwise (· ≥ ·) := by
  have hsort : qsort cmpInt32 l = l.insertionSort (· ≥ ·) := by
    simp only [qsort, cmpInt32_le_iff]
  rw [hsort]
  exact List.pairwise_insertionSort (· ≥ ·) l

theorem readAt_ok {i : ℕ} (hi : i < est.length) :
    readAt (qsort cmpInt32 est) i = .ok (ranked est (est.length - 1 - i)) := by
  rw [readAt, if_pos (Int.natCast_nonneg i), Int.toNat_natCast,
    getElem?_of_descending (qsort_perm _ est) (qsort_descending est) hi]

theorem readAt_negative (l : List ℤ) {i : ℤ} (hi : i < 0) : readAt l i = .error .outside :=
  if_neg (not_le.mpr hi)

theorem tdiv_double (a : ℤ) : (a + a).tdiv 2 = a := by
  rw [← two_mul, mul_comm]
  exact Int.mul_tdiv_cancel a two_ne_zero

/-- The mean of two numbers is the lower one if they are equal, or neighbours that are rounded
down. -/
theorem mean_eq_low {a b : ℤ} (h : a ≤ b) :
    (a + b).tdiv 2 = a ↔ b = a ∨ b = a + 1 ∧ 0 ≤ a := by
  rw [Int.tdiv_eq_ediv, show Int.sign 2 = 1 from rfl]
  split_ifs <;> omega

theorem mean_eq_high {a b : ℤ} (h : a ≤ b) :
    (a + b).tdiv 2 = b ↔ b = a ∨ b = a + 1 ∧ a < 0 := by
  rw [Int.tdiv_eq_ediv, show Int.sign 2 = 1 from rfl]
  split_ifs <;> omega

theorem lower_le_upper (h : 2 ≤ est.length) : lower est ≤ upper est :=
  ranked_le (by omega) (by omega)

theorem median_odd (h : est.length % 2 = 1) : median est = lower est := by
  rw [median, if_pos h, lower, show est.length - 1 - est.length / 2 = est.length / 2 by omega]

theorem median_even (h : est.length % 2 = 0) :
    median est = (lower est + upper est).tdiv 2 := by
  rw [median, if_neg (by omega), lower, upper,
    show est.length - 1 - est.length / 2 = est.length / 2 - 1 by omega,
    show est.length - est.length / 2 = est.length / 2 by omega]

/-- Of two or three estimates the second is taken. -/
theorem selectEst_short (h : est.length / 2 = 1) : selectEst est = .ok (lower est) := by
  unfold selectEst
  dsimp only
  rw [if_neg (by omega), if_pos h, readAt_ok (by omega)]
  rfl

/-- Of four or more the one before the middle is taken, and doubled first. -/
theorem selectEst_long (hlong : 4 ≤ est.length) (hroom : est.length ≤ 104) :
    selectEst est = (fit (upper est + upper est)).map fun v => v.tdiv 2 := by
  have hread : readAt (qsort cmpInt32 est) ((est.length / 2 : ℕ) - 1) = .ok (upper est) := by
    rw [← Int.natCast_pred_of_pos (by omega : 0 < est.length / 2), readAt_ok (by omega), upper,
      show est.length - 1 - (est.length / 2 - 1) = est.length - est.length / 2 by omega]
  unfold selectEst
  dsimp only
  rw [if_neg (by omega), if_neg (by omega), hread]
  rfl

/-- A single estimate is not read, but what is before it. -/
theorem selectEst_single (h : est.length / 2 = 0) : selectEst est = .error .outside := by
  unfold selectEst
  dsimp only
  rw [if_neg (by omega), if_neg (by omega), readAt_negative _ (by omega)]
  rfl

theorem selectEst_outside (h : 104 < est.length) : selectEst est = .error .outside := if_pos h

theorem fit_double (a v : ℤ) :
    ((fit (a + a)).map fun v => v.tdiv 2) = .ok v ↔
      (-2 ^ 30 ≤ a ∧ a < 2 ^ 30) ∧ a = v := by
  unfold fit
  by_cases hfits : -2 ^ 31 ≤ a + a ∧ a + a < 2 ^ 31
  · rw [if_pos hfits]
    change Except.ok ((a + a).tdiv 2) = .ok v ↔ _
    rw [tdiv_double, Except.ok.injEq]
    exact ⟨fun h => ⟨by omega, h⟩, fun h => h.2⟩
  · rw [if_neg hfits]
    exact ⟨fun h => (by cases h), fun h => absurd h.1 (by omega)⟩

/-- The median is selected, and nothing outside of the array is read, exactly if there are
three estimates or those in the middle hardly differ. -/
theorem selects_median_iff (est : List ℤ) :
    selectEst est = .ok (median est) ↔ MiddleTied est := by
  unfold MiddleTied
  by_cases hroom : est.length ≤ 104
  · rcases Nat.lt_or_ge est.length 2 with hsingle | htwo
    · rw [selectEst_single (by omega)]
      exact ⟨fun h => (by cases h), fun h => by omega⟩
    · have hle := lower_le_upper htwo
      rcases Nat.lt_or_ge est.length 4 with hshort | hlong
      · rw [selectEst_short (by omega), Except.ok.injEq]
        by_cases hodd : est.length % 2 = 1
        · rw [median_odd hodd]
          exact ⟨fun _ => .inl (by omega), fun _ => rfl⟩
        · rw [median_even (by omega), eq_comm, mean_eq_low hle]
          exact ⟨fun h => .inr (.inl ⟨by omega, h⟩), fun h => by omega⟩
      · rw [selectEst_long hlong hroom, fit_double]
        by_cases hodd : est.length % 2 = 1
        · rw [median_odd hodd]
          exact ⟨fun h => .inr (.inr ⟨hlong, hroom, h.1.1, h.1.2, .inl h.2⟩),
            fun h => by omega⟩
        · rw [median_even (by omega), eq_comm (a := upper est), mean_eq_high hle]
          constructor
          · rintro ⟨⟨hlow, hhigh⟩, htied | hnext⟩
            · exact .inr (.inr ⟨hlong, hroom, hlow, hhigh, .inl htied⟩)
            · exact .inr (.inr ⟨hlong, hroom, hlow, hhigh, .inr ⟨by omega, hnext⟩⟩)
          · intro h
            omega
  · rw [selectEst_outside (by omega)]
    exact ⟨fun h => (by cases h), fun h => by omega⟩

/-- Of five different estimates the second largest is selected. -/
theorem median_missed : selectEst [1, 2, 3, 4, 5] ≠ .ok (median [1, 2, 3, 4, 5]) := by
  decide

end P4Survey.SketchLearn
