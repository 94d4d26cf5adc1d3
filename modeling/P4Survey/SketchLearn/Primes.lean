import Mathlib.NumberTheory.Bertrand

/-! # The next prime

`is_prime` and `calc_next_prime` of `hash.c`, by which the tables choose their sizes.
-/

namespace P4Survey.SketchLearn

/-- No divisor stops the loop before the number itself. -/
def isPrime (num : ℕ) : Bool :=
  decide (2 ≤ num) && (List.range' 2 (num - 2)).all fun i => num % i != 0

/-- The loop of `calc_next_prime`, which gives up after some steps. -/
def nextPrime : ℕ → ℕ → Option ℕ
  | 0, _ => none
  | fuel + 1, num => if isPrime num then some num else nextPrime fuel (num + 1)

def calcNextPrime (num : ℕ) : Option ℕ := nextPrime (num + 3) num

theorem isPrime_iff {num : ℕ} : isPrime num = true ↔ num.Prime := by
  rw [Nat.prime_def_lt', isPrime, Bool.and_eq_true, decide_eq_true_iff, List.all_eq_true]
  constructor
  · rintro ⟨htwo, hall⟩
    refine ⟨htwo, fun m hm hlt hdvd => ?_⟩
    have hmod := hall m (List.mem_range'_1.mpr ⟨hm, by omega⟩)
    rw [Nat.mod_eq_zero_of_dvd hdvd] at hmod
    exact absurd hmod (by decide)
  · rintro ⟨htwo, hall⟩
    refine ⟨htwo, fun m hm => ?_⟩
    obtain ⟨hlow, hhigh⟩ := List.mem_range'_1.mp hm
    rw [bne_iff_ne]
    exact fun hmod => hall m hlow (by omega) (Nat.dvd_of_mod_eq_zero hmod)

theorem nextPrime_eq {fuel num p : ℕ} (hp : p.Prime) (hle : num ≤ p) (hfuel : p < num + fuel) :
    ∃ q, nextPrime fuel num = some q ∧ q.Prime ∧ q ≤ p := by
  induction fuel generalizing num with
  | zero => omega
  | succ fuel ih =>
    by_cases hnum : isPrime num = true
    · exact ⟨num, if_pos hnum, isPrime_iff.mp hnum, hle⟩
    · have hne : num ≠ p := fun heq => hnum (isPrime_iff.mpr (heq ▸ hp))
      rw [nextPrime, if_neg hnum]
      exact ih (by omega) (by omega)

/-- There is a prime before the double of a number. -/
theorem calcNextPrime_eq (num : ℕ) :
    ∃ p, calcNextPrime num = some p ∧ p.Prime ∧ p ≤ 2 * num + 2 := by
  by_cases hzero : num = 0
  · subst hzero
    exact nextPrime_eq Nat.prime_two (by omega) (by omega)
  · obtain ⟨p, hp, hlt, hle⟩ := Nat.exists_prime_lt_and_le_two_mul num hzero
    obtain ⟨q, hq, hprime, hqp⟩ := nextPrime_eq hp hlt.le (by omega : p < num + (num + 3))
    exact ⟨q, hq, hprime, by omega⟩

end P4Survey.SketchLearn
