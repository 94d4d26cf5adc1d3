import Mathlib.Data.Nat.ModEq
import Mathlib.Tactic

/-! # Comparing numbers by their residues

Of numbers that lie in a window of `K` numbers from `L` on, only the residues
modulo `K` are known. A residue below that of `L` belongs to a number that has
passed a multiple of `K`. Among the numbers that did, and among those that did
not, the residues are ordered as the numbers are, and a number that did is larger
than one that did not.
-/

namespace P4Survey.Lib

/-- The number has passed a multiple of `K` since `L`. -/
def Wrapped (K L a : ℕ) : Prop := a % K < L % K

instance (K L a : ℕ) : Decidable (Wrapped K L a) := inferInstanceAs (Decidable (_ < _))

/-- The number lies in the window that starts at `L`. -/
def InWindow (K L a : ℕ) : Prop := L ≤ a ∧ a < L + K

instance (K L a : ℕ) : Decidable (InWindow K L a) := inferInstanceAs (Decidable (_ ∧ _))

variable {K L a b : ℕ}

theorem InWindow.pos (h : InWindow K L a) : 0 < K := by
  have hlt := h.2
  have hle := h.1
  omega

theorem InWindow.eq (h : InWindow K L a) :
    a = K * (L / K) + (if Wrapped K L a then K else 0) + a % K := by
  have hK := h.pos
  have hL := Nat.div_add_mod L K
  have ha := Nat.div_add_mod a K
  have hLm := Nat.mod_lt L hK
  have ham := Nat.mod_lt a hK
  have hlow : L / K ≤ a / K := Nat.div_le_div_right h.1
  have hhigh : a / K ≤ L / K + 1 := by
    rw [← Nat.add_div_right L hK]
    exact Nat.div_le_div_right h.2.le
  have hle := h.1
  have hlt := h.2
  rcases Nat.lt_or_ge (L / K) (a / K) with hq | hq
  · have hq' : a / K = L / K + 1 := by omega
    rw [hq', Nat.mul_succ] at ha
    have hw : Wrapped K L a := by
      change a % K < L % K
      omega
    rw [if_pos hw]
    omega
  · have hq' : a / K = L / K := by omega
    rw [hq'] at ha
    have hw : ¬Wrapped K L a := by
      change ¬a % K < L % K
      omega
    rw [if_neg hw]
    omega

/-- Two numbers that have both wrapped, or neither, compare as their residues. -/
theorem InWindow.lt_iff (ha : InWindow K L a) (hb : InWindow K L b)
    (h : Wrapped K L a ↔ Wrapped K L b) : a < b ↔ a % K < b % K := by
  have hea := ha.eq
  have heb := hb.eq
  rw [if_congr h rfl rfl] at hea
  omega

theorem InWindow.eq_iff (ha : InWindow K L a) (hb : InWindow K L b)
    (h : Wrapped K L a ↔ Wrapped K L b) : a = b ↔ a % K = b % K := by
  have hea := ha.eq
  have heb := hb.eq
  rw [if_congr h rfl rfl] at hea
  omega

/-- A number that has wrapped is past one that has not. -/
theorem InWindow.lt_of_wrapped (ha : InWindow K L a) (hb : InWindow K L b) (hna : ¬Wrapped K L a)
    (hwb : Wrapped K L b) : a < b := by
  have hea := ha.eq
  have heb := hb.eq
  have hmod := Nat.mod_lt a ha.pos
  rw [if_neg hna] at hea
  rw [if_pos hwb] at heb
  omega

end P4Survey.Lib
