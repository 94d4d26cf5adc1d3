import Mathlib.Tactic

/-! # Signed words, their bytes, and division

The value that a signed integer of 32 or 64 bits takes when a larger number is stored in
it, the bytes of a word of 32 bits with the lowest one first, and division that fails on
zero.
-/

namespace P4Survey.Lib

section Signed

/-- A number stored in a signed integer of 32 bits. -/
def int32 (x : ℤ) : ℤ := x.bmod (2 ^ 32)

variable {x : ℤ}

theorem int32_of_fits (hlow : -2 ^ 31 ≤ x) (hhigh : x < 2 ^ 31) : int32 x = x := by
  rw [int32]
  apply Int.bmod_eq_of_le_mul_two <;> push_cast <;> omega

theorem int32_le (h : 0 ≤ x) : int32 x ≤ x := by
  rw [int32, Int.bmod_def]
  push_cast
  split_ifs <;> omega

/-- Numbers with the same remainder are stored alike. -/
theorem int32_sub_mod (x : ℤ) (n : ℕ) : int32 (x - (n % 2 ^ 32 : ℕ)) = int32 (x - n) := by
  rw [int32, int32, Int.bmod_sub_cancel_left, Int.natCast_mod, Int.emod_bmod]

/-- A number stored in a signed integer of 64 bits. -/
def int64 (x : ℤ) : ℤ := x.bmod (2 ^ 64)

theorem int64_of_fits (hlow : -2 ^ 63 ≤ x) (hhigh : x < 2 ^ 63) : int64 x = x := by
  rw [int64]
  apply Int.bmod_eq_of_le_mul_two <;> push_cast <;> omega

end Signed

section Bytes

/-- The bytes of a 32-bit word. -/
def wordBytes (n : ℕ) : List UInt8 :=
  [UInt8.ofNat n, UInt8.ofNat (n / 2 ^ 8), UInt8.ofNat (n / 2 ^ 16), UInt8.ofNat (n / 2 ^ 24)]

/-- The word at the start of some bytes. -/
def wordOf (l : List UInt8) : ℕ :=
  (l.getD 0 0).toNat + 2 ^ 8 * (l.getD 1 0).toNat + 2 ^ 16 * (l.getD 2 0).toNat +
    2 ^ 24 * (l.getD 3 0).toNat

/-- The bytes of a signed number. -/
def intBytes (v : ℤ) : List UInt8 := wordBytes (v % 2 ^ 32).toNat

/-- The signed number at the start of some bytes. -/
def intOf (l : List UInt8) : ℤ := int32 (wordOf l)

@[simp] theorem length_wordBytes (n : ℕ) : (wordBytes n).length = 4 := rfl

@[simp] theorem length_intBytes (v : ℤ) : (intBytes v).length = 4 := rfl

theorem wordOf_append (n : ℕ) (l : List UInt8) : wordOf (wordBytes n ++ l) = n % 2 ^ 32 := by
  simp only [wordOf, wordBytes, List.cons_append, List.getD_cons_zero, List.getD_cons_succ,
    UInt8.toNat_ofNat']
  omega

theorem intOf_append {v : ℤ} (hlow : -2 ^ 31 ≤ v) (hhigh : v < 2 ^ 31) (l : List UInt8) :
    intOf (intBytes v ++ l) = v := by
  have hnonneg : 0 ≤ v % 2 ^ 32 := Int.emod_nonneg v (by norm_num)
  have hlt : (v % 2 ^ 32).toNat < 2 ^ 32 := by omega
  rw [intOf, intBytes, wordOf_append, Nat.mod_eq_of_lt hlt, Int.toNat_of_nonneg hnonneg]
  have hmod : int32 (v % 2 ^ 32) = int32 v := Int.emod_bmod v (2 ^ 32)
  rw [hmod, int32_of_fits hlow hhigh]

end Bytes

/-- A quotient, if the divisor is not zero. -/
def divide (a b : ℕ) : Option ℕ := if b = 0 then none else some (a / b)

theorem divide_of_pos {a b : ℕ} (h : 0 < b) : divide a b = some (a / b) := if_neg h.ne'

end P4Survey.Lib
