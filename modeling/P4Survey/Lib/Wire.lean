import Mathlib.Data.Nat.Bitwise
import Mathlib.Tactic

/-! # Bit strings on the wire

A packet is a bit string. A field of width `w` is written with its most
significant bit first, and reading it takes the first `w` bits or fails when
fewer are left, as the `extract` of a P4 parser does.
-/

namespace P4Survey.Lib

/-- The lowest `w` bits of a number, highest first. -/
def bitsOf : ℕ → ℕ → List Bool
  | 0, _ => []
  | w + 1, n => n.testBit w :: bitsOf w n

/-- The number a bit string denotes, highest bit first. -/
def valueOf : List Bool → ℕ
  | [] => 0
  | b :: l => b.toNat * 2 ^ l.length + valueOf l

@[simp] theorem bitsOf_length (w n : ℕ) : (bitsOf w n).length = w := by
  induction w with
  | zero => rfl
  | succ w ih => simp [bitsOf, ih]

theorem valueOf_bitsOf (w n : ℕ) : valueOf (bitsOf w n) = n % 2 ^ w := by
  induction w with
  | zero => simp [bitsOf, valueOf, Nat.mod_one]
  | succ w ih =>
    rw [bitsOf, valueOf, ih, bitsOf_length, Nat.toNat_testBit, Nat.mod_pow_succ]
    ring

/-- The wire form of a field. -/
def bits {w : ℕ} (x : BitVec w) : List Bool := bitsOf w x.toNat

/-- Take one field of width `w` off the front, if enough bits are left. -/
def field (w : ℕ) (l : List Bool) : Option (BitVec w × List Bool) :=
  if w ≤ l.length then some (BitVec.ofNat w (valueOf (l.take w)), l.drop w) else none

@[simp] theorem bits_length {w : ℕ} (x : BitVec w) : (bits x).length = w := bitsOf_length w _

theorem ofNat_valueOf_bits {w : ℕ} (x : BitVec w) : BitVec.ofNat w (valueOf (bits x)) = x := by
  rw [bits, valueOf_bitsOf, Nat.mod_eq_of_lt x.isLt, BitVec.ofNat_toNat, BitVec.setWidth_eq]

theorem valueOf_lt (l : List Bool) : valueOf l < 2 ^ l.length := by
  induction l with
  | nil => simp [valueOf]
  | cons b l ih =>
    have hb : b.toNat ≤ 1 := b.toNat_le
    have hmul : b.toNat * 2 ^ l.length ≤ 1 * 2 ^ l.length := Nat.mul_le_mul_right _ hb
    rw [valueOf, List.length_cons, Nat.pow_succ]
    omega

theorem bitsOf_congr {w m n : ℕ} (h : ∀ i < w, m.testBit i = n.testBit i) :
    bitsOf w m = bitsOf w n := by
  induction w with
  | zero => rfl
  | succ w ih =>
    rw [bitsOf, bitsOf, h w (Nat.lt_succ_self w), ih fun i hi => h i (Nat.lt_succ_of_lt hi)]

theorem bitsOf_valueOf (l : List Bool) : bitsOf l.length (valueOf l) = l := by
  induction l with
  | nil => rfl
  | cons b l ih =>
    have hbit (i : ℕ) := Nat.testBit_two_pow_mul_add b.toNat (valueOf_lt l) i
    rw [List.length_cons, bitsOf, valueOf, Nat.mul_comm]
    congr 1
    · rw [hbit, if_neg (Nat.lt_irrefl _), Nat.sub_self]
      cases b <;> rfl
    · refine (bitsOf_congr fun i hi => ?_).trans ih
      rw [hbit, if_pos hi]

/-- Every bit string of the right length is the wire form of a field. -/
theorem exists_bits {w : ℕ} {l : List Bool} (h : l.length = w) : ∃ x : BitVec w, bits x = l := by
  subst h
  refine ⟨BitVec.ofNat _ (valueOf l), ?_⟩
  rw [bits, BitVec.toNat_ofNat, Nat.mod_eq_of_lt (valueOf_lt l), bitsOf_valueOf]

/-- A bit string that is long enough starts with a field. -/
theorem exists_bits_append {w : ℕ} {l : List Bool} (h : w ≤ l.length) :
    ∃ (x : BitVec w) (rest : List Bool), l = bits x ++ rest ∧ rest.length + w = l.length := by
  obtain ⟨x, hx⟩ := exists_bits (List.length_take_of_le h)
  refine ⟨x, l.drop w, by rw [hx, List.take_append_drop], ?_⟩
  rw [List.length_drop, Nat.sub_add_cancel h]

/-- Reading a field undoes writing it and leaves what follows. -/
@[simp] theorem field_bits_append {w : ℕ} (x : BitVec w) (rest : List Bool) :
    field w (bits x ++ rest) = some (x, rest) := by
  have hl : w ≤ (bits x ++ rest).length := by simp
  rw [field, if_pos hl, List.take_left' (bits_length x), List.drop_left' (bits_length x),
    ofNat_valueOf_bits]

/-- A field that was read stood in front. -/
theorem field_eq_some {w : ℕ} {l : List Bool} {p : BitVec w × List Bool}
    (h : field w l = some p) : l = bits p.1 ++ p.2 := by
  unfold field at h
  split_ifs at h with hl
  obtain rfl := Option.some.inj h
  have hw : (l.take w).length = w := List.length_take_of_le hl
  obtain ⟨x, hx⟩ := exists_bits hw
  rw [← hx, ofNat_valueOf_bits, hx, List.take_append_drop]

/-- Read one field and go on with the rest of the bits. -/
def take {α : Type*} (w : ℕ) (k : BitVec w → List Bool → Option α) (l : List Bool) : Option α :=
  (field w l).bind fun p => k p.1 p.2

@[simp] theorem take_bits_append {α : Type*} {w : ℕ} (k : BitVec w → List Bool → Option α)
    (x : BitVec w) (rest : List Bool) : take w k (bits x ++ rest) = k x rest := by
  simp [take]

theorem take_eq_some {α : Type*} {w : ℕ} {k : BitVec w → List Bool → Option α} {l : List Bool}
    {y : α} (h : take w k l = some y) : ∃ x rest, l = bits x ++ rest ∧ k x rest = some y := by
  obtain ⟨p, hp, hk⟩ := Option.bind_eq_some_iff.mp h
  exact ⟨p.1, p.2, field_eq_some hp, hk⟩

end P4Survey.Lib
