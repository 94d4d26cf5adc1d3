import Mathlib.Logic.Function.Basic
import Mathlib.Tactic

/-! # Register arrays of a v1model switch

A register array has a fixed number of cells. A read outside the array returns
zero and a write outside it has no effect, so the two operations are total in
the index. Where a result should not rest on this zero, the array is an open one,
with the values of these reads left to it. The drop port is the egress
specification that `mark_to_drop` sets.
-/

namespace P4Survey.Lib

/-- `size` cells of `w` bits. -/
@[ext] structure Register (w size : ℕ) where
  cell : Fin size → BitVec w

namespace Register

variable {w size : ℕ}

/-- All cells hold the same value. -/
def fill (size : ℕ) (v : BitVec w) : Register w size := ⟨fun _ => v⟩

def read (r : Register w size) (i : ℕ) : BitVec w :=
  if h : i < size then r.cell ⟨i, h⟩ else 0#w

def write (r : Register w size) (i : ℕ) (v : BitVec w) : Register w size :=
  if h : i < size then ⟨Function.update r.cell ⟨i, h⟩ v⟩ else r

theorem read_of_size_le (r : Register w size) {i : ℕ} (h : size ≤ i) : r.read i = 0#w := by
  simp [read, Nat.not_lt.mpr h]

theorem write_of_size_le (r : Register w size) {i : ℕ} (h : size ≤ i) (v : BitVec w) :
    r.write i v = r := by
  simp [write, Nat.not_lt.mpr h]

@[simp] theorem read_fill_zero (i : ℕ) : (fill size (0#w)).read i = 0#w := by
  unfold read fill
  split <;> rfl

theorem read_write_self (r : Register w size) {i : ℕ} (h : i < size) (v : BitVec w) :
    (r.write i v).read i = v := by
  simp [read, write, h]

theorem read_write_of_ne (r : Register w size) {i j : ℕ} (h : i ≠ j) (v : BitVec w) :
    (r.write i v).read j = r.read j := by
  by_cases hi : i < size
  · by_cases hj : j < size
    · have hne : (⟨j, hj⟩ : Fin size) ≠ ⟨i, hi⟩ := by
        intro he
        exact h (Fin.mk.inj he).symm
      simp [read, write, hi, hj, Function.update_of_ne hne]
    · simp [read, hj]
  · simp [write, hi]

/-- A read after a write returns the written value exactly at a written cell. -/
theorem read_write (r : Register w size) (i j : ℕ) (v : BitVec w) :
    (r.write i v).read j = if i = j ∧ i < size then v else r.read j := by
  by_cases he : i = j
  · subst j
    by_cases hi : i < size
    · simp [read_write_self, hi]
    · simp [write_of_size_le r (Nat.le_of_not_lt hi), hi]
  · simp [read_write_of_ne r he, he]

@[simp] theorem write_write (r : Register w size) (i : ℕ) (v v' : BitVec w) :
    (r.write i v).write i v' = r.write i v' := by
  by_cases hi : i < size
  · simp [write, hi]
  · simp [write, hi]

end Register

/-- A register array with what its reads outside the array return: the switch leaves it open. -/
@[ext] structure OpenRegister (w size : ℕ) extends Register w size where
  outside : ℕ → BitVec w

namespace OpenRegister

variable {w size : ℕ}

/-- All cells hold the same value, and reads outside return zero. -/
def fill (size : ℕ) (v : BitVec w) : OpenRegister w size := ⟨.fill size v, fun _ => 0#w⟩

def read (r : OpenRegister w size) (i : ℕ) : BitVec w :=
  if i < size then r.toRegister.read i else r.outside i

def write (r : OpenRegister w size) (i : ℕ) (v : BitVec w) : OpenRegister w size :=
  { r with toRegister := r.toRegister.write i v }

theorem read_of_lt (r : OpenRegister w size) {i : ℕ} (h : i < size) :
    r.read i = r.toRegister.read i := if_pos h

theorem read_of_size_le (r : OpenRegister w size) {i : ℕ} (h : size ≤ i) :
    r.read i = r.outside i := if_neg (Nat.not_lt.mpr h)

@[simp] theorem outside_write (r : OpenRegister w size) (i : ℕ) (v : BitVec w) :
    (r.write i v).outside = r.outside := rfl

@[simp] theorem read_fill_zero (i : ℕ) : (fill size (0#w)).read i = 0#w := by
  unfold read
  split
  · exact Register.read_fill_zero i
  · rfl

theorem read_write_self (r : OpenRegister w size) {i : ℕ} (h : i < size) (v : BitVec w) :
    (r.write i v).read i = v := by
  rw [read_of_lt _ h]
  exact Register.read_write_self _ h v

theorem read_write_of_ne (r : OpenRegister w size) {i j : ℕ} (h : i ≠ j) (v : BitVec w) :
    (r.write i v).read j = r.read j := by
  unfold read
  rw [outside_write]
  split
  · exact Register.read_write_of_ne _ h v
  · rfl

end OpenRegister

/-- The port number a v1model switch uses for dropped packets. -/
def dropPort : BitVec 9 := 511#9

end P4Survey.Lib
