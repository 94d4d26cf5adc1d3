import Mathlib.Data.List.GetD
import Mathlib.Data.List.OfFn
import Mathlib.Tactic

/-! # Data in memory

A memory gives the byte at each address: copying a list of bytes to an address changes the
block it covers and nothing else. A list in a ring is stored in an array of fixed size from
some index on, round the end of the array; it can be read from the front and extended
behind. Linked nodes have a link to the next node or none: the nodes that one comes to from
a link form a list, and a walk along them needs as many steps as the list is long.
-/

namespace P4Survey.Lib

section Bytes

/-- Copy the bytes of `src` to the addresses from `dst` on. -/
def memcpy (m : ℕ → UInt8) (dst : ℕ) (src : List UInt8) : ℕ → UInt8 :=
  fun a => if dst ≤ a then src.getD (a - dst) (m a) else m a

/-- The `size` bytes from `src` on. -/
def loadBytes (m : ℕ → UInt8) (src size : ℕ) : List UInt8 := List.ofFn fun i : Fin size => m (src + i)

variable (m : ℕ → UInt8)

@[simp] theorem loadBytes_length (src size : ℕ) : (loadBytes m src size).length = size :=
  List.length_ofFn

theorem loadBytes_memcpy_self (dst : ℕ) (l : List UInt8) :
    loadBytes (memcpy m dst l) dst l.length = l := by
  apply List.ext_getElem
  · simp
  · intro i _ hi
    simp [loadBytes, memcpy]

theorem loadBytes_congr {m' : ℕ → UInt8} {src size : ℕ}
    (h : ∀ a, src ≤ a → a < src + size → m' a = m a) : loadBytes m' src size = loadBytes m src size := by
  apply List.ext_getElem
  · simp
  · intro i hi _
    rw [loadBytes_length] at hi
    simp only [loadBytes, List.getElem_ofFn]
    exact h (src + i) (Nat.le_add_right src i) (Nat.add_lt_add_left hi src)

/-- Addresses in front of the copy and behind it are not touched. -/
theorem memcpy_of_outside {dst a : ℕ} {l : List UInt8} (h : a < dst ∨ dst + l.length ≤ a) :
    memcpy m dst l a = m a := by
  rw [memcpy]
  split_ifs with hd
  · apply List.getD_eq_default
    omega
  · rfl

/-- A block that the copy does not reach keeps its bytes. -/
theorem loadBytes_memcpy_of_disjoint {dst src size : ℕ} {l : List UInt8}
    (h : src + size ≤ dst ∨ dst + l.length ≤ src) :
    loadBytes (memcpy m dst l) src size = loadBytes m src size :=
  loadBytes_congr m fun _ _ _ => memcpy_of_outside m (by omega)

/-- Blocks of one size at different positions do not overlap. -/
theorem block_disjoint {size i j : ℕ} (h : i ≠ j) :
    size * i + size ≤ size * j ∨ size * j + size ≤ size * i := by
  rcases Nat.lt_or_gt_of_ne h with hlt | hlt
  · left
    rw [← Nat.mul_succ]
    exact Nat.mul_le_mul_left size hlt
  · right
    rw [← Nat.mul_succ]
    exact Nat.mul_le_mul_left size hlt

end Bytes

section Ring

variable {α : Type*} {size : ℕ} {f : ℕ → α} {start : ℕ} {l : List α}

/-- The cells from `start` on hold the list. -/
def Holds (size : ℕ) (f : ℕ → α) : ℕ → List α → Prop
  | _, [] => True
  | start, a :: l => f start = a ∧ Holds size f ((start + 1) % size) l

/-- The index behind the list. -/
def ringEnd (size start : ℕ) (l : List α) : ℕ := (start + l.length) % size

theorem ringEnd_cons (a : α) (l : List α) :
    ringEnd size start (a :: l) = ringEnd size ((start + 1) % size) l := by
  rw [ringEnd, ringEnd, List.length_cons, Nat.mod_add_mod, Nat.add_right_comm, Nat.add_assoc]

theorem ringEnd_concat (a : α) (l : List α) :
    ringEnd size start (l ++ [a]) = (ringEnd size start l + 1) % size := by
  rw [ringEnd, ringEnd, List.length_append, List.length_singleton, Nat.mod_add_mod, Nat.add_assoc]

/-- A list that is not empty and not as long as the ring ends elsewhere than it starts. -/
theorem ringEnd_ne (hstart : start < size) (hl : l ≠ []) (hlen : l.length < size) :
    ringEnd size start l ≠ start := by
  have hpos := List.length_pos_of_ne_nil hl
  rw [ringEnd]
  by_cases hlt : start + l.length < size
  · rw [Nat.mod_eq_of_lt hlt]
    omega
  · rw [Nat.mod_eq_sub_mod (not_lt.mp hlt), Nat.mod_eq_of_lt (by omega)]
    omega

/-- What is written behind the list extends it. -/
theorem Holds.push (h : Holds size f start l) (hstart : start < size) (hlen : l.length < size)
    (x : α) : Holds size (Function.update f (ringEnd size start l) x) start (l ++ [x]) := by
  induction l generalizing start with
  | nil =>
    have hend : ringEnd size start ([] : List α) = start := Nat.mod_eq_of_lt hstart
    rw [hend]
    exact ⟨Function.update_self .., trivial⟩
  | cons a l ih =>
    have hne := ringEnd_ne hstart (List.cons_ne_nil a l) hlen
    refine ⟨?_, ?_⟩
    · rw [Function.update_of_ne hne.symm]
      exact h.1
    · rw [ringEnd_cons]
      exact ih h.2 (Nat.mod_lt _ (by omega)) ((Nat.lt_succ_self _).trans hlen)

end Ring

section Links

variable {α : Type*} {next next' : α → Option α} {p : Option α} {a : α} {l : List α}

/-- The list of the nodes from a link on. -/
def Linked (next : α → Option α) : Option α → List α → Prop
  | p, [] => p = none
  | p, a :: l => p = some a ∧ Linked next (next a) l

/-- The first node from a link on that passes a test, or `none` after too many steps. -/
def firstAlong (next : α → Option α) (test : α → Bool) : ℕ → Option α → Option (Option α)
  | _, none => some none
  | 0, some _ => none
  | fuel + 1, some a => if test a then some (some a) else firstAlong next test fuel (next a)

namespace Linked

theorem congr (h : Linked next p l) (hnext : ∀ a ∈ l, next' a = next a) : Linked next' p l := by
  induction l generalizing p with
  | nil => exact h
  | cons a l ih =>
    refine ⟨h.1, ?_⟩
    rw [hnext a List.mem_cons_self]
    exact ih h.2 fun b hb => hnext b (List.mem_cons_of_mem a hb)

theorem firstAlong (h : Linked next p l) (test : α → Bool) {fuel : ℕ} (hfuel : l.length ≤ fuel) :
    firstAlong next test fuel p = some (l.find? test) := by
  induction l generalizing p fuel with
  | nil =>
    rw [h]
    cases fuel <;> rfl
  | cons a l ih =>
    cases fuel with
    | zero => exact absurd hfuel (Nat.not_succ_le_zero _)
    | succ fuel =>
      rw [h.1, Lib.firstAlong, List.find?_cons]
      by_cases ha : test a = true
      · rw [if_pos ha, ha]
      · rw [if_neg ha, ih h.2 (Nat.le_of_succ_le_succ hfuel), Bool.eq_false_iff.mpr ha]

end Linked

end Links

end P4Survey.Lib
