import P4Survey.HashPipe.HeavyHitters
import P4Survey.Lib.Sketch
import P4Survey.Lib.Words

/-! # The bounds of the Count-Min sketch

`Sketch.java` with the index in the arithmetic of Java. An index outside of its row is an
exception, here `none`. The counters are of type `long`, which no number of packets that
can be counted exceeds.
-/

namespace P4Survey.HashPipe
open Lib

/-- `(int) ((a * word + b) % p) % size`, where the product and the sum are of type `long`. -/
def javaHash (a b p size : ℕ) (word : ℤ) : ℤ := (int32 ((int64 (a * word + b)).tmod p)).tmod size

/-- As long as the sum fits into 63 bits it is what it looks like. -/
theorem javaHash_eq {a b p size word : ℕ} (hp : 0 < p) (hint : p ≤ 2 ^ 31)
    (hlong : a * word + b < 2 ^ 63) :
    javaHash a b p size word = ((a * word + b) % p % size : ℕ) := by
  have hsum : int64 (a * word + b) = (a * word + b : ℕ) := by
    rw [int64_of_fits]
    · push_cast
      rfl
    · have : (0 : ℤ) ≤ a * word + b := by positivity
      omega
    · exact_mod_cast hlong
  have hlt : (a * word + b) % p < p := Nat.mod_lt _ hp
  rw [javaHash, hsum, ← Int.ofNat_tmod, int32_of_fits (by omega) (by omega), ← Int.ofNat_tmod]

namespace Row

variable (r : Row) (size : ℕ) (word : ℤ)

def javaHash : ℤ := HashPipe.javaHash r.hashSeedA r.hashSeedB primeNumber size word

/-- The index of a row that is accessed. -/
def place : Option ℕ :=
  if 0 ≤ r.javaHash size word ∧ r.javaHash size word < size then some (r.javaHash size word).toNat
  else none

def javaIncrement : Option Row :=
  (r.place size word).map fun i => { r with cells := Function.update r.cells i (r.cells i + 1) }

def javaCount : Option ℕ := (r.place size word).map r.cells

end Row

namespace Sketch

variable (s : Sketch) (flowid : ℤ)

def javaUpdateCount : Option Sketch := do
  let row ← s.row.javaIncrement s.size flowid
  let rows ← s.rows.mapM fun r => r.javaIncrement s.size flowid
  return { s with row := row, rows := rows }

def javaEstimateCount : Option ℕ := do
  let first ← s.row.javaCount s.size flowid
  s.rows.foldlM (fun min r => do
    let count ← r.javaCount s.size flowid
    return if count < min then count else min) first

/-- The packets of a list, one after the other. -/
def javaUpdateAll (s : Sketch) : List ℕ → Option Sketch
  | [] => some s
  | flowid :: l => (s.javaUpdateCount flowid).bind fun s => s.javaUpdateAll l

/-- The sketch has columns, and its seeds are drawn below the prime. -/
structure Seeded : Prop where
  size : 0 < s.size
  seeds : ∀ r ∈ s.row :: s.rows, r.hashSeedA < primeNumber ∧ r.hashSeedB < primeNumber

end Sketch

section Refinement

variable {s : Sketch} {r : Row} {size flowid : ℕ}

/-- For a flow of 32 bits the index is that of the exact numbers. -/
theorem Row.javaHash_eq (ha : r.hashSeedA < primeNumber) (hb : r.hashSeedB < primeNumber)
    (hflow : flowid < 2 ^ 32) : r.javaHash size flowid = r.hash size flowid := by
  have hmul : r.hashSeedA * flowid ≤ primeNumber * 2 ^ 32 := Nat.mul_le_mul ha.le hflow.le
  apply HashPipe.javaHash_eq (by decide) (by decide)
  unfold primeNumber at *
  omega

theorem Row.place_eq (ha : r.hashSeedA < primeNumber) (hb : r.hashSeedB < primeNumber)
    (hsize : 0 < size) (hflow : flowid < 2 ^ 32) :
    r.place size flowid = some (r.hash size flowid) := by
  have hlt : r.hash size flowid < size := Nat.mod_lt _ hsize
  rw [place, javaHash_eq ha hb hflow, if_pos ⟨Int.natCast_nonneg _, by exact_mod_cast hlt⟩,
    Int.toNat_natCast]

namespace Sketch

theorem Seeded.place (h : s.Seeded) (hflow : flowid < 2 ^ 32) (hr : r ∈ s.row :: s.rows) :
    r.place s.size flowid = some (r.hash s.size flowid) :=
  Row.place_eq (h.seeds r hr).1 (h.seeds r hr).2 h.size hflow

theorem Seeded.updateCount (h : s.Seeded) (flowid : ℕ) : (s.updateCount flowid).Seeded := by
  refine ⟨h.size, fun r hr => ?_⟩
  obtain ⟨r', hr', rfl⟩ : ∃ r' ∈ s.row :: s.rows, r'.increment s.size flowid = r :=
    List.mem_map.mp hr
  exact h.seeds r' hr'

/-- No access is outside of its row, and the update is the one of exact numbers. -/
theorem Seeded.javaUpdateCount_eq (h : s.Seeded) (hflow : flowid < 2 ^ 32) :
    s.javaUpdateCount flowid = some (s.updateCount flowid) := by
  have hrow (r : Row) (hr : r ∈ s.row :: s.rows) :
      r.javaIncrement s.size flowid = some (r.increment s.size flowid) := by
    rw [Row.javaIncrement, h.place hflow hr]
    rfl
  have hrows (l : List Row) (hl : ∀ r ∈ l, r ∈ s.row :: s.rows) :
      l.mapM (fun r => r.javaIncrement s.size flowid) =
        some (l.map fun r => r.increment s.size flowid) := by
    induction l with
    | nil => rfl
    | cons r l ih =>
      rw [List.mapM_cons, hrow r (hl r List.mem_cons_self),
        ih fun r' hr' => hl r' (List.mem_cons_of_mem r hr')]
      rfl
  rw [javaUpdateCount, hrow s.row List.mem_cons_self,
    hrows s.rows fun r hr => List.mem_cons_of_mem s.row hr]
  rfl

theorem Seeded.javaEstimateCount_eq (h : s.Seeded) (hflow : flowid < 2 ^ 32) :
    s.javaEstimateCount flowid = some (s.estimateCount flowid) := by
  have hrow (r : Row) (hr : r ∈ s.row :: s.rows) :
      r.javaCount s.size flowid = some (r.count s.size flowid) := by
    rw [Row.javaCount, h.place hflow hr]
    rfl
  have hrows (l : List Row) (hl : ∀ r ∈ l, r ∈ s.row :: s.rows) (first : ℕ) :
      l.foldlM (fun min r => do
        let count ← r.javaCount s.size flowid
        return if count < min then count else min) first =
        some (l.foldl (fun min r =>
          if r.count s.size flowid < min then r.count s.size flowid else min) first) := by
    induction l generalizing first with
    | nil => rfl
    | cons r l ih =>
      rw [List.foldlM_cons, hrow r (hl r List.mem_cons_self)]
      exact ih (fun r' hr' => hl r' (List.mem_cons_of_mem r hr')) _
  rw [javaEstimateCount, hrow s.row List.mem_cons_self]
  exact hrows s.rows (fun r hr => List.mem_cons_of_mem s.row hr) _

end Sketch

end Refinement

section Counting

variable {s : Sketch} {r : Row} {size flowid : ℕ} {l : List ℕ}

/-- The cells of a row count the packets of a list. -/
def Row.Counted (size : ℕ) (l : List ℕ) (r : Row) : Prop :=
  ∀ c, r.cells c = load (fun r : Row => r.hash size) l r c

theorem Row.Counted.increment (h : r.Counted size l) (flowid : ℕ) :
    (r.increment size flowid).Counted size (l ++ [flowid]) := by
  intro c
  rw [load_concat]
  change Function.update r.cells (r.hash size flowid) (r.cells (r.hash size flowid) + 1) c =
    load (fun r : Row => r.hash size) l r c + if r.hash size flowid = c then 1 else 0
  rw [← h c]
  by_cases hc : r.hash size flowid = c
  · rw [hc, Function.update_self, if_pos rfl]
  · rw [Function.update_of_ne (Ne.symm hc), if_neg hc, add_zero]

theorem Row.Counted.sum (h : r.Counted size l) (hsize : 0 < size) :
    ∑ j ∈ Finset.range size, r.cells j = l.length := by
  rw [Finset.sum_congr rfl fun c _ => h c]
  exact sum_load _ fun f _ => Finset.mem_range.mpr (Nat.mod_lt _ hsize)

namespace Sketch

/-- The sketch after the packets of a list. -/
structure Counted (l : List ℕ) (s : Sketch) : Prop where
  seeded : s.Seeded
  rows : ∀ r ∈ s.row :: s.rows, r.Counted s.size l

theorem Counted.updateCount (h : s.Counted l) (flowid : ℕ) :
    (s.updateCount flowid).Counted (l ++ [flowid]) := by
  refine ⟨h.seeded.updateCount flowid, fun r hr => ?_⟩
  obtain ⟨r', hr', rfl⟩ : ∃ r' ∈ s.row :: s.rows, r'.increment s.size flowid = r :=
    List.mem_map.mp hr
  exact (h.rows r' hr').increment flowid

theorem Counted.javaUpdateAll {l' : List ℕ} (h : s.Counted l) (hl : ∀ f ∈ l', f < 2 ^ 32) :
    ∃ s', s.javaUpdateAll l' = some s' ∧ s'.Counted (l ++ l') ∧ s'.size = s.size := by
  induction l' generalizing s l with
  | nil => exact ⟨s, rfl, by rwa [List.append_nil], rfl⟩
  | cons f l' ih =>
    have hupdate := h.seeded.javaUpdateCount_eq (hl f List.mem_cons_self)
    obtain ⟨s', hs', hcounted, hsize⟩ := ih (h.updateCount f) fun f' hf' =>
      hl f' (List.mem_cons_of_mem f hf')
    refine ⟨s', ?_, ?_, hsize⟩
    · rw [Sketch.javaUpdateAll, hupdate]
      exact hs'
    · rwa [List.append_assoc] at hcounted

theorem Counted.estimate (h : s.Counted l) (flowid : ℕ) :
    l.count flowid ≤ s.estimateCount flowid ∧ s.estimateCount flowid ≤ l.length := by
  constructor
  · rw [le_estimateCount]
    intro r hr
    rw [Row.count, h.rows r hr]
    exact count_le_load (fun r : Row => r.hash s.size) l r flowid
  · have hfirst : s.estimateCount flowid ≤ s.row.count s.size flowid :=
      le_estimateCount.mp le_rfl s.row List.mem_cons_self
    rw [Row.count, h.rows s.row List.mem_cons_self] at hfirst
    exact hfirst.trans (load_le_length _ l s.row _)

/-- After any packets of flows of 32 bits: an index is in its row, each row adds up to the
number of packets, and no flow is estimated below its packets or above all of them. -/
theorem countMin_bounds (hseeded : s.Seeded) (hblank : s.Blank) (l : List ℕ)
    (hl : ∀ f ∈ l, f < 2 ^ 32) :
    ∃ s', s.javaUpdateAll l = some s' ∧ s'.size = s.size ∧
      (∀ r ∈ s'.row :: s'.rows, ∑ j ∈ Finset.range s.size, r.cells j = l.length) ∧
      ∀ f : ℕ, f < 2 ^ 32 → (∀ r ∈ s'.row :: s'.rows, 0 ≤ r.javaHash s.size f ∧
          r.javaHash s.size f < s.size) ∧
        ∃ e, s'.javaEstimateCount f = some e ∧ l.count f ≤ e ∧ e ≤ l.length := by
  have hstart : s.Counted [] := ⟨hseeded, hblank⟩
  obtain ⟨s', hs', hcounted, hsize⟩ := hstart.javaUpdateAll hl
  rw [List.nil_append] at hcounted
  have hpos : 0 < s.size := hseeded.size
  refine ⟨s', hs', hsize, fun r hr => ?_, fun f hf => ⟨fun r hr => ?_, ?_⟩⟩
  · have hrow := hcounted.rows r hr
    rw [hsize] at hrow
    exact hrow.sum hpos
  · obtain ⟨ha, hb⟩ := hcounted.seeded.seeds r hr
    have hlt : r.hash s.size f < s.size := Nat.mod_lt _ hpos
    rw [Row.javaHash_eq ha hb hf]
    exact ⟨Int.natCast_nonneg _, by exact_mod_cast hlt⟩
  · exact ⟨_, hcounted.seeded.javaEstimateCount_eq hf, hcounted.estimate f⟩

/-- Three rows of two columns. -/
def labSketch : Sketch :=
  ⟨2, ⟨3, 5, fun _ => 0⟩, [⟨39916800, 39916800, fun _ => 0⟩, ⟨0, 1, fun _ => 0⟩]⟩

theorem countMin_bounds_lab :
    ∃ s', labSketch.javaUpdateAll [4294967295, 7, 4294967295] = some s' ∧ s'.size = 2 ∧
      (∀ r ∈ s'.row :: s'.rows, ∑ j ∈ Finset.range 2, r.cells j = 3) ∧
      ∀ f : ℕ, f < 2 ^ 32 →
        (∀ r ∈ s'.row :: s'.rows, 0 ≤ r.javaHash 2 f ∧ r.javaHash 2 f < 2) ∧
        ∃ e, s'.javaEstimateCount f = some e ∧ [4294967295, 7, 4294967295].count f ≤ e ∧ e ≤ 3 :=
  countMin_bounds ⟨by decide, by decide⟩ (by simp [Blank, labSketch]) _ (by decide)

end Sketch

end Counting

end P4Survey.HashPipe
