import P4Survey.SketchLearn.Counters

/-! # What the counters of SketchLearn say

A sketch with all its counters holds, in each bucket, the sums of the updates that it counts.
So no key is estimated below its total, and sketches with the same hash functions are merged
and subtracted as their updates are.
-/

namespace P4Survey.SketchLearn

open Lib

namespace Sketch

variable {S : Shape} {s s' t : Sketch} {us vs : List (List UInt8 × ℤ)}

/-- A sketch of the updates, with all its counters. -/
def build (S : Shape) (us : List (List UInt8 × ℤ)) : Except Fault Sketch :=
  (S.init.updateAll us).bind completeZeroes

theorem build_ok (hlgn : 8 ∣ S.lgn) (h : build S us = .ok s) :
    s.shape = S ∧ s.Counts us (S.lgn * 2) := by
  obtain ⟨t, ht, hzeroes⟩ := bind_eq_ok.mp h
  obtain ⟨hshape, hcounts⟩ := updateAll_ok (s := S.init) hlgn ht (counts_init S)
  have hraw : t.Counts us t.shape.lgn := by rw [hshape]; exact hcounts
  obtain ⟨hshape', hcounts'⟩ := completeZeroes_ok hzeroes hraw
  rw [hshape] at hshape' hcounts'
  exact ⟨hshape', hcounts'⟩

theorem build_fails (hlgn : 8 ∣ S.lgn) (hroom : S.lgn ≤ 104) (us : List (List UInt8 × ℤ)) :
    FailsOnly (· = .overflow) (build S us) := by
  have hupdate := updateAll_fails S.init us
  rw [build]
  cases ht : S.init.updateAll us with
  | error e => exact .error (hupdate e ht)
  | ok t =>
    have hshape := (updateAll_ok (s := S.init) hlgn ht (counts_init S)).1
    exact completeZeroes_fails (by rw [hshape]; exact hroom)

/-- Sketches of one shape are combined counter by counter. -/
theorem combine_ok {f : ℤ → ℤ → ℤ} (hshape : s.shape = t.shape) (h : combine f s t = .ok s') :
    s'.shape = s.shape ∧ ∀ b < s.shape.size, ∀ j ≤ s.shape.lgn * 2,
      s'.counts b j = f (s.counts b j) (t.counts b j) := by
  unfold combine at h
  split_ifs at h
  obtain ⟨counts, hloop, rfl⟩ := map_eq_ok.mp h
  obtain ⟨hrow, -⟩ := loop_modify (g := id) (fun _ _ _ _ heq => heq) hloop
  refine ⟨rfl, fun b hb j hj => ?_⟩
  rw [hshape] at hb hj
  obtain ⟨hself, -⟩ := loop_modify (g := id) (fun _ _ _ _ heq => heq) (hrow b hb)
  exact fit_ok (hself j (by omega))

theorem combine_fails (f : ℤ → ℤ → ℤ) (hshape : s.shape = t.shape) :
    FailsOnly (· = .overflow) (combine f s t) := by
  unfold combine
  rw [if_neg (by simp [hshape]), if_neg (by simp [hshape])]
  refine .map (.loop (fun i => .modify (fun lists => ?_) i) _ _)
  exact .loop (fun j => .modify (fun _ => fit_fails _) j) _ lists

theorem merge_counts (hshape : s.shape = t.shape) (hs : s.Counts us (s.shape.lgn * 2))
    (ht : t.Counts vs (s.shape.lgn * 2)) (h : merge s t = .ok s') :
    s'.Counts (us ++ vs) (s'.shape.lgn * 2) := by
  obtain ⟨heq, hcounts⟩ := combine_ok hshape h
  intro i hi c hc j hj
  rw [heq] at hi hc hj ⊢
  rw [hcounts _ (Shape.bucket_lt hi hc) j hj, hs i hi c hc j hj, Shape.sum_append]
  rw [hshape] at hi hc hj ⊢
  rw [ht i hi c hc j (by rw [hshape]; exact hj)]

theorem diff_counts (hshape : s.shape = t.shape) (hs : s.Counts us (s.shape.lgn * 2))
    (ht : t.Counts vs (s.shape.lgn * 2)) (h : diff s t = .ok s') :
    s'.Counts (us ++ negated vs) (s'.shape.lgn * 2) := by
  obtain ⟨heq, hcounts⟩ := combine_ok hshape h
  intro i hi c hc j hj
  rw [heq] at hi hc hj ⊢
  rw [hcounts _ (Shape.bucket_lt hi hc) j hj, hs i hi c hc j hj, Shape.sum_append,
    Shape.sum_negated, ← sub_eq_add_neg]
  rw [hshape] at hi hc hj ⊢
  rw [ht i hi c hc j (by rw [hshape]; exact hj)]

theorem le_estBucket {lgn : ℕ} {lists : ℕ → ℤ} {key : List UInt8} {bits : List ℕ} {v : ℤ}
    (hzero : v ≤ lists 0) (hbits : ∀ pos ∈ bits, v ≤ lists (counter lgn key pos)) :
    v ≤ estBucket lgn lists key bits := by
  rw [estBucket]
  generalize lists 0 = est at hzero
  induction bits generalizing est with
  | nil => exact hzero
  | cons pos bits ih =>
    apply ih (fun pos' hpos' => hbits pos' (List.mem_cons_of_mem pos hpos'))
    beta_reduce
    split_ifs
    · exact hbits pos List.mem_cons_self
    · exact hzero

theorem le_estOld {key : List UInt8} {bits : List ℕ} {v : ℤ} {k : ℕ} (hk : 0 < k)
    (h : ∀ i < k, v ≤ estBucket s.shape.lgn
      (s.counts (s.shape.bucket i (s.shape.column i key))) key bits) :
    v ≤ s.estOld key bits k := by
  induction k with
  | zero => exact absurd hk (lt_irrefl 0)
  | succ k ih =>
    unfold estOld
    dsimp only
    by_cases hlast : k = 0 ∨ estBucket s.shape.lgn
        (s.counts (s.shape.bucket k (s.shape.column k key))) key bits < s.estOld key bits k
    · rw [if_pos hlast]
      exact h k k.lt_succ_self
    · rw [if_neg hlast]
      exact ih (Nat.pos_of_ne_zero fun hzero => hlast (.inl hzero))
        fun i hi => h i (hi.trans k.lt_succ_self)

/-- What the sketch of a list of updates is to hold and to answer. -/
structure Laws (us : List (List UInt8 × ℤ)) (s : Sketch) : Prop where
  total : ∀ i < s.shape.depth, ∀ c < s.shape.width, s.counts (s.shape.bucket i c) 0 =
    tally us fun key => s.shape.column i key = c
  set : ∀ i < s.shape.depth, ∀ c < s.shape.width, ∀ k < s.shape.lgn,
    s.counts (s.shape.bucket i c) (k + 1) =
      tally us fun key => s.shape.column i key = c ∧ getBit key k = true
  clear : ∀ i < s.shape.depth, ∀ c < s.shape.width, ∀ k < s.shape.lgn,
    s.counts (s.shape.bucket i c) (k + 1 + s.shape.lgn) =
      tally us fun key => s.shape.column i key = c ∧ ¬getBit key k = true
  halves : ∀ i < s.shape.depth, ∀ c < s.shape.width, ∀ k < s.shape.lgn,
    s.counts (s.shape.bucket i c) (k + 1) + s.counts (s.shape.bucket i c) (k + 1 + s.shape.lgn) =
      s.counts (s.shape.bucket i c) 0
  /-- The estimate for all bits of a key. -/
  estimate : 0 < s.shape.depth → (∀ u ∈ us, 0 ≤ u.2) → ∀ key bits, bits.length = s.shape.lgn →
    (∀ pos ∈ bits, pos < s.shape.lgn) →
      (tally us fun a => a = key) ≤ s.estOld key bits s.shape.depth

theorem Counts.laws (h : s.Counts us (s.shape.lgn * 2)) : s.Laws us := by
  constructor
  · intro i hi c hc
    rw [h i hi c hc 0 (Nat.zero_le _), Shape.sum_zero]
  · intro i hi c hc k hk
    rw [h i hi c hc (k + 1) (by omega), Shape.sum_set hk]
  · intro i hi c hc k hk
    rw [h i hi c hc (k + 1 + s.shape.lgn) (by omega), Shape.sum_clear]
  · intro i hi c hc k hk
    rw [h i hi c hc (k + 1) (by omega), h i hi c hc (k + 1 + s.shape.lgn) (by omega),
      h i hi c hc 0 (Nat.zero_le _), Shape.sum_halves hk]
  · intro hdepth hus key bits _ hbits
    refine le_estOld hdepth fun i hi => le_estBucket ?_ fun pos hpos => ?_
    · rw [h i hi _ (s.shape.column_lt i key) 0 (Nat.zero_le _)]
      exact Shape.tally_le_sum hus rfl
    · have hlt := hbits pos hpos
      have hcounter : counter s.shape.lgn key pos ≤ s.shape.lgn * 2 := by
        rw [counter]
        split_ifs <;> omega
      rw [h i hi _ (s.shape.column_lt i key) _ hcounter]
      exact Shape.tally_le_sum hus (inCounter_counter hlt key)

/-- Up to 104 bits: a sketch exists unless a sum overflows, its counters hold the sums of the
updates, no key is estimated below its total, and sketches are merged and subtracted as their
updates are. -/
theorem counters_obey_laws (S : Shape) (hlgn : 8 ∣ S.lgn) (hroom : S.lgn ≤ 104)
    (us : List (List UInt8 × ℤ)) (hfits : build S us ≠ .error .overflow) :
    ∃ s, build S us = .ok s ∧ s.shape = S ∧ s.Laws us ∧ ∀ vs t, build S vs = .ok t →
      (merge s t ≠ .error .overflow → ∃ m, merge s t = .ok m ∧ m.Laws (us ++ vs)) ∧
      (diff s t ≠ .error .overflow → ∃ m, diff s t = .ok m ∧ m.Laws (us ++ negated vs)) := by
  obtain ⟨s, hs⟩ := (build_fails hlgn hroom us).exists_ok hfits
  obtain ⟨hshape, hcounts⟩ := build_ok hlgn hs
  have hall : s.Counts us (s.shape.lgn * 2) := by rw [hshape]; exact hcounts
  refine ⟨s, hs, hshape, hall.laws, fun vs t ht => ?_⟩
  obtain ⟨hshape', hcounts'⟩ := build_ok hlgn ht
  have hsame : s.shape = t.shape := hshape.trans hshape'.symm
  have hother : t.Counts vs (s.shape.lgn * 2) := by rw [hshape]; exact hcounts'
  constructor
  · intro hmerge
    obtain ⟨m, hm⟩ := (combine_fails (· + ·) hsame).exists_ok hmerge
    exact ⟨m, hm, (merge_counts hsame hall hother hm).laws⟩
  · intro hdiff
    obtain ⟨m, hm⟩ := (combine_fails (· - ·) hsame).exists_ok hdiff
    exact ⟨m, hm, (diff_counts hsame hall hother hm).laws⟩

/-- Two rows and keys of a byte. -/
def labShape : Shape :=
  ⟨2, 3, 8, fun i key => (awareHash key 7 5 (UInt64.ofNat i)).toNat, Nat.prime_three, by decide,
    by decide⟩

theorem counters_obey_laws_lab :
    ∃ s, build labShape [([129], 40), ([128], 2)] = .ok s ∧ s.shape = labShape ∧
      s.Laws [([129], 40), ([128], 2)] ∧ ∀ vs t, build labShape vs = .ok t →
        (merge s t ≠ .error .overflow →
          ∃ m, merge s t = .ok m ∧ m.Laws ([([129], 40), ([128], 2)] ++ vs)) ∧
        (diff s t ≠ .error .overflow →
          ∃ m, diff s t = .ok m ∧ m.Laws ([([129], 40), ([128], 2)] ++ negated vs)) :=
  counters_obey_laws labShape (by decide) (by decide) _ fun h => by
    have hok : (build labShape [([129], 40), ([128], 2)]).isOk = true := by decide +kernel
    rw [h] at hok
    cases hok

/-- A row of two buckets for keys of 112 bits. -/
def wideShape : Shape := ⟨1, 2, 112, fun _ _ => 0, Nat.prime_two, by decide, by decide⟩

/-- No row. -/
def rowlessShape : Shape := ⟨0, 2, 8, fun _ _ => 0, Nat.prime_two, by decide, by decide⟩

theorem build_wide : build wideShape [] = .error .outside := by
  have hfault : (match build wideShape [] with | .error f => some f | .ok _ => none) =
      some Fault.outside := by decide +kernel
  cases hb : build wideShape [] with
  | error f =>
    rw [hb] at hfault
    exact congrArg _ (Option.some.inj hfault)
  | ok s =>
    rw [hb] at hfault
    cases hfault

/-- For keys of 112 bits the bit statistics are written outside of their arrays, even if the
sketch is empty. Without a row every key is estimated at 0. -/
theorem laws_need_room :
    (8 ∣ wideShape.lgn ∧ build wideShape [] = .error .outside) ∧
      ∃ s, build rowlessShape [([1], 1)] = .ok s ∧
        s.estOld [1] (List.range 8) rowlessShape.depth < tally [([1], 1)] fun key => key = [1] :=
  ⟨⟨by decide, build_wide⟩, _, rfl, by decide⟩

end Sketch

end P4Survey.SketchLearn
