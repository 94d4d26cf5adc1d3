import Mathlib.Data.Nat.Bitwise
import P4Survey.Lib.Loop
import P4Survey.Lib.Counts

/-! # The counters of SketchLearn

The sketch of `alg_sketchlearn.c`. A key is counted in one bucket of each row. A bucket has
`1 + 2 * lgn` counters: what all its keys add up to, then for each bit of a key the sum over
those that have the bit set, and for each bit the sum over those that have it clear. Only the
first two kinds are updated with a key; the third is filled in afterwards.
-/

namespace P4Survey.SketchLearn

open Lib

/-- `AwareHash`: a polynomial in `scale` at the bytes of a key. -/
def awareHash (data : List UInt8) (hash scale hardener : UInt64) : UInt64 :=
  data.foldl (fun h b => h * scale + b.toUInt64) hash ^^^ hardener

/-- How a call ends early: a signed sum that does not fit, an access outside of an array, or
`exit` because two sketches differ in size. -/
inductive Fault where
  | overflow | outside | size
  deriving DecidableEq

/-- What `SKL_Init` fixes. `hash` is `AwareHash` with the seeds of a row; the width is the
next prime from the one that was asked for. The numbers of buckets and of their counters are
of type `int`. -/
structure Shape where
  depth : ℕ
  width : ℕ
  lgn : ℕ
  hash : ℕ → List UInt8 → ℕ
  prime : width.Prime
  bucketsFit : width * depth < 2 ^ 31
  countersFit : 1 + lgn * 2 < 2 ^ 31

structure Sketch where
  shape : Shape
  counts : ℕ → ℕ → ℤ

namespace Shape

variable (S : Shape)

def size : ℕ := S.width * S.depth

/-- The bucket of a key in a row. -/
def column (i : ℕ) (key : List UInt8) : ℕ := S.hash i key % S.width

/-- The place of a bucket among those of all rows. -/
def bucket (i c : ℕ) : ℕ := i * S.width + c

def init : Sketch := ⟨S, fun _ _ => 0⟩

end Shape

def getBit (a : List UInt8) (pos : ℕ) : Bool :=
  (a.getD (pos / 8) 0).toNat &&& 2 ^ (7 - pos % 8) != 0

/-- A result that has to fit into 32 bits. -/
def fit (v : ℤ) : Except Fault ℤ := if -2 ^ 31 ≤ v ∧ v < 2 ^ 31 then .ok v else .error .overflow

def store (lists : ℕ → ℤ) (k : ℕ) (v : ℤ) : Except Fault (ℕ → ℤ) :=
  (fit v).map (Function.update lists k)

/-- The inner loop of `loginsert`: `n` bits of a byte, the last one first. -/
def insertBits (diff : ℤ) : ℕ → ℕ → ℕ → (ℕ → ℤ) → Except Fault (ℕ → ℤ)
  | 0, _, _, lists => .ok lists
  | n + 1, val, length, lists =>
    (if val % 2 = 1 then modify length (fun v => fit (v + diff)) lists else .ok lists).bind
      (insertBits diff n (val / 2) (length - 1))

/-- The outer loop: the bytes before byte `i`, the last one first. -/
def insertBytes (key : List UInt8) (diff : ℤ) : ℕ → ℕ → (ℕ → ℤ) → Except Fault (ℕ → ℤ)
  | 0, _, lists => .ok lists
  | i + 1, length, lists =>
    (insertBits diff 8 (key.getD i 0).toNat length lists).bind
      (insertBytes key diff i (length - 8))

def loginsert (key : List UInt8) (length : ℕ) (diff : ℤ) (lists : ℕ → ℤ) :
    Except Fault (ℕ → ℤ) :=
  (modify 0 (fun v => fit (v + diff)) lists).bind (insertBytes key diff (length / 8) length)

namespace Sketch

variable (s : Sketch)

/-- `SKL_Update` -/
def update (key : List UInt8) (diff : ℤ) : Except Fault Sketch :=
  (loop (fun i => modify (s.shape.bucket i (s.shape.column i key))
    (loginsert key s.shape.lgn diff)) s.shape.depth s.counts).map fun counts => ⟨s.shape, counts⟩

def updateAll (s : Sketch) : List (List UInt8 × ℤ) → Except Fault Sketch
  | [] => .ok s
  | u :: us => (s.update u.1 u.2).bind fun s => updateAll s us

/-- The loop of `SKL_CompleteZeroes` over the counters of a bucket. -/
def completeRow (lgn : ℕ) (lists : ℕ → ℤ) : Except Fault (ℕ → ℤ) :=
  loop (fun k l => store l (k + 1 + lgn) (lists 0 - l (k + 1))) lgn lists

/-- `compute_bit_dists`, of which only the accesses matter here: `bit_mean` and `bit_std` have
104 places, and for each bit the number of buckets is divided by the one less than it. -/
def computeBitDists : Except Fault Sketch :=
  if 104 < s.shape.lgn ∨ 0 < s.shape.lgn ∧ s.shape.depth * s.shape.width = 1 then
    .error .outside
  else .ok s

/-- `SKL_CompleteZeroes` -/
def completeZeroes : Except Fault Sketch :=
  (loop (fun i => modify i (completeRow s.shape.lgn)) s.shape.size s.counts).bind fun counts =>
    computeBitDists ⟨s.shape, counts⟩

/-- The loops of `SKL_Merge` and `SKL_Diff`. -/
def combine (f : ℤ → ℤ → ℤ) (dst src : Sketch) : Except Fault Sketch :=
  if dst.shape.width ≠ src.shape.width ∨ dst.shape.depth ≠ src.shape.depth then .error .size
  else if dst.shape.lgn < src.shape.lgn then .error .outside
  else
    (loop (fun i => modify i fun lists =>
        loop (fun j => modify j fun v => fit (f v (src.counts i j))) (1 + src.shape.lgn * 2) lists)
      src.shape.size dst.counts).map fun counts => ⟨dst.shape, counts⟩

/-- `SKL_Merge` -/
def merge : Sketch → Sketch → Except Fault Sketch := combine (· + ·)

/-- `SKL_Diff` -/
def diff : Sketch → Sketch → Except Fault Sketch := combine (· - ·)

/-- The counter that `SKL_Est_old` reads for a bit of the key. -/
def counter (lgn : ℕ) (key : List UInt8) (pos : ℕ) : ℕ :=
  if getBit key pos then pos + 1 else pos + 1 + lgn

/-- The smallest of the total of a bucket and the counters of the bits. -/
def estBucket (lgn : ℕ) (lists : ℕ → ℤ) (key : List UInt8) (bits : List ℕ) : ℤ :=
  bits.foldl (fun est pos =>
    if lists (counter lgn key pos) < est then lists (counter lgn key pos) else est) (lists 0)

/-- `SKL_Est_old` after `k` rows, if as many bits are asked for as the key has. -/
def estOld (key : List UInt8) (bits : List ℕ) : ℕ → ℤ
  | 0 => 0
  | k + 1 =>
    let est := estBucket s.shape.lgn
      (s.counts (s.shape.bucket k (s.shape.column k key))) key bits
    if k = 0 ∨ est < estOld key bits k then est else estOld key bits k

end Sketch

/-- The keys that counter `j` of their bucket counts. -/
def inCounter (lgn j : ℕ) (key : List UInt8) : Bool :=
  if j = 0 then true else if j ≤ lgn then getBit key (j - 1) else !getBit key (j - 1 - lgn)

theorem getBit_eq (a : List UInt8) (pos : ℕ) :
    getBit a pos = (a.getD (pos / 8) 0).toNat.testBit (7 - pos % 8) := by
  rw [getBit, Nat.and_two_pow]
  cases (a.getD (pos / 8) 0).toNat.testBit (7 - pos % 8) <;> simp

@[simp] theorem inCounter_zero (lgn : ℕ) (key : List UInt8) : inCounter lgn 0 key = true := rfl

theorem inCounter_set {lgn k : ℕ} (hk : k < lgn) (key : List UInt8) :
    inCounter lgn (k + 1) key = getBit key k := by
  rw [inCounter, if_neg k.succ_ne_zero, if_pos (Nat.succ_le_of_lt hk), Nat.add_sub_cancel]

theorem inCounter_clear (lgn k : ℕ) (key : List UInt8) :
    inCounter lgn (k + 1 + lgn) key = !getBit key k := by
  rw [inCounter, if_neg (by omega), if_neg (by omega), show k + 1 + lgn - 1 - lgn = k by omega]

/-- The counter that is read for a bit of a key counts the key. -/
theorem inCounter_counter {lgn pos : ℕ} (hpos : pos < lgn) (key : List UInt8) :
    inCounter lgn (Sketch.counter lgn key pos) key = true := by
  rw [Sketch.counter]
  cases hbit : getBit key pos with
  | true => rw [if_pos rfl, inCounter_set hpos, hbit]
  | false => rw [if_neg Bool.false_ne_true, inCounter_clear, hbit, Bool.not_false]

section Insert

variable {diff : ℤ} {lists lists' : ℕ → ℤ} {key : List UInt8}

theorem fit_ok {v w : ℤ} (h : fit v = .ok w) : w = v := by
  unfold fit at h
  split_ifs at h
  exact (Except.ok.inj h).symm

theorem fit_fails (v : ℤ) : FailsOnly (· = .overflow) (fit v) := by
  unfold fit
  split_ifs
  · exact .ok v
  · exact .error rfl

theorem store_ok {k : ℕ} {v : ℤ} (h : store lists k v = .ok lists') :
    lists' = Function.update lists k v := by
  unfold store at h
  cases hv : fit v with
  | error e =>
    rw [hv] at h
    cases h
  | ok w =>
    rw [hv, fit_ok hv] at h
    exact (Except.ok.inj h).symm

theorem add_fails (lists : ℕ → ℤ) (k : ℕ) (diff : ℤ) :
    FailsOnly (· = .overflow) (modify k (fun v => fit (v + diff)) lists) :=
  .modify (fun _ => fit_fails _) k lists

/-- The bits of a byte, from the last one on, are added to the counters that end at
`length`. -/
theorem insertBits_ok {n val length : ℕ} (hn : n ≤ length)
    (h : insertBits diff n val length lists = .ok lists') (k : ℕ) :
    lists' k = lists k +
      if length - n < k ∧ k ≤ length ∧ val.testBit (length - k) = true then diff else 0 := by
  induction n generalizing val length lists with
  | zero =>
    cases h
    rw [if_neg (by omega), add_zero]
  | succ n ih =>
    obtain ⟨l, hl, hrest⟩ := bind_eq_ok.mp h
    have hfirst : l k = lists k + if k = length ∧ val % 2 = 1 then diff else 0 := by
      by_cases hodd : val % 2 = 1
      · rw [if_pos hodd] at hl
        rw [store_ok hl]
        by_cases hk : k = length
        · rw [hk, Function.update_self, if_pos ⟨rfl, hodd⟩]
        · rw [Function.update_of_ne hk, if_neg fun hc => hk hc.1, add_zero]
      · rw [if_neg hodd] at hl
        cases hl
        rw [if_neg fun hc => hodd hc.2, add_zero]
    rw [ih (by omega) hrest, hfirst, add_assoc]
    congr 1
    by_cases hk : k = length
    · subst hk
      rw [if_neg (c := _ ∧ k ≤ k - 1 ∧ _) (by omega), add_zero, Nat.sub_self]
      refine if_congr ?_ rfl rfl
      rw [Nat.testBit_zero, decide_eq_true_eq]
      exact ⟨fun hc => ⟨by omega, le_rfl, hc.2⟩, fun hc => ⟨rfl, hc.2.2⟩⟩
    · rw [if_neg fun hc => hk hc.1, zero_add]
      refine if_congr ?_ rfl rfl
      by_cases hle : k ≤ length - 1
      · rw [show length - k = length - 1 - k + 1 by omega, Nat.testBit_succ]
        constructor
        · exact fun hc => ⟨by omega, by omega, hc.2.2⟩
        · exact fun hc => ⟨by omega, hle, hc.2.2⟩
      · constructor
        · exact fun hc => absurd hc.2.1 hle
        · exact fun hc => absurd hc.2.1 (by omega)

theorem insertBits_fails (diff : ℤ) (n val length : ℕ) (lists : ℕ → ℤ) :
    FailsOnly (· = .overflow) (insertBits diff n val length lists) := by
  induction n generalizing val length lists with
  | zero => exact .ok lists
  | succ n ih =>
    refine FailsOnly.bind ?_ fun l => ih (val / 2) (length - 1) l
    split_ifs
    · exact add_fails lists length diff
    · exact .ok lists

/-- The counters of the bits that are set. -/
theorem insertBytes_ok {i : ℕ} (h : insertBytes key diff i (8 * i) lists = .ok lists') (k : ℕ) :
    lists' k = lists k +
      if 0 < k ∧ k ≤ 8 * i ∧ getBit key (k - 1) = true then diff else 0 := by
  induction i generalizing lists with
  | zero =>
    cases h
    rw [if_neg (by omega), add_zero]
  | succ i ih =>
    obtain ⟨l, hl, hrest⟩ := bind_eq_ok.mp h
    rw [show 8 * (i + 1) - 8 = 8 * i by omega] at hrest
    rw [ih hrest, insertBits_ok (by omega) hl, add_assoc]
    congr 1
    by_cases hk : 8 * i < k ∧ k ≤ 8 * (i + 1)
    · have hbit : getBit key (k - 1) = (key.getD i 0).toNat.testBit (8 * (i + 1) - k) := by
        rw [getBit_eq, show (k - 1) / 8 = i by omega,
          show 7 - (k - 1) % 8 = 8 * (i + 1) - k by omega]
      rw [if_neg (c := 0 < k ∧ k ≤ 8 * i ∧ _) (by omega), add_zero, hbit]
      refine if_congr ?_ rfl rfl
      constructor
      · exact fun hc => ⟨by omega, hk.2, hc.2.2⟩
      · exact fun hc => ⟨by omega, hk.2, hc.2.2⟩
    · rw [if_neg (by omega), zero_add]
      refine if_congr ?_ rfl rfl
      constructor
      · exact fun hc => ⟨hc.1, by omega, hc.2.2⟩
      · exact fun hc => ⟨hc.1, by omega, hc.2.2⟩

theorem insertBytes_fails (key : List UInt8) (diff : ℤ) (i length : ℕ) (lists : ℕ → ℤ) :
    FailsOnly (· = .overflow) (insertBytes key diff i length lists) := by
  induction i generalizing length lists with
  | zero => exact .ok lists
  | succ i ih => exact (insertBits_fails _ _ _ _ _).bind fun l => ih (length - 8) l

/-- A key is added to the total and to the counters of the bits that it has set. -/
theorem loginsert_ok {lgn : ℕ} (hlgn : 8 ∣ lgn) (h : loginsert key lgn diff lists = .ok lists')
    (j : ℕ) :
    lists' j = lists j + if j ≤ lgn ∧ inCounter lgn j key = true then diff else 0 := by
  obtain ⟨n, rfl⟩ := hlgn
  obtain ⟨l, hl, hrest⟩ := bind_eq_ok.mp h
  rw [Nat.mul_div_cancel_left n (by decide)] at hrest
  rw [insertBytes_ok hrest, store_ok hl]
  cases j with
  | zero => simp
  | succ k =>
    rw [Function.update_of_ne k.succ_ne_zero]
    congr 1
    refine if_congr ?_ rfl rfl
    constructor
    · exact fun ⟨_, hk, hbit⟩ => ⟨hk, by rwa [inCounter_set hk]⟩
    · exact fun ⟨hk, hbit⟩ => ⟨k.succ_pos, hk, by rwa [inCounter_set hk] at hbit⟩

theorem loginsert_fails (key : List UInt8) (lgn : ℕ) (diff : ℤ) (lists : ℕ → ℤ) :
    FailsOnly (· = .overflow) (loginsert key lgn diff lists) :=
  (add_fails lists 0 diff).bind fun l => insertBytes_fails key diff (lgn / 8) lgn l

end Insert

namespace Shape

variable {S : Shape} {us vs : List (List UInt8 × ℤ)} {i i' c c' j : ℕ}

theorem column_lt (S : Shape) (i : ℕ) (key : List UInt8) : S.column i key < S.width :=
  Nat.mod_lt _ S.prime.pos

theorem bucket_inj (hc : c < S.width) (hc' : c' < S.width)
    (h : S.bucket i c = S.bucket i' c') : i = i' ∧ c = c' := by
  have hdiv (i c : ℕ) (hc : c < S.width) : S.bucket i c / S.width = i := by
    rw [bucket, Nat.mul_comm, Nat.mul_add_div S.prime.pos, Nat.div_eq_of_lt hc, Nat.add_zero]
  have hrow : i = i' := by rw [← hdiv i c hc, h, hdiv i' c' hc']
  subst hrow
  exact ⟨rfl, Nat.add_left_cancel h⟩

theorem bucket_lt (hi : i < S.depth) (hc : c < S.width) : S.bucket i c < S.size := by
  calc i * S.width + c < (i + 1) * S.width := by rw [Nat.add_one_mul]; omega
    _ ≤ S.depth * S.width := Nat.mul_le_mul_right _ hi
    _ = S.size := Nat.mul_comm _ _

variable (S) in
/-- What the updates add to counter `j` of a bucket. -/
def sum (us : List (List UInt8 × ℤ)) (i c j : ℕ) : ℤ :=
  tally us fun key => S.column i key = c ∧ inCounter S.lgn j key = true

theorem sum_append : S.sum (us ++ vs) i c j = S.sum us i c j + S.sum vs i c j := by
  simp only [sum, tally_append]

theorem sum_negated : S.sum (negated vs) i c j = -S.sum vs i c j := by
  simp only [sum, tally_negated]

theorem sum_zero : S.sum us i c 0 = tally us fun key => S.column i key = c := by
  simp only [sum, inCounter_zero, and_true]

theorem sum_set {k : ℕ} (hk : k < S.lgn) :
    S.sum us i c (k + 1) = tally us fun key => S.column i key = c ∧ getBit key k = true := by
  simp only [sum, inCounter_set hk]

theorem sum_clear (k : ℕ) :
    S.sum us i c (k + 1 + S.lgn) =
      tally us fun key => S.column i key = c ∧ ¬getBit key k = true := by
  simp only [sum, inCounter_clear, Bool.not_eq_true']
  exact tally_congr fun key => by rw [Bool.not_eq_true]

theorem sum_halves {k : ℕ} (hk : k < S.lgn) :
    S.sum us i c (k + 1) + S.sum us i c (k + 1 + S.lgn) = S.sum us i c 0 := by
  rw [sum_set hk, sum_clear, sum_zero, tally_split]

/-- No value is negative: a key does not add more to the whole than to a counter that counts
it. -/
theorem tally_le_sum (hus : ∀ u ∈ us, 0 ≤ u.2) {key : List UInt8}
    (hkey : inCounter S.lgn j key = true) :
    (tally us fun a => a = key) ≤ S.sum us i (S.column i key) j := by
  apply tally_mono hus
  rintro _ rfl
  exact ⟨rfl, hkey⟩

end Shape

namespace Sketch

variable {S : Shape} {s s' t : Sketch} {us vs : List (List UInt8 × ℤ)}

/-- The counters of the sketch up to `last` hold what the updates add to them. -/
def Counts (us : List (List UInt8 × ℤ)) (last : ℕ) (s : Sketch) : Prop :=
  ∀ i < s.shape.depth, ∀ c < s.shape.width, ∀ j ≤ last,
    s.counts (s.shape.bucket i c) j = s.shape.sum us i c j

theorem counts_init (S : Shape) : S.init.Counts [] S.lgn := fun _ _ _ _ _ _ => rfl

/-- An update adds its value to the counters of its key in each row. -/
theorem update_ok {key : List UInt8} {diff : ℤ} (hlgn : 8 ∣ s.shape.lgn)
    (h : s.update key diff = .ok s') :
    s'.shape = s.shape ∧ ∀ i < s.shape.depth, ∀ c < s.shape.width, ∀ j ≤ s.shape.lgn,
      s'.counts (s.shape.bucket i c) j = s.counts (s.shape.bucket i c) j +
        s.shape.sum [(key, diff)] i c j := by
  obtain ⟨counts, hloop, rfl⟩ := map_eq_ok.mp h
  obtain ⟨hself, hother⟩ := loop_modify (fun i _ j _ heq =>
    (Shape.bucket_inj (s.shape.column_lt i key) (s.shape.column_lt j key) heq).1) hloop
  refine ⟨rfl, fun i hi c hc j hj => ?_⟩
  change counts (s.shape.bucket i c) j = _
  rw [Shape.sum, tally_cons, tally_nil, add_zero]
  by_cases hcol : s.shape.column i key = c
  · subst hcol
    rw [loginsert_ok hlgn (hself i hi) j]
    simp only [hj, true_and]
  · rw [if_neg fun hc => hcol hc.1, add_zero, hother]
    exact fun i' _ heq => hcol (by
      obtain ⟨rfl, hc'⟩ := Shape.bucket_inj (s.shape.column_lt i' key) hc heq
      exact hc')

theorem updateAll_ok (hlgn : 8 ∣ s.shape.lgn) (h : s.updateAll us = .ok s')
    (hs : s.Counts vs s.shape.lgn) :
    s'.shape = s.shape ∧ s'.Counts (vs ++ us) s.shape.lgn := by
  induction us generalizing s vs with
  | nil =>
    cases h
    exact ⟨rfl, by rwa [List.append_nil]⟩
  | cons u us ih =>
    obtain ⟨t, ht, hrest⟩ := bind_eq_ok.mp h
    obtain ⟨hshape, hcounts⟩ := update_ok hlgn ht
    have hnext : t.Counts (vs ++ [u]) t.shape.lgn := by
      intro i hi c hc j hj
      rw [hshape] at hi hc hj ⊢
      rw [hcounts i hi c hc j hj, hs i hi c hc j hj, Shape.sum_append]
    obtain ⟨hshape', hcounts'⟩ := ih (hshape ▸ hlgn) hrest hnext
    rw [List.append_assoc, List.singleton_append, hshape] at hcounts'
    exact ⟨hshape'.trans hshape, hcounts'⟩

theorem update_fails (s : Sketch) (key : List UInt8) (diff : ℤ) :
    FailsOnly (· = .overflow) (s.update key diff) :=
  .map (.loop (fun _ => .modify (fun _ => loginsert_fails _ _ _ _) _) _ _)

theorem updateAll_fails (s : Sketch) (us : List (List UInt8 × ℤ)) :
    FailsOnly (· = .overflow) (s.updateAll us) := by
  induction us generalizing s with
  | nil => exact .ok s
  | cons u us ih => exact (update_fails s u.1 u.2).bind ih

/-- The counters for the bits that are clear hold what is left of the total. -/
theorem completeRow_ok {lgn : ℕ} {lists lists' : ℕ → ℤ}
    (h : completeRow lgn lists = .ok lists') :
    (∀ j ≤ lgn, lists' j = lists j) ∧
      ∀ k < lgn, lists' (k + 1 + lgn) = lists 0 - lists (k + 1) := by
  refine loop_invariant (I := fun m l => (∀ j ≤ lgn, l j = lists j) ∧
    ∀ k < m, l (k + 1 + lgn) = lists 0 - lists (k + 1)) ?_ ?_ h
  · exact ⟨fun _ _ => rfl, fun k hk => absurd hk k.not_lt_zero⟩
  · rintro m hm l l' ⟨hlow, hhigh⟩ hround
    rw [store_ok hround]
    refine ⟨fun j hj => ?_, fun k hk => ?_⟩
    · rw [Function.update_of_ne (by omega), hlow j hj]
    · by_cases hkm : k = m
      · rw [hkm, Function.update_self, hlow (m + 1) hm]
      · rw [Function.update_of_ne (by omega), hhigh k (by omega)]

theorem completeRow_fails (lgn : ℕ) (lists : ℕ → ℤ) :
    FailsOnly (· = .overflow) (completeRow lgn lists) :=
  .loop (fun _ _ => (fit_fails _).map) _ _

theorem completeZeroes_ok (h : s.completeZeroes = .ok s') (hs : s.Counts us s.shape.lgn) :
    s'.shape = s.shape ∧ s'.Counts us (s.shape.lgn * 2) := by
  obtain ⟨counts, hloop, hdists⟩ := bind_eq_ok.mp h
  unfold computeBitDists at hdists
  split_ifs at hdists
  cases hdists
  obtain ⟨hself, -⟩ := loop_modify (g := id) (fun _ _ _ _ heq => heq) hloop
  refine ⟨rfl, fun i hi c hc j hj => ?_⟩
  obtain ⟨hlow, hhigh⟩ := completeRow_ok (hself _ (Shape.bucket_lt hi hc))
  by_cases hle : j ≤ s.shape.lgn
  · exact (hlow j hle).trans (hs i hi c hc j hle)
  · obtain ⟨k, rfl⟩ : ∃ k, j = k + 1 + s.shape.lgn := ⟨j - 1 - s.shape.lgn, by omega⟩
    have hk : k < s.shape.lgn := by change k + 1 + s.shape.lgn ≤ _ at hj; omega
    refine (hhigh k hk).trans ?_
    have hhalves : s.shape.sum us i c (k + 1) + s.shape.sum us i c (k + 1 + s.shape.lgn) =
        s.shape.sum us i c 0 := Shape.sum_halves hk
    rw [id, hs i hi c hc 0 (by omega), hs i hi c hc (k + 1) hk, ← hhalves]
    exact add_sub_cancel_left _ _

/-- The arrays have room for the bits, and a row has more than one bucket. -/
theorem completeZeroes_fails (hroom : s.shape.lgn ≤ 104) :
    FailsOnly (· = .overflow) s.completeZeroes := by
  refine .bind (.loop (fun _ => .modify (completeRow_fails _) _) _ _) fun counts => ?_
  have hone : s.shape.depth * s.shape.width ≠ 1 := fun hone =>
    s.shape.prime.one_lt.ne' (Nat.eq_one_of_mul_eq_one_left hone)
  unfold computeBitDists
  rw [if_neg]
  · exact .ok _
  · rintro (hwide | ⟨-, hdiv⟩)
    · exact absurd hroom (not_le.mpr hwide)
    · exact hone hdiv

end Sketch

end P4Survey.SketchLearn
