import P4Survey.Lib.Words
import P4Survey.SketchLearn.Counters

/-! # The serialized sketch

`SKL_Serialize` and `SKL_Deserialize`. The stream begins with its own length; then each
counter that is not zero follows with its two indices, in words of four bytes.
-/

namespace P4Survey.SketchLearn

open Lib

namespace Sketch

variable (s : Sketch)

/-- The counters that are not zero, in the order of the two loops. -/
def positions : List (ℕ × ℕ) :=
  (List.range (s.shape.depth * s.shape.width) ×ˢ List.range (1 + s.shape.lgn * 2)).filter
    fun p => s.counts p.1 p.2 ≠ 0

def entryBytes (p : ℕ × ℕ) : List UInt8 :=
  intBytes p.1 ++ (intBytes p.2 ++ intBytes (s.counts p.1 p.2))

/-- The length as an `unsigned int`. -/
def serialLength : ℕ := (4 + 12 * s.positions.length) % 2 ^ 32

/-- The bytes that are written, and the length that is returned. -/
def serialize : List UInt8 × ℕ :=
  (wordBytes s.serialLength ++ s.positions.flatMap s.entryBytes, s.serialLength)

def readWord (buf : List UInt8) (ptr : ℕ) : Except Fault ℕ :=
  if ptr + 4 ≤ buf.length then .ok (wordOf (buf.drop ptr)) else .error .outside

def readInt (buf : List UInt8) (ptr : ℕ) : Except Fault ℤ :=
  if ptr + 4 ≤ buf.length then .ok (intOf (buf.drop ptr)) else .error .outside

def put (i j : ℕ) (v : ℤ) : Sketch :=
  ⟨s.shape, Function.update s.counts i (Function.update (s.counts i) j v)⟩

/-- `counts[i][j] = v` -/
def assign (i j v : ℤ) : Except Fault Sketch :=
  if 0 ≤ i ∧ i < s.shape.size ∧ 0 ≤ j ∧ j ≤ s.shape.lgn * 2 then .ok (s.put i.toNat j.toNat v)
  else .error .outside

def readEntry (buf : List UInt8) (ptr : ℕ) : Except Fault Sketch :=
  (readInt buf ptr).bind fun i => (readInt buf (ptr + 4)).bind fun j =>
    (readInt buf (ptr + 8)).bind fun v => s.assign i j v

/-- The loop of `SKL_Deserialize`; each of at most `n` rounds moves on by an entry. -/
def readEntries (buf : List UInt8) (totSize : ℕ) : ℕ → ℕ → Sketch → Except Fault Sketch
  | 0, _, s => .ok s
  | n + 1, ptr, s =>
    if ptr < totSize then (s.readEntry buf ptr).bind (readEntries buf totSize n (ptr + 12))
    else .ok s

/-- `SKL_Deserialize`, with the length that it returns. -/
def deserialize (buf : List UInt8) : Except Fault (Sketch × ℕ) :=
  (readWord buf 0).bind fun totSize =>
    (readEntries buf totSize totSize 4 s).map fun s => (s, totSize)

/-- The counters are of type `int32_t`. -/
structure Stored extends Sketch where
  fits : ∀ i j, -2 ^ 31 ≤ counts i j ∧ counts i j < 2 ^ 31

def SameSize (s t : Sketch) : Prop :=
  s.shape.width = t.shape.width ∧ s.shape.depth = t.shape.depth ∧ s.shape.lgn = t.shape.lgn

/-- What is written from `s` and read into `t` makes the counters of `t` those of `s`, and as
many bytes are read as were written. -/
def RoundTrips (s t : Sketch) : Prop :=
  ∃ t' n, t.deserialize s.serialize.1 = .ok (t', n) ∧ n = s.serialize.1.length ∧
    ∀ i < s.shape.size, ∀ j ≤ s.shape.lgn * 2, t'.counts i j = s.counts i j

variable {s} {t : Sketch} {p : ℕ × ℕ} {buf : List UInt8}

theorem mem_positions :
    p ∈ s.positions ↔ (p.1 < s.shape.size ∧ p.2 ≤ s.shape.lgn * 2) ∧ s.counts p.1 p.2 ≠ 0 := by
  have hsize : s.shape.depth * s.shape.width = s.shape.size := Nat.mul_comm _ _
  obtain ⟨i, j⟩ := p
  rw [positions, List.mem_filter, List.mem_product, List.mem_range, List.mem_range, hsize,
    decide_eq_true_eq]
  refine and_congr_left fun _ => and_congr_right fun _ => ?_
  omega

theorem length_entryBytes (p : ℕ × ℕ) : (s.entryBytes p).length = 12 := rfl

theorem length_entries (l : List (ℕ × ℕ)) : (l.flatMap s.entryBytes).length = 12 * l.length := by
  induction l with
  | nil => rfl
  | cons p l ih =>
    rw [List.flatMap_cons, List.length_append, length_entryBytes, ih, List.length_cons]
    omega

theorem length_serialize : s.serialize.1.length = 4 + 12 * s.positions.length := by
  rw [serialize, List.length_append, length_wordBytes, length_entries]

theorem readWord_append (l : List UInt8) (n : ℕ) (r : List UInt8) :
    readWord (l ++ (wordBytes n ++ r)) l.length = .ok (n % 2 ^ 32) := by
  rw [readWord, if_pos, List.drop_left, wordOf_append]
  simp only [List.length_append, length_wordBytes]
  omega

theorem readInt_append {v : ℤ} (hv : -2 ^ 31 ≤ v ∧ v < 2 ^ 31) (l r : List UInt8) :
    readInt (l ++ (intBytes v ++ r)) l.length = .ok v := by
  rw [readInt, if_pos, List.drop_left, intOf_append hv.1 hv.2]
  simp only [List.length_append, length_intBytes]
  omega

/-- The words of an entry are read back. -/
theorem readEntry_append (s : Stored) {i j : ℕ} (hi : i < t.shape.size)
    (hj : j ≤ t.shape.lgn * 2) (l r : List UInt8) :
    t.readEntry (l ++ (s.entryBytes (i, j) ++ r)) l.length =
      .ok (t.put i j (s.counts i j)) := by
  have hsize : t.shape.size < 2 ^ 31 := t.shape.bucketsFit
  have hcounters := t.shape.countersFit
  have hfirst : readInt (l ++ (s.entryBytes (i, j) ++ r)) l.length = .ok (i : ℤ) := by
    simp only [entryBytes, List.append_assoc]
    exact readInt_append (by omega) _ _
  have hsecond : readInt (l ++ (s.entryBytes (i, j) ++ r)) (l.length + 4) = .ok (j : ℤ) := by
    have h := readInt_append (v := j) (by omega) (l ++ intBytes i)
      (intBytes (s.counts i j) ++ r)
    simp only [entryBytes, List.append_assoc, List.length_append, length_intBytes] at h ⊢
    exact h
  have hthird : readInt (l ++ (s.entryBytes (i, j) ++ r)) (l.length + 8) =
      .ok (s.counts i j) := by
    have h := readInt_append (s.fits i j) (l ++ (intBytes i ++ intBytes j)) r
    simp only [entryBytes, List.append_assoc, List.length_append, length_intBytes] at h ⊢
    exact h
  rw [readEntry, hfirst]
  change (readInt _ _).bind _ = _
  rw [hsecond]
  change (readInt _ _).bind _ = _
  rw [hthird]
  change t.assign i j (s.counts i j) = _
  rw [assign, if_pos (by omega), Int.toNat_natCast, Int.toNat_natCast]

/-- All entries of a stream are read, one after the other. -/
theorem readEntries_append (s : Stored) {l : List (ℕ × ℕ)} {n : ℕ} (hn : l.length ≤ n)
    (hl : ∀ p ∈ l, p.1 < t.shape.size ∧ p.2 ≤ t.shape.lgn * 2) (pre : List UInt8) :
    readEntries (pre ++ l.flatMap s.entryBytes) (pre ++ l.flatMap s.entryBytes).length n
      pre.length t = .ok (l.foldl (fun t p => t.put p.1 p.2 (s.counts p.1 p.2)) t) := by
  induction l generalizing t pre n with
  | nil =>
    rw [List.flatMap_nil, List.append_nil]
    cases n with
    | zero => rfl
    | succ n => exact if_neg (lt_irrefl _)
  | cons p l ih =>
    cases n with
    | zero => cases hn
    | succ n =>
      obtain ⟨hi, hj⟩ := hl p List.mem_cons_self
      have hrest := ih (t := t.put p.1 p.2 (s.counts p.1 p.2)) (Nat.le_of_succ_le_succ hn)
        (fun p' hp' => hl p' (List.mem_cons_of_mem p hp')) (pre ++ s.entryBytes p)
      have hptr : (pre ++ s.entryBytes p).length = pre.length + 12 := by
        rw [List.length_append, length_entryBytes]
      rw [hptr, List.append_assoc, ← List.flatMap_cons] at hrest
      rw [readEntries, if_pos]
      · rw [List.flatMap_cons, readEntry_append s hi hj, ← List.flatMap_cons]
        exact hrest
      · rw [List.length_append, length_entries, List.length_cons]
        omega

theorem counts_put (t : Sketch) (i j : ℕ) (v : ℤ) (a b : ℕ) :
    (t.put i j v).counts a b = if (a, b) = (i, j) then v else t.counts a b := by
  change Function.update t.counts i (Function.update (t.counts i) j v) a b = _
  by_cases ha : a = i
  · rw [ha, Function.update_self, Function.update_apply]
    exact if_congr (by simp) rfl rfl
  · rw [Function.update_of_ne ha, if_neg fun h => ha (congrArg Prod.fst h)]

/-- What is in the list is copied, the rest stays. -/
theorem counts_foldl (s : Sketch) (l : List (ℕ × ℕ)) (i j : ℕ) :
    (l.foldl (fun t p => t.put p.1 p.2 (s.counts p.1 p.2)) t).counts i j =
      if (i, j) ∈ l then s.counts i j else t.counts i j := by
  induction l generalizing t with
  | nil => rfl
  | cons p l ih =>
    have hput : (t.put p.1 p.2 (s.counts p.1 p.2)).counts i j =
        if (i, j) = p then s.counts i j else t.counts i j := by
      rw [counts_put]
      by_cases hp : (i, j) = p
      · rw [if_pos hp, if_pos hp, ← hp]
      · rw [if_neg hp, if_neg hp]
    rw [List.foldl_cons, ih, hput]
    by_cases hmem : (i, j) ∈ l
    · rw [if_pos hmem, if_pos (List.mem_cons_of_mem p hmem)]
    · rw [if_neg hmem]
      exact if_congr (by simp [hmem]) rfl rfl

theorem serialLength_lt (s : Sketch) : s.serialLength < 2 ^ 32 :=
  Nat.mod_lt _ (Nat.two_pow_pos 32)

theorem readWord_serialize (s : Sketch) : readWord s.serialize.1 0 = .ok s.serialLength := by
  have h := readWord_append [] s.serialLength (s.positions.flatMap s.entryBytes)
  rw [Nat.mod_eq_of_lt s.serialLength_lt] at h
  exact h

/-- A counter that is zero is not in the stream, and stays what it was. -/
theorem deserialize_serialize (s : Stored) (hsame : SameSize s.toSketch t)
    (hlen : 4 + 12 * s.positions.length < 2 ^ 32) :
    ∃ t', t.deserialize s.serialize.1 = .ok (t', s.serialize.1.length) ∧
      ∀ i < s.shape.size, ∀ j ≤ s.shape.lgn * 2,
        t'.counts i j = if s.counts i j = 0 then t.counts i j else s.counts i j := by
  obtain ⟨hwidth, hdepth, hlgn⟩ := hsame
  have hsize : t.shape.size = s.shape.size := by rw [Shape.size, ← hwidth, ← hdepth]; rfl
  have htot : s.serialLength = s.serialize.1.length := by
    rw [length_serialize, serialLength, Nat.mod_eq_of_lt hlen]
  have hfuel : s.positions.length ≤ s.serialize.1.length := by
    rw [length_serialize]
    omega
  have hentries : readEntries s.serialize.1 s.serialize.1.length s.serialize.1.length 4 t =
      .ok (s.positions.foldl (fun t p => t.put p.1 p.2 (s.counts p.1 p.2)) t) := by
    refine readEntries_append s hfuel (fun p hp => ?_) (wordBytes s.serialLength)
    rw [hsize, ← hlgn]
    exact (mem_positions.mp hp).1
  refine ⟨s.positions.foldl (fun t p => t.put p.1 p.2 (s.counts p.1 p.2)) t, ?_,
    fun i hi j hj => ?_⟩
  · rw [deserialize, readWord_serialize, htot]
    exact map_eq_ok.mpr ⟨_, hentries, rfl⟩
  · rw [counts_foldl]
    by_cases hzero : s.counts i j = 0
    · rw [if_pos hzero, if_neg fun hmem => (mem_positions.mp hmem).2 hzero]
    · rw [if_neg hzero, if_pos (mem_positions.mpr ⟨⟨hi, hj⟩, hzero⟩)]

theorem length_of_deserialize {t' : Sketch} {n : ℕ}
    (h : t.deserialize s.serialize.1 = .ok (t', n)) : n = s.serialLength := by
  rw [deserialize, readWord_serialize] at h
  obtain ⟨t'', -, heq⟩ := map_eq_ok.mp h
  exact (congrArg Prod.snd heq).symm

/-- A sketch is read back as it was written exactly if its length fits into 32 bits and each
counter that it does not write because it is zero is zero in the destination already. -/
theorem round_trips_iff (s t : Stored) (hsame : SameSize s.toSketch t.toSketch) :
    RoundTrips s.toSketch t.toSketch ↔ 4 + 12 * s.positions.length < 2 ^ 32 ∧
      ∀ i < s.shape.size, ∀ j ≤ s.shape.lgn * 2, s.counts i j = 0 → t.counts i j = 0 := by
  constructor
  · rintro ⟨t', n, hread, hn, heq⟩
    have hlen : 4 + 12 * s.positions.length < 2 ^ 32 := by
      rw [← length_serialize, ← hn, length_of_deserialize hread]
      exact serialLength_lt _
    refine ⟨hlen, fun i hi j hj hzero => ?_⟩
    obtain ⟨t'', hread', hcounts⟩ := deserialize_serialize s hsame hlen
    rw [hread] at hread'
    obtain ⟨rfl, -⟩ := Prod.mk.inj (Except.ok.inj hread')
    have hkept := hcounts i hi j hj
    rw [if_pos hzero, heq i hi j hj, hzero] at hkept
    exact hkept.symm
  · rintro ⟨hlen, hzeros⟩
    obtain ⟨t', hread, hcounts⟩ := deserialize_serialize s hsame hlen
    refine ⟨t', _, hread, rfl, fun i hi j hj => ?_⟩
    rw [hcounts i hi j hj]
    by_cases hzero : s.counts i j = 0
    · rw [if_pos hzero, hzero, hzeros i hi j hj hzero]
    · rw [if_neg hzero]

/-- A row of two buckets for keys of a byte. -/
def byteShape : Shape :=
  ⟨1, 2, 8, fun _ _ => 0, Nat.prime_two, (by decide : 2 < 2 ^ 31), (by decide : 17 < 2 ^ 31)⟩

/-- One counter of the first bucket holds `v`. -/
def single (v : ℤ) (hv : -2 ^ 31 ≤ v ∧ v < 2 ^ 31) : Stored where
  shape := byteShape
  counts i j := if i = 0 ∧ j = 0 then v else 0
  fits i j := by
    split_ifs
    · exact hv
    · decide

theorem round_trips_iff_empty :
    RoundTrips (single (-3) (by decide)).toSketch (single 0 (by decide)).toSketch ↔
      4 + 12 * (single (-3) (by decide)).positions.length < 2 ^ 32 ∧
        ∀ i < (single (-3) (by decide)).shape.size,
          ∀ j ≤ (single (-3) (by decide)).shape.lgn * 2,
            (single (-3) (by decide)).counts i j = 0 → (single 0 (by decide)).counts i j = 0 :=
  round_trips_iff _ _ ⟨rfl, rfl, rfl⟩

/-- An empty sketch writes no counter, so that the destination keeps the one it has. -/
theorem stale_counter_kept :
    SameSize (single 0 (by decide)).toSketch (single 5 (by decide)).toSketch ∧
      ¬RoundTrips (single 0 (by decide)).toSketch (single 5 (by decide)).toSketch := by
  refine ⟨⟨rfl, rfl, rfl⟩, fun ⟨t', n, hread, _, heq⟩ => ?_⟩
  obtain ⟨t'', hread', hcounts⟩ := deserialize_serialize (single 0 (by decide))
    (t := (single 5 (by decide)).toSketch) ⟨rfl, rfl, rfl⟩ (by decide)
  rw [hread] at hread'
  obtain ⟨rfl, -⟩ := Prod.mk.inj (Except.ok.inj hread')
  have hkept := hcounts 0 (by decide) 0 (by decide)
  rw [heq 0 (by decide) 0 (by decide)] at hkept
  exact absurd hkept (by decide)

end Sketch

end P4Survey.SketchLearn
