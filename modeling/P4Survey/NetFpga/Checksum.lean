import P4Survey.NetFpga.Trimming

/-! # The IP header of a trimmed packet

The sum of the header is kept in 32 bits. Its upper half is added to the lower one in 16
bits, so that a carry out of this addition is lost.
-/

namespace P4Survey.NetFpga.NfNdp

open Lib

theorem wordSum_nil (n : ℕ) : wordSum n [] = 0 := by
  induction n with
  | zero => rfl
  | succ n ih => simp [wordSum, ih, valueOf]

/-- The sum of the words that a bit string is made of. -/
theorem wordSum_flatMap_bits {n : ℕ} {ws : List (BitVec 16)} (h : ws.length ≤ n) :
    wordSum n (ws.flatMap bits) = (ws.map BitVec.toNat).sum := by
  induction ws generalizing n with
  | nil => exact wordSum_nil n
  | cons a ws ih =>
    cases n with
    | zero => exact absurd h (Nat.not_succ_le_zero _)
    | succ n =>
      have htake : (bits a ++ ws.flatMap bits).take 16 = bits a :=
        List.take_left' (bits_length a)
      have hdrop : (bits a ++ ws.flatMap bits).drop 16 = ws.flatMap bits :=
        List.drop_left' (bits_length a)
      have hvalue : valueOf (bits a) = a.toNat := by
        rw [bits, valueOf_bitsOf, Nat.mod_eq_of_lt a.isLt]
      rw [List.flatMap_cons, wordSum, htake, hdrop, ih (Nat.le_of_succ_le_succ h), bits_length,
        hvalue, List.map_cons, List.sum_cons]
      simp

/-- The IP header of a packet, from its first two words. -/
def headerWords (w x : Beat) : List (BitVec 16) :=
  [w.tdata.extractLsb' 128 16, w.tdata.extractLsb' 112 16, w.tdata.extractLsb' 96 16,
    w.tdata.extractLsb' 80 16, w.tdata.extractLsb' 64 16, w.tdata.extractLsb' 48 16,
    w.tdata.extractLsb' 32 16, w.tdata.extractLsb' 16 16, w.tdata.extractLsb' 0 16,
    x.tdata.extractLsb' 240 16]

/-- The checksum that the header should have. -/
def headerChecksum (w x : Beat) : BitVec 16 :=
  csum16 (((headerWords w x).set 5 0#16).flatMap bits)

section Splice

variable (d : BitVec 256) (length sum : BitVec 16)

theorem getLsbD_splice (i : ℕ) :
    (splice d length sum).getLsbD i =
      if i < 48 then (d.extractLsb' 0 48).getLsbD i
      else if i - 48 < 16 then sum.getLsbD (i - 48)
      else if i - 48 - 16 < 48 then (d.extractLsb' 64 48).getLsbD (i - 48 - 16)
      else if i - 48 - 16 - 48 < 16 then length.getLsbD (i - 48 - 16 - 48)
      else (d.extractLsb' 128 128).getLsbD (i - 48 - 16 - 48 - 16) := by
  rw [splice]
  simp only [BitVec.getLsbD_append]

theorem splice_field {k : ℕ}
    (hk : k + 16 ≤ 48 ∨ 64 ≤ k ∧ k + 16 ≤ 112 ∨ 128 ≤ k ∧ k + 16 ≤ 256) :
    (splice d length sum).extractLsb' k 16 = d.extractLsb' k 16 := by
  apply BitVec.eq_of_getLsbD_eq
  intro i hi
  rw [BitVec.getLsbD_extractLsb', BitVec.getLsbD_extractLsb', getLsbD_splice]
  rcases hk with hk | hk | hk
  · rw [if_pos (by omega), BitVec.getLsbD_extractLsb', decide_eq_true (show k + i < 48 by omega),
      Nat.zero_add, Bool.true_and]
  · rw [if_neg (by omega), if_neg (by omega), if_pos (by omega), BitVec.getLsbD_extractLsb',
      decide_eq_true (show k + i - 48 - 16 < 48 by omega), Bool.true_and,
      show 64 + (k + i - 48 - 16) = k + i by omega]
  · rw [if_neg (by omega), if_neg (by omega), if_neg (by omega), if_neg (by omega),
      BitVec.getLsbD_extractLsb', decide_eq_true (show k + i - 48 - 16 - 48 - 16 < 128 by omega),
      Bool.true_and, show 128 + (k + i - 48 - 16 - 48 - 16) = k + i by omega]

theorem splice_length : (splice d length sum).extractLsb' 112 16 = length := by
  apply BitVec.eq_of_getLsbD_eq
  intro i hi
  rw [BitVec.getLsbD_extractLsb', getLsbD_splice, if_neg (by omega), if_neg (by omega),
    if_neg (by omega), if_pos (by omega), decide_eq_true hi, Bool.true_and]
  congr 1
  omega

theorem splice_sum : (splice d length sum).extractLsb' 48 16 = sum := by
  apply BitVec.eq_of_getLsbD_eq
  intro i hi
  rw [BitVec.getLsbD_extractLsb', getLsbD_splice, if_neg (by omega), if_pos (by omega),
    decide_eq_true hi, Bool.true_and]
  congr 1
  omega

end Splice

/-- The second word keeps the end of the address. -/
theorem trimmedTail_field (x : Beat) :
    (trimmedTail x).tdata.extractLsb' 240 16 = x.tdata.extractLsb' 240 16 := by
  apply BitVec.eq_of_getLsbD_eq
  intro i hi
  have htail : (trimmedTail x).tdata.getLsbD (240 + i) = x.tdata.getLsbD (240 + i) := by
    rw [trimmedTail]
    simp only [BitVec.getLsbD_append]
    rw [if_neg (by omega), if_neg (by omega), BitVec.getLsbD_extractLsb',
      decide_eq_true (show 240 + i - 96 - 16 < 144 by omega), Bool.true_and,
      show 112 + (240 + i - 96 - 16) = 240 + i by omega]
  rw [BitVec.getLsbD_extractLsb', BitVec.getLsbD_extractLsb', htail]

theorem half_toNat (d : BitVec 256) (low : ℕ) :
    (half d low).toNat = (d.extractLsb' low 16).toNat := by
  rw [half, BitVec.toNat_setWidth, Nat.mod_eq_of_lt]
  exact (d.extractLsb' low 16).isLt.trans (by norm_num)

/-- One addition of the carries is enough exactly if it has no carry itself. -/
theorem fold_once {n : ℕ} (hpos : 0 < n) (hlt : n < 9 * 2 ^ 16) :
    (n / 2 ^ 16 % 2 ^ 16 + n % 2 ^ 16) % 2 ^ 16 = ((n - 1) % 65535 + 1) % 2 ^ 16 ↔
      n / 2 ^ 16 + n % 2 ^ 16 < 2 ^ 16 := by
  generalize ha : n / 2 ^ 16 = a
  generalize hb : n % 2 ^ 16 = b
  have hn : n - 1 = 65535 * a + (a + b - 1) := by omega
  have hmod : (n - 1) % 65535 = (a + b - 1) % 65535 := by rw [hn, Nat.mul_add_mod]
  rw [hmod]
  omega

theorem half_lt (d : BitVec 256) (low : ℕ) : (half d low).toNat < 2 ^ 16 := by
  rw [half_toNat]
  exact BitVec.isLt _

/-- The sum does not overflow. -/
theorem headerSum_toNat (w x : Beat) : (headerSum w x).toNat =
    (half w.tdata 128).toNat + 40 + (half w.tdata 96).toNat +
      ((half w.tdata 80).toNat + (half w.tdata 64).toNat + (half w.tdata 32).toNat) +
      ((half w.tdata 16).toNat + (half w.tdata 0).toNat + (half x.tdata 240).toNat) := by
  have hw (k : ℕ) := half_lt w.tdata k
  have hx := half_lt x.tdata 240
  rw [headerSum]
  simp only [BitVec.toNat_add, BitVec.toNat_ofNat]
  have := hw 128
  have := hw 96
  have := hw 80
  have := hw 64
  have := hw 32
  have := hw 16
  have := hw 0
  omega

theorem headerSum_lt (w x : Beat) : (headerSum w x).toNat < 9 * 2 ^ 16 := by
  have hw (k : ℕ) := half_lt w.tdata k
  have hx := half_lt x.tdata 240
  rw [headerSum_toNat]
  have := hw 128
  have := hw 96
  have := hw 80
  have := hw 64
  have := hw 32
  have := hw 16
  have := hw 0
  omega

section Trimmed

variable (hFull : Full) (w x : Beat)

/-- Without its checksum the new header adds up to what the stage adds up. -/
theorem headerWords_trimmed :
    ((((headerWords (trimmed hFull w x) (trimmedTail x)).set 5 0#16).map BitVec.toNat).sum) =
      (headerSum w x).toNat := by
  have hwords : (headerWords (trimmed hFull w x) (trimmedTail x)).set 5 0#16 =
      [w.tdata.extractLsb' 128 16, 0x28#16, w.tdata.extractLsb' 96 16, w.tdata.extractLsb' 80 16,
        w.tdata.extractLsb' 64 16, 0#16, w.tdata.extractLsb' 32 16, w.tdata.extractLsb' 16 16,
        w.tdata.extractLsb' 0 16, x.tdata.extractLsb' 240 16] := by
    rw [headerWords, trimmedTail_field, trimmed, splice_field _ _ _ (by omega), splice_length,
      splice_field _ _ _ (by omega), splice_field _ _ _ (by omega),
      splice_field _ _ _ (by omega), splice_sum, splice_field _ _ _ (by omega),
      splice_field _ _ _ (by omega), splice_field _ _ _ (by omega)]
    rfl
  rw [hwords, headerSum_toNat]
  simp only [List.map_cons, List.map_nil, List.sum_cons, List.sum_nil, ← half_toNat,
    BitVec.toNat_ofNat]
  omega

/-- The checksum of a trimmed packet is right exactly if no carry is lost. -/
theorem trimmed_checksum :
    (trimmed hFull w x).tdata.extractLsb' 48 16 =
        headerChecksum (trimmed hFull w x) (trimmedTail x) ↔
      (headerSum w x).toNat / 2 ^ 16 + (headerSum w x).toNat % 2 ^ 16 < 2 ^ 16 := by
  have hsum : (trimmed hFull w x).tdata.extractLsb' 48 16 =
      ~~~((headerSum w x).extractLsb' 16 16 + (headerSum w x).extractLsb' 0 16) := splice_sum ..
  have hlen : ((headerWords (trimmed hFull w x) (trimmedTail x)).set 5 0#16).length ≤
      (((headerWords (trimmed hFull w x) (trimmedTail x)).set 5 0#16).flatMap bits).length := by
    simp [headerWords]
  have hpos : 0 < (headerSum w x).toNat := by
    rw [headerSum_toNat]
    omega
  rw [hsum, headerChecksum, csum16, wordSum_flatMap_bits hlen, headerWords_trimmed,
    BitVec.not_inj, ← BitVec.toNat_inj, ← fold_once hpos (headerSum_lt w x)]
  simp only [BitVec.toNat_add, BitVec.extractLsb'_toNat, BitVec.toNat_ofNat, if_neg hpos.ne',
    Nat.shiftRight_eq_div_pow, Nat.pow_zero, Nat.div_one]

end Trimmed

end P4Survey.NetFpga.NfNdp
