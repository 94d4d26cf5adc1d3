import P4Survey.Lib.Memory
import P4Survey.SketchLearn.Counters

/-! # The candidates for a key

`enumerate_keys_search` of `alg_sketchlearn.c`: all keys that a key becomes when some of its
bits are unknown. The recursion overwrites the key it is given and writes the candidates one
after the other.
-/

namespace P4Survey.SketchLearn

open Lib

/-- `set_bit` -/
def setBit (a : List UInt8) (pos : ℕ) (v : Bool) : Except Fault (List UInt8) :=
  match a[pos / 8]? with
  | none => .error .outside
  | some b =>
    let mask : UInt8 := .ofNat (2 ^ (7 - pos % 8))
    .ok (a.set (pos / 8) (if v then b ||| mask else b &&& ~~~mask))

/-- The buffers of the recursion: the key, the candidates and their number. -/
structure Search where
  orig : List UInt8
  ret : ℕ → UInt8
  nRet : ℕ

/-- `enumerate_keys_search` for the first `nBit` positions. The number of candidates and the
offset of one are of type `int`. -/
def enumerateKeysSearch (keyLen : ℕ) (bitInfos : List ℕ) : ℕ → Search → Except Fault Search
  | 0, s =>
    if s.nRet * keyLen < 2 ^ 31 ∧ s.nRet + 1 < 2 ^ 31 then
      .ok { s with
        ret := memcpy s.ret (s.nRet * keyLen) (s.orig.take keyLen)
        nRet := s.nRet + 1 }
    else .error .overflow
  | nBit + 1, s =>
    match bitInfos[nBit]? with
    | none => .error .outside
    | some pos =>
      (setBit s.orig pos false).bind fun orig =>
        (enumerateKeysSearch keyLen bitInfos nBit { s with orig := orig }).bind fun s =>
          (setBit s.orig pos true).bind fun orig =>
            enumerateKeysSearch keyLen bitInfos nBit { s with orig := orig }

section Bits

variable {a b : List UInt8} {pos : ℕ}

theorem mask_toNat {k : ℕ} (hk : k < 8) : (UInt8.ofNat (2 ^ k)).toNat = 2 ^ k := by
  have hlt : 2 ^ k < 2 ^ 8 := Nat.pow_lt_pow_right (by decide) hk
  rw [UInt8.toNat_ofNat', Nat.mod_eq_of_lt hlt]

theorem testBit_high (x : UInt8) {j : ℕ} (hj : 8 ≤ j) : x.toNat.testBit j = false :=
  Nat.testBit_lt_two_pow (x.toNat_lt.trans_le (Nat.pow_le_pow_right (by decide) hj))

theorem testBit_set {x : UInt8} {k j : ℕ} (hk : k < 8) (v : Bool) :
    (if v then x ||| UInt8.ofNat (2 ^ k) else x &&& ~~~UInt8.ofNat (2 ^ k)).toNat.testBit j =
      if k = j then v else x.toNat.testBit j := by
  cases v with
  | true =>
    rw [if_pos rfl, UInt8.toNat_or, mask_toNat hk, Nat.testBit_or, Nat.testBit_two_pow]
    by_cases hj : k = j <;> simp [hj]
  | false =>
    have hlt : 2 ^ k < 2 ^ 8 := Nat.pow_lt_pow_right (by decide) hk
    have hnot : UInt8.size - 1 - 2 ^ k = 2 ^ 8 - (2 ^ k + 1) := by
      rw [Nat.sub_sub, Nat.add_comm]
      rfl
    rw [if_neg Bool.false_ne_true, UInt8.toNat_and, UInt8.toNat_not, mask_toNat hk,
      Nat.testBit_and, hnot, Nat.testBit_two_pow_sub_succ hlt, Nat.testBit_two_pow]
    by_cases hj : j < 8
    · by_cases hkj : k = j <;> simp [hj, hkj]
    · simp [testBit_high x (not_lt.mp hj)]

/-- A bit of the key is set and all others are kept. -/
theorem setBit_eq (hpos : pos < 8 * a.length) (v : Bool) :
    ∃ a', setBit a pos v = .ok a' ∧ a'.length = a.length ∧
      ∀ p, getBit a' p = if p = pos then v else getBit a p := by
  have hbyte : pos / 8 < a.length := by omega
  refine ⟨_, by rw [setBit, List.getElem?_eq_getElem hbyte], List.length_set, fun p => ?_⟩
  rw [getBit_eq, getBit_eq, List.getD_eq_getElem?_getD, List.getElem?_set]
  by_cases hp : pos / 8 = p / 8
  · rw [if_pos hp, if_pos hbyte, Option.getD_some, testBit_set (by omega), ← hp,
      List.getD_eq_getElem _ _ hbyte]
    exact if_congr (by omega) rfl rfl
  · rw [if_neg hp, if_neg fun h => hp (by rw [h]), List.getD_eq_getElem?_getD]

/-- Two keys with the same bits are the same. -/
theorem eq_of_getBit (hlen : a.length = b.length)
    (h : ∀ p < 8 * a.length, getBit a p = getBit b p) : a = b := by
  apply List.ext_getElem hlen
  intro i hia hib
  apply UInt8.toNat_inj.mp
  apply Nat.eq_of_testBit_eq
  intro j
  by_cases hj : j < 8
  · have hbit := h (8 * i + (7 - j)) (by omega)
    rw [getBit_eq, getBit_eq, show (8 * i + (7 - j)) / 8 = i by omega,
      show 7 - (8 * i + (7 - j)) % 8 = j by omega, List.getD_eq_getElem _ _ hia,
      List.getD_eq_getElem _ _ hib] at hbit
    exact hbit
  · rw [testBit_high _ (not_lt.mp hj), testBit_high _ (not_lt.mp hj)]

end Bits

section Search

variable {keyLen : ℕ} {bits bitInfos : List ℕ} {s s' s₁ s₂ : Search} {pos n : ℕ}

/-- The keys that were written from the number `start` on. -/
def written (ret : ℕ → UInt8) (keyLen start n : ℕ) : List (List UInt8) :=
  (List.range n).map fun i => loadBytes ret ((start + i) * keyLen) keyLen

/-- What the search over some bits has done when it returns: the keys that differ from the given
one in these bits at most are written, each once, behind those that were there. -/
structure Enumerates (keyLen : ℕ) (bits : List ℕ) (s s' : Search) : Prop where
  length : s'.orig.length = keyLen
  kept : ∀ p, p ∉ bits → getBit s'.orig p = getBit s.orig p
  nRet : s'.nRet = s.nRet + 2 ^ bits.length
  nodup : (written s'.ret keyLen s.nRet (2 ^ bits.length)).Nodup
  mem : ∀ k, k ∈ written s'.ret keyLen s.nRet (2 ^ bits.length) ↔
    k.length = keyLen ∧ ∀ p < 8 * keyLen, p ∉ bits → getBit k p = getBit s.orig p
  frame : ∀ a, a < s.nRet * keyLen ∨ (s.nRet + 2 ^ bits.length) * keyLen ≤ a → s'.ret a = s.ret a

theorem written_add (ret : ℕ → UInt8) (keyLen start m n : ℕ) :
    written ret keyLen start (m + n) =
      written ret keyLen start m ++ written ret keyLen (start + m) n := by
  simp only [written, List.range_add, List.map_append, List.map_map, Function.comp_def,
    Nat.add_assoc]

theorem written_congr {ret ret' : ℕ → UInt8} {start : ℕ}
    (h : ∀ a < (start + n) * keyLen, ret' a = ret a) :
    written ret' keyLen start n = written ret keyLen start n := by
  apply List.map_congr_left
  intro i hi
  have hle : (start + i + 1) * keyLen ≤ (start + n) * keyLen :=
    Nat.mul_le_mul_right keyLen (by have := List.mem_range.mp hi; omega)
  rw [Nat.add_one_mul] at hle
  exact loadBytes_congr ret fun a _ ha => h a (ha.trans_le hle)

/-- With no bit left the key itself is written. -/
theorem Enumerates.leaf (hlen : s.orig.length = keyLen) :
    Enumerates keyLen [] s
      { s with ret := memcpy s.ret (s.nRet * keyLen) (s.orig.take keyLen), nRet := s.nRet + 1 } := by
  have htake : s.orig.take keyLen = s.orig := List.take_of_length_le hlen.le
  have hwritten : written (memcpy s.ret (s.nRet * keyLen) s.orig) keyLen s.nRet (2 ^ 0) =
      [s.orig] := by
    have hload := loadBytes_memcpy_self s.ret (s.nRet * keyLen) s.orig
    rw [hlen] at hload
    simp [written, hload]
  rw [htake]
  refine ⟨hlen, fun _ _ => rfl, rfl, ?_, fun k => ?_, fun a ha => ?_⟩
  · rw [List.length_nil, hwritten]
    exact List.nodup_singleton _
  · rw [List.length_nil, hwritten, List.mem_singleton]
    constructor
    · rintro rfl
      exact ⟨hlen, fun _ _ _ => rfl⟩
    · rintro ⟨hk, hbits⟩
      apply eq_of_getBit (hk.trans hlen.symm)
      intro p hp
      exact hbits p (hk ▸ hp) List.not_mem_nil
  · apply memcpy_of_outside
    rw [hlen, ← Nat.add_one_mul]
    exact ha

section Join

/-! One more bit: the search over the other bits is made with the bit clear and then, from the
key that this has left, with the bit set. -/

variable {clear set : List UInt8} (hpos : pos < 8 * keyLen) (hnew : pos ∉ bits)
  (hclear : ∀ p, getBit clear p = if p = pos then false else getBit s.orig p)
  (h₁ : Enumerates keyLen bits { s with orig := clear } s₁)
  (hset : ∀ p, getBit set p = if p = pos then true else getBit s₁.orig p)
  (h₂ : Enumerates keyLen bits { s₁ with orig := set } s₂)

theorem pow_length_concat (bits : List ℕ) (pos : ℕ) :
    2 ^ (bits ++ [pos]).length = 2 ^ bits.length + 2 ^ bits.length := by
  rw [List.length_append, List.length_singleton, pow_succ, Nat.mul_two]

theorem notMem_concat {p : ℕ} : p ∉ bits ++ [pos] ↔ p ∉ bits ∧ p ≠ pos := by
  simp

include h₁ hclear in
theorem Enumerates.kept_clear {p : ℕ} (hp : p ∉ bits ++ [pos]) :
    getBit s₁.orig p = getBit s.orig p := by
  obtain ⟨hbits, hne⟩ := notMem_concat.mp hp
  have hkept := h₁.kept p hbits
  rwa [hclear, if_neg hne] at hkept

include h₁ h₂ in
/-- The keys with the bit clear come before those with the bit set. -/
theorem Enumerates.written_join :
    written s₂.ret keyLen s.nRet (2 ^ (bits ++ [pos]).length) =
      written s₁.ret keyLen s.nRet (2 ^ bits.length) ++
        written s₂.ret keyLen s₁.nRet (2 ^ bits.length) := by
  have hnRet : s₁.nRet = s.nRet + 2 ^ bits.length := h₁.nRet
  rw [pow_length_concat, written_add, ← hnRet]
  congr 1
  apply written_congr
  intro a ha
  rw [← hnRet] at ha
  exact h₂.frame a (.inl ha)

include h₁ h₂ in
theorem Enumerates.frame_join (a : ℕ)
    (ha : a < s.nRet * keyLen ∨ (s.nRet + 2 ^ (bits ++ [pos]).length) * keyLen ≤ a) :
    s₂.ret a = s.ret a := by
  have hnRet : s₁.nRet = s.nRet + 2 ^ bits.length := h₁.nRet
  rw [pow_length_concat, ← Nat.add_assoc] at ha
  have hfirst : s₁.ret a = s.ret a := by
    apply h₁.frame a
    refine ha.imp id fun h => (Nat.mul_le_mul_right keyLen ?_).trans h
    exact Nat.le_add_right _ _
  have hsecond : s₂.ret a = s₁.ret a := by
    apply h₂.frame a
    dsimp only
    rw [hnRet]
    refine ha.imp (fun h => h.trans_le (Nat.mul_le_mul_right keyLen ?_)) id
    exact Nat.le_add_right _ _
  exact hsecond.trans hfirst

include hclear h₁ hset h₂ in
theorem Enumerates.mem_join (k : List UInt8) :
    k ∈ written s₂.ret keyLen s.nRet (2 ^ (bits ++ [pos]).length) ↔
      k.length = keyLen ∧ ∀ p < 8 * keyLen, p ∉ bits ++ [pos] → getBit k p = getBit s.orig p := by
  have hmem₁ := h₁.mem k
  have hmem₂ := h₂.mem k
  simp only [hclear] at hmem₁
  simp only [hset] at hmem₂
  rw [h₁.written_join h₂, List.mem_append, hmem₁, hmem₂]
  constructor
  · rintro (⟨hk, hbits⟩ | ⟨hk, hbits⟩)
    · refine ⟨hk, fun p hp hnot => ?_⟩
      obtain ⟨hnot', hne⟩ := notMem_concat.mp hnot
      rw [hbits p hp hnot', if_neg hne]
    · refine ⟨hk, fun p hp hnot => ?_⟩
      obtain ⟨hnot', hne⟩ := notMem_concat.mp hnot
      rw [hbits p hp hnot', if_neg hne, Enumerates.kept_clear hclear h₁ hnot]
  · rintro ⟨hk, hbits⟩
    cases hbit : getBit k pos with
    | false =>
      refine .inl ⟨hk, fun p hp hnot => ?_⟩
      by_cases hne : p = pos
      · rw [if_pos hne, hne, hbit]
      · rw [if_neg hne, hbits p hp (notMem_concat.mpr ⟨hnot, hne⟩)]
    | true =>
      refine .inr ⟨hk, fun p hp hnot => ?_⟩
      by_cases hne : p = pos
      · rw [if_pos hne, hne, hbit]
      · have hnot' := notMem_concat.mpr ⟨hnot, hne⟩
        rw [if_neg hne, hbits p hp hnot', Enumerates.kept_clear hclear h₁ hnot']

include hpos hnew hclear h₁ hset h₂ in
theorem Enumerates.join : Enumerates keyLen (bits ++ [pos]) s s₂ := by
  refine ⟨h₂.length, fun p hp => ?_, ?_, ?_, h₁.mem_join hclear hset h₂, h₁.frame_join h₂⟩
  · obtain ⟨hbits, hne⟩ := notMem_concat.mp hp
    have hkept := h₂.kept p hbits
    rw [hset, if_neg hne] at hkept
    exact hkept.trans (Enumerates.kept_clear hclear h₁ hp)
  · rw [h₂.nRet, pow_length_concat, ← Nat.add_assoc]
    exact congrArg (· + 2 ^ bits.length) h₁.nRet
  · rw [h₁.written_join h₂, List.nodup_append']
    refine ⟨h₁.nodup, h₂.nodup, fun k hk₁ hk₂ => ?_⟩
    -- the bit distinguishes the two halves
    have hbit₁ := ((h₁.mem k).mp hk₁).2 pos hpos hnew
    have hbit₂ := ((h₂.mem k).mp hk₂).2 pos hpos hnew
    rw [hclear, if_pos rfl] at hbit₁
    rw [hset, if_pos rfl, hbit₁] at hbit₂
    cases hbit₂

end Join

/-- The offset of the last of `2 ^ n` keys and their number are of type `int`. -/
def Fits (keyLen n start : ℕ) : Prop :=
  (start + 2 ^ n - 1) * keyLen < 2 ^ 31 ∧ start + 2 ^ n < 2 ^ 31

theorem fits_zero {start : ℕ} :
    Fits keyLen 0 start ↔ start * keyLen < 2 ^ 31 ∧ start + 1 < 2 ^ 31 := Iff.rfl

theorem fits_succ {start : ℕ} : Fits keyLen (n + 1) start ↔ Fits keyLen n (start + 2 ^ n) := by
  rw [Fits, Fits, pow_succ, Nat.mul_two, ← Nat.add_assoc]

theorem Fits.mono {start start' : ℕ} (h : Fits keyLen n start') (hle : start ≤ start') :
    Fits keyLen n start := by
  refine ⟨(Nat.mul_le_mul_right keyLen ?_).trans_lt h.1, ?_⟩
  · exact Nat.sub_le_sub_right (Nat.add_le_add_right hle _) 1
  · exact (Nat.add_le_add_right hle _).trans_lt h.2

section Run

variable (hnodup : bitInfos.Nodup) (hpos : ∀ p ∈ bitInfos, p < 8 * keyLen)

/-- The bits up to a position, and the one at it. -/
theorem take_succ_bits (hnodup : bitInfos.Nodup) (hn : n < bitInfos.length) :
    bitInfos.take (n + 1) = bitInfos.take n ++ [bitInfos[n]] ∧ bitInfos[n] ∉ bitInfos.take n := by
  have htake := List.take_succ_eq_append_getElem hn
  have hsub := hnodup.sublist (List.take_sublist (n + 1) bitInfos)
  rw [htake, List.nodup_append'] at hsub
  exact ⟨htake, fun hmem => hsub.2.2 hmem (List.mem_singleton_self _)⟩

include hnodup hpos in
/-- If it fits, the search over the first `n` bits returns. -/
theorem search_of_fits (hn : n ≤ bitInfos.length) (hlen : s.orig.length = keyLen)
    (hfits : Fits keyLen n s.nRet) :
    ∃ s', enumerateKeysSearch keyLen bitInfos n s = .ok s' ∧
      Enumerates keyLen (bitInfos.take n) s s' := by
  induction n generalizing s with
  | zero =>
    refine ⟨_, if_pos (fits_zero.mp hfits), ?_⟩
    rw [List.take_zero]
    exact .leaf hlen
  | succ n ih =>
    rw [fits_succ] at hfits
    obtain ⟨htake, hnew⟩ := take_succ_bits hnodup hn
    have hbyte := hpos _ (List.getElem_mem hn)
    have htakeLength : (bitInfos.take n).length = n := List.length_take_of_le (by omega)
    obtain ⟨clear, hclear, hclearLen, hclearBits⟩ := setBit_eq (hlen.symm ▸ hbyte) false
    obtain ⟨s₁, hs₁, h₁⟩ := ih (s := { s with orig := clear }) (by omega)
      (hclearLen.trans hlen) (hfits.mono (Nat.le_add_right _ _))
    obtain ⟨set, hset, hsetLen, hsetBits⟩ := setBit_eq (h₁.length.symm ▸ hbyte) true
    have hnRet : s₁.nRet = s.nRet + 2 ^ n := by
      rw [h₁.nRet, htakeLength]
    obtain ⟨s₂, hs₂, h₂⟩ := ih (s := { s₁ with orig := set }) (by omega)
      (hsetLen.trans h₁.length) (hnRet ▸ hfits)
    refine ⟨s₂, ?_, ?_⟩
    · rw [enumerateKeysSearch, List.getElem?_eq_getElem hn]
      dsimp only
      rw [hclear, Except.bind, hs₁, Except.bind, hset, Except.bind, hs₂]
    · rw [htake]
      exact Enumerates.join hbyte hnew hclearBits h₁ hsetBits h₂

include hnodup hpos in
/-- Otherwise an `int` overflows before the last key is written. -/
theorem search_of_not_fits (hn : n ≤ bitInfos.length) (hlen : s.orig.length = keyLen)
    (hfits : ¬Fits keyLen n s.nRet) :
    enumerateKeysSearch keyLen bitInfos n s = .error .overflow := by
  induction n generalizing s with
  | zero => exact if_neg (mt fits_zero.mpr hfits)
  | succ n ih =>
    rw [fits_succ] at hfits
    have hbyte := hpos _ (List.getElem_mem hn)
    have htakeLength : (bitInfos.take n).length = n := List.length_take_of_le (by omega)
    obtain ⟨clear, hclear, hclearLen, -⟩ := setBit_eq (hlen.symm ▸ hbyte) false
    rw [enumerateKeysSearch, List.getElem?_eq_getElem hn]
    dsimp only
    rw [hclear, Except.bind]
    by_cases hhalf : Fits keyLen n s.nRet
    · obtain ⟨s₁, hs₁, h₁⟩ := search_of_fits hnodup hpos (s := { s with orig := clear }) (by omega)
        (hclearLen.trans hlen) hhalf
      obtain ⟨set, hset, hsetLen, -⟩ := setBit_eq (h₁.length.symm ▸ hbyte) true
      have hnRet : s₁.nRet = s.nRet + 2 ^ n := by
        rw [h₁.nRet, htakeLength]
      rw [hs₁, Except.bind, hset, Except.bind]
      exact ih (by omega) (hsetLen.trans h₁.length) (hnRet ▸ hfits)
    · rw [ih (s := { s with orig := clear }) (by omega) (hclearLen.trans hlen) hhalf]
      rfl

end Run

/-- The search writes exactly the keys that agree with the given one outside of the listed bits,
each of them once, as long as their number and the offset of the last one are of type `int`. -/
theorem enumerates_keys (key : List UInt8) (bitInfos : List ℕ) (hnodup : bitInfos.Nodup)
    (hpos : ∀ p ∈ bitInfos, p < 8 * key.length) (ret : ℕ → UInt8) (nRet : ℕ)
    (hfits : Fits key.length bitInfos.length nRet) :
    ∃ s, enumerateKeysSearch key.length bitInfos bitInfos.length ⟨key, ret, nRet⟩ = .ok s ∧
      Enumerates key.length bitInfos ⟨key, ret, nRet⟩ s := by
  have hsearch := search_of_fits hnodup hpos (s := ⟨key, ret, nRet⟩) le_rfl rfl hfits
  rwa [List.take_length] at hsearch

theorem enumerates_keys_two :
    ∃ s, enumerateKeysSearch 1 [6, 1] 2 ⟨[0x81], fun _ => 0, 0⟩ = .ok s ∧
      Enumerates 1 [6, 1] ⟨[0x81], fun _ => 0, 0⟩ s :=
  enumerates_keys [0x81] [6, 1] (by decide) (by decide) _ _ ⟨by decide, by decide⟩

/-- Of 28 bits of a key of 13 bytes not all keys are written: the offset overflows. -/
theorem enumeration_overflows :
    (List.range 28).Nodup ∧ (∀ p ∈ List.range 28, p < 8 * 13) ∧
      enumerateKeysSearch 13 (List.range 28) 28 ⟨List.replicate 13 0, fun _ => 0, 0⟩ =
        .error .overflow := by
  have hnodup : (List.range 28).Nodup := List.nodup_range
  have hpos : ∀ p ∈ List.range 28, p < 8 * 13 := by decide
  refine ⟨hnodup, hpos, search_of_not_fits hnodup hpos (by decide) (by decide) ?_⟩
  rintro ⟨hoffset, -⟩
  norm_num at hoffset

end Search

end P4Survey.SketchLearn
