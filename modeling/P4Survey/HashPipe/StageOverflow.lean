import P4Survey.HashPipe.DLeft

/-! # Tables with stages that an `int` cannot place

Keys that are equal modulo the prime of the hash functions meet in every stage.
Packets of such flows, one each, fill their slots stage after stage and so come to
every stage of the table. In a table whose offsets leave the range of an `int` they
come to a stage outside the table or on top of another one.
-/

namespace P4Survey.HashPipe
open Lib

namespace DLeftConfig

variable {c : DLeftConfig}

/-- The slots of a key are those of `b`. -/
def Collides (c : DLeftConfig) (b key : ℕ) : Prop := ∀ k, c.index k key = c.index k b

theorem collides_of_mod_eq {b key : ℕ} (hb : b < 2 ^ 32) (hkey : key < 2 ^ 32)
    (h : key % hashP = b % hashP) : c.Collides b key := by
  intro k
  have hpos {x y : ℕ} (hx : hashA[k]? = some x) (hy : hashB[k]? = some y) :
      c.position x y k key = c.position x y k b := by
    have hhash : (x * key + y) % hashP = (x * b + y) % hashP :=
      Nat.ModEq.add_right y (Nat.ModEq.mul_left x h)
    rw [position_eq hx hy hkey, position_eq hx hy hb, hhash]
  apply Option.bind_congr
  intro x hx
  apply Option.bind_congr
  intro y hy
  rw [hpos hx hy]

/-- Without a hash function there is no slot. -/
theorem index_of_le {k : ℕ} (hk : hashA.length ≤ k) (key : ℕ) : c.index k key = none := by
  rw [index, List.getElem?_eq_none hk]
  rfl

end DLeftConfig

namespace DLeftHashTable

variable {c : DLeftConfig} {s s' : DLeftHashTable}

/-- Every flow of the table collides with `b` and is in a stage before `k`. -/
def Confined (c : DLeftConfig) (b k : ℕ) (s : DLeftHashTable) : Prop :=
  ∀ i, (s.buckets i).flowid ≠ 0 →
    c.Collides b (s.buckets i).flowid ∧ ∃ j < k, c.index j b = some i

theorem Confined.stage {b k key j : ℕ} {carried : FlowWithCount} {r : Option FlowWithCount}
    (hs : s.Confined c b k) (hj : j < k) (hc : c.Collides b carried.flowid)
    (hk : j = 0 → carried = ⟨key, 1⟩) (h : s.stage c key j carried = some (s', r)) :
    s'.Confined c b k ∧ s'.tally = s.tally ∧ ∀ x, r = some x → c.Collides b x.flowid := by
  obtain ⟨i, e, hi, hm, hb, ht⟩ := stage_cases hk h
  refine ⟨?_, ht, ?_⟩
  · intro i' hi'
    by_cases hii : i' = i
    · subst hii
      rw [hb, Function.update_self] at hi' ⊢
      refine ⟨?_, j, hj, hc j ▸ hi⟩
      rcases hm.flowid_eq with he | he
      · rw [he] at hi' ⊢
        exact (hs i' hi').1
      · rw [he]
        exact hc
    · rw [hb, Function.update_of_ne hii] at hi' ⊢
      exact hs i' hi'
  · intro x hx
    rcases hm.carried_cases hx with rfl | ⟨rfl, hne⟩
    · exact hc
    · exact (hs i hne).1

/-- A loop that ends without an exception has not come to stage `k`. -/
theorem Confined.roll {b k key n j : ℕ} {carried : FlowWithCount} {r : Option FlowWithCount}
    (hs : s.Confined c b k) (hnone : c.index k b = none) (hj : j ≤ k) (hn : k < j + n)
    (hc : c.Collides b carried.flowid) (hk : j = 0 → carried = ⟨key, 1⟩)
    (h : roll c key n j s carried = some (s', r)) :
    r = none ∧ s'.Confined c b k ∧ s'.tally = s.tally := by
  induction n generalizing j s carried with
  | zero => omega
  | succ n ih =>
    rw [DLeftHashTable.roll] at h
    cases hst : s.stage c key j carried with
    | none => simp [hst] at h
    | some p =>
      obtain ⟨s1, r1⟩ := p
      have hlt : j < k := by
        rcases Nat.lt_or_eq_of_le hj with hlt | rfl
        · exact hlt
        · obtain ⟨i, _, hi, -⟩ := stage_cases hk hst
          rw [hc j, hnone] at hi
          cases hi
      obtain ⟨hs1, ht1, hc1⟩ := hs.stage hlt hc hk hst
      cases r1 with
      | none =>
        simp only [hst] at h
        obtain ⟨rfl, rfl⟩ := Prod.mk.inj (Option.some.inj h)
        exact ⟨rfl, hs1, ht1⟩
      | some x =>
        simp only [hst] at h
        obtain ⟨hr, hs', ht'⟩ := ih hs1 (by omega) (by omega) (hc1 x rfl) (by omega) h
        exact ⟨hr, hs', ht'.trans ht1⟩

theorem Confined.processData {b k key : ℕ} (hs : s.Confined c b k) (hnone : c.index k b = none)
    (hk : k < c.D) (hkey : key ≠ 0) (hcol : c.Collides b key)
    (h : s.processData c key = some s') :
    s'.Confined c b k ∧ s'.droppedPacketInfoCount = s.droppedPacketInfoCount := by
  obtain ⟨s1, r, hr, hb, -, hd⟩ := processData_cases hkey h
  have hs0 : { s with totalNumberOfPackets := s.totalNumberOfPackets + 1 }.Confined c b k := hs
  have hcarried : c.Collides b (⟨key, 1⟩ : FlowWithCount).flowid := hcol
  obtain ⟨rfl, hs1, ht1⟩ := hs0.roll hnone (Nat.zero_le k) (by omega) hcarried (fun _ => rfl) hr
  constructor
  · intro i
    rw [hb]
    exact hs1 i
  · rw [hd]
    exact congrArg Prod.snd ht1

theorem Confined.processAll {b k : ℕ} {l : List ℕ} (hs : s.Confined c b k)
    (hnone : c.index k b = none) (hk : k < c.D) (hl : ∀ key ∈ l, key ≠ 0 ∧ c.Collides b key)
    (h : processAll c l s = some s') :
    s'.Confined c b k ∧ s'.droppedPacketInfoCount = s.droppedPacketInfoCount := by
  induction l generalizing s with
  | nil =>
    obtain rfl := Option.some.inj h
    exact ⟨hs, rfl⟩
  | cons key l ih =>
    obtain ⟨s1, h1, h2⟩ := Option.bind_eq_some_iff.mp h
    obtain ⟨⟨hkey, hcol⟩, hl⟩ := List.forall_mem_cons.mp hl
    obtain ⟨hs1, hd1⟩ := hs.processData hnone hk hkey hcol h1
    obtain ⟨hs2, hd2⟩ := ih hs1 hl h2
    exact ⟨hs2, hd2.trans hd1⟩

/-- A slot counts no more than the packets of its flow. -/
theorem Accounted.count_le {l : List ℕ} (ha : s.Accounted c l) {i : ℕ} (hi : i < c.tableSize) :
    (s.buckets i).count ≤ l.count (s.buckets i).flowid := by
  refine le_trans ?_ (ha.credited (s.buckets i).flowid)
  have hle : (s.buckets i).weigh (only (s.buckets i).flowid) ≤
      s.weight c (only (s.buckets i).flowid) :=
    Finset.single_le_sum (f := fun j => (s.buckets j).weigh (only (s.buckets i).flowid))
      (fun _ _ => Nat.zero_le _) (Finset.mem_range.mpr hi)
  simpa [FlowCount.weigh, only] using hle

/-- Packets of different flows that are all in the table take a slot each. -/
theorem Confined.length_le {b k : ℕ} {l : List ℕ} (hs : s.Confined c b k) (ha : s.Accounted c l)
    (hd : s.droppedPacketInfoCount = 0) (hl : l.Nodup) : l.length ≤ k := by
  have hcons : ∑ i ∈ Finset.range c.tableSize, (s.buckets i).count = l.length := by
    have h := ha.conserved
    rw [hd] at h
    simpa [weight, mass, FlowCount.weigh] using h
  let stages : Finset ℕ := (Finset.range k).image fun j => (c.index j b).getD 0
  have hone (i : ℕ) (hi : i ∈ Finset.range c.tableSize) :
      (s.buckets i).count ≤ if i ∈ stages then 1 else 0 := by
    by_cases h0 : (s.buckets i).flowid = 0
    · rw [ha.placed.clean i h0]
      exact Nat.zero_le _
    · obtain ⟨-, j, hj, hji⟩ := hs i h0
      have hmem : i ∈ stages := Finset.mem_image.mpr ⟨j, Finset.mem_range.mpr hj, by rw [hji]; rfl⟩
      rw [if_pos hmem]
      exact (ha.count_le (Finset.mem_range.mp hi)).trans (List.nodup_iff_count_le_one.mp hl _)
  calc l.length = ∑ i ∈ Finset.range c.tableSize, (s.buckets i).count := hcons.symm
    _ ≤ ∑ i ∈ Finset.range c.tableSize, if i ∈ stages then 1 else 0 := Finset.sum_le_sum hone
    _ = ((Finset.range c.tableSize).filter (· ∈ stages)).card := (Finset.card_filter _ _).symm
    _ ≤ stages.card := Finset.card_le_card fun i hi => (Finset.mem_filter.mp hi).2
    _ ≤ (Finset.range k).card := Finset.card_image_le
    _ = k := Finset.card_range k

/-- The first `n` keys that are equal to `b` modulo the prime. -/
def rivals (b n : ℕ) : List ℕ := (List.range n).map fun j => b + hashP * j

/-- A table for these keys, with a packet of each in the map. -/
def rivalConfig (tableSize D b n : ℕ) : DLeftConfig :=
  ⟨tableSize, D, (rivals b n).map fun key => (key, 1)⟩

theorem rivals_nodup (b n : ℕ) : (rivals b n).Nodup := by
  apply List.Nodup.map ?_ List.nodup_range
  intro i j h
  exact Nat.eq_of_mul_eq_mul_left (by decide) (Nat.add_left_cancel h)

theorem isFlow_of_mem_rivals {b n key : ℕ} (hb : 0 < b) (hn : b + hashP * n ≤ 2 ^ 32)
    (h : key ∈ rivals b n) : IsFlow key ∧ key % hashP = b % hashP := by
  obtain ⟨j, hj, rfl⟩ := List.mem_map.mp h
  have hlt : hashP * j < hashP * n := Nat.mul_lt_mul_of_pos_left (List.mem_range.mp hj) (by decide)
  exact ⟨⟨by omega, by omega⟩, Nat.add_mul_mod_self_left _ _ _⟩

theorem rivals_fit {tableSize D b n : ℕ} (hb : 0 < b) (hn : b + hashP * n ≤ 2 ^ 32) :
    Fits (rivalConfig tableSize D b n) (rivals b n) where
  entries := by
    have hmap : ((rivals b n).map fun key => (key, 1)).map Prod.fst = rivals b n := by
      simp [Function.comp_def]
    rw [rivalConfig, hmap]
    exact rivals_nodup b n
  keys key h := by
    refine ⟨(isFlow_of_mem_rivals hb hn h).1, ?_⟩
    rw [DLeftConfig.actualFlowSize, List.lookup_isSome_iff]
    exact ⟨(key, 1), List.mem_map_of_mem h, beq_self_eq_true key⟩
  packets := by
    rw [rivals, List.length_map, List.length_range]
    have hle : 9029 * n ≤ 2 ^ 32 := (Nat.le_add_left _ _).trans hn
    omega

/-- One packet more than there are stages before `k` comes to stage `k`. -/
theorem rivals_stuck {b k : ℕ} (hnone : c.index k b = none) (hk : k < c.D) (hb : 0 < b)
    (hn : b + hashP * (k + 1) ≤ 2 ^ 32) : processAll c (rivals b (k + 1)) (new none) = none := by
  by_contra hne
  obtain ⟨s, hs⟩ := Option.ne_none_iff_exists'.mp hne
  have hl (key : ℕ) (h : key ∈ rivals b (k + 1)) := isFlow_of_mem_rivals hb hn h
  have hlt : 9029 * (k + 1) + b ≤ 2 ^ 32 := (Nat.add_comm _ _).trans_le hn
  have hstart : (new none).Confined c b k := fun i hi => absurd rfl hi
  obtain ⟨hconf, hd⟩ := hstart.processAll hnone hk (fun key h => ⟨(hl key h).1.1.ne',
    DLeftConfig.collides_of_mod_eq (by omega) (hl key h).1.2 (hl key h).2⟩) hs
  have ha := (Accounted.start none).processAll (fun key h => (hl key h).1) hs
  have hlen := hconf.length_le ha hd (rivals_nodup b (k + 1))
  rw [List.nil_append, rivals, List.length_map, List.length_range] at hlen
  omega

end DLeftHashTable

namespace DLeftConfig

variable {c : DLeftConfig}

/-- No multiplier is a multiple of the prime, so in every stage some key has the hash zero. -/
theorem exists_hash_zero {k x : ℕ} (hx : hashA[k]? = some x) (y : ℕ) :
    ∃ b, 0 < b ∧ b ≤ 2 * hashP ∧ (x * b + y) % hashP = 0 := by
  have hall : ∀ x ∈ hashA, Nat.Coprime x hashP := by decide +kernel
  obtain ⟨m, -, hm⟩ := Nat.exists_mul_mod_eq_one_of_coprime (hall x (List.mem_of_getElem? hx))
    (by decide)
  have hinv : x * m ≡ 1 [MOD hashP] := hm
  have hlt : m * (9028 * y) % hashP < hashP := Nat.mod_lt _ (by decide)
  refine ⟨m * (9028 * y) % hashP + hashP, by omega, by omega, ?_⟩
  have hb : m * (9028 * y) % hashP + hashP ≡ m * (9028 * y) [MOD hashP] :=
    (Nat.add_mod_right _ _).trans (Nat.mod_mod _ _)
  have hzero : x * (m * (9028 * y) % hashP + hashP) + y ≡ hashP * y [MOD hashP] :=
    calc x * (m * (9028 * y) % hashP + hashP) + y
        ≡ x * (m * (9028 * y)) + y [MOD hashP] := (hb.mul_left x).add_right y
      _ = x * m * (9028 * y) + y := by ring
      _ ≡ 1 * (9028 * y) + y [MOD hashP] := (hinv.mul_right _).add_right y
      _ = hashP * y := by ring
  exact Eq.trans hzero (Nat.mul_mod_right _ _)

theorem java_wrap {n : ℕ} (h : 2 ^ 31 ≤ n) (h' : n < 2 ^ 32) :
    java 32 n = -((2 ^ 32 - n : ℕ) : ℤ) := by
  rw [java, Int.bmod_def]
  split_ifs with hlt
  · omega
  · omega

/-- The offset of a stage that starts beyond the range of an `int` but not twice as far. -/
theorem stageStart_wrap {k : ℕ} (h : 2 ^ 31 ≤ k * c.tableSize) (h' : k * c.tableSize < 2 ^ 32) :
    c.stageStart k = -((2 ^ 32 - k * c.tableSize) / c.D : ℕ) := by
  rw [stageStart, java_wrap h h', Int.neg_tdiv]
  rfl

/-- A table that is not small has a stage without a slot for some key, or its third stage
starts where the first one does. -/
theorem exists_index_none (hT : c.tableSize < 2 ^ 31) (hD : c.D ≤ hashA.length)
    (hover : 2 ^ 31 ≤ (c.D - 1) * c.tableSize)
    (halias : ¬ (2 * c.tableSize < 2 ^ 32 ∧ 2 ^ 32 < 2 * c.tableSize + c.D)) :
    ∃ k < c.D, ∃ b, 0 < b ∧ b ≤ 2 * hashP ∧ c.index k b = none := by
  have hex : ∃ k, 2 ^ 31 ≤ k * c.tableSize := ⟨c.D - 1, hover⟩
  obtain ⟨k, hk, hmin, hkD⟩ : ∃ k, 2 ^ 31 ≤ k * c.tableSize ∧
      (∀ j < k, j * c.tableSize < 2 ^ 31) ∧ k ≤ c.D - 1 :=
    ⟨Nat.find hex, Nat.find_spec hex, fun j hj => not_le.mp (Nat.find_min hex hj),
      Nat.find_min' hex hover⟩
  obtain ⟨j, rfl⟩ : ∃ j, k = j + 1 := Nat.exists_eq_succ_of_ne_zero (by rintro rfl; omega)
  have hprev : j * c.tableSize < 2 ^ 31 := hmin j (Nat.lt_succ_self j)
  have hstep : (j + 1) * c.tableSize = j * c.tableSize + c.tableSize := Nat.succ_mul j c.tableSize
  have hneg : c.D ≤ 2 ^ 32 - (j + 1) * c.tableSize := by
    by_contra hlt
    rw [hashA_length] at hD
    match j with
    | 0 => omega
    | 1 => exact halias ⟨by omega, by omega⟩
    | j + 2 =>
      have : (j + 2) * c.tableSize = j * c.tableSize + 2 * c.tableSize := by ring
      omega
  have hA : j + 1 < hashA.length := by omega
  obtain ⟨b, hb, hble, hzero⟩ := exists_hash_zero (List.getElem?_eq_getElem hA)
    ((hashB[j + 1]?).getD 0)
  refine ⟨j + 1, by omega, b, hb, hble, ?_⟩
  by_contra hne
  obtain ⟨i, hi⟩ := Option.ne_none_iff_exists'.mp hne
  obtain ⟨x, y, hx, hy, -, hpos, -⟩ := index_cases hi
  rw [hy, Option.getD_some] at hzero
  obtain rfl := Option.some.inj ((List.getElem?_eq_getElem hA).symm.trans hx)
  have hdiv : 1 ≤ (2 ^ 32 - (j + 1) * c.tableSize) / c.D :=
    (Nat.one_le_div_iff (by omega)).mpr hneg
  rw [position_eq hx hy (hble.trans_lt (by decide)), hzero, Nat.zero_mod,
    stageStart_wrap hk (by omega)] at hpos
  omega

/-- The third stage on top of the first one. -/
structure Stacked (c : DLeftConfig) : Prop where
  stages : 3 ≤ c.D ∧ c.D ≤ 137
  size : 2 * c.tableSize < 2 ^ 32
  near : 2 ^ 32 < 2 * c.tableSize + c.D

namespace Stacked

variable (h : c.Stacked)
include h

theorem le_stageSize : 9029 ≤ c.stageSize := by
  have := h.stages
  have := h.near
  rw [stageSize, Nat.le_div_iff_mul_le (by omega)]
  omega

theorem stageStart_two : c.stageStart 2 = 0 := by
  have := h.size
  have := h.near
  have := h.stages
  rw [stageStart_wrap (by omega) h.size, Nat.div_eq_of_lt (by omega)]
  rfl

theorem stageStart_zero : c.stageStart 0 = 0 := by
  have := h.stages
  rw [stageStart, Nat.zero_mul]
  exact Int.zero_tdiv _

theorem stageStart_one : c.stageStart 1 = c.stageSize := by
  have := h.size
  rw [stageStart, Nat.one_mul, java_eq (by omega)]
  rfl

theorem three_mul_stageSize_le : 3 * c.stageSize ≤ c.tableSize :=
  (Nat.mul_le_mul_right _ h.stages.1).trans (Nat.mul_div_le _ _)

/-- In a stage that starts at `o` the slot of a key is its hash, after `o`. -/
theorem index_eq_add {k x y o : ℕ} (hx : hashA[k]? = some x) (hy : hashB[k]? = some y)
    (ho : c.stageStart k = o) (hle : o ≤ c.stageSize) :
    c.index k 1 = some ((x + y) % hashP + o) := by
  have hsize := h.le_stageSize
  have htable := h.three_mul_stageSize_le
  have hmod : (x * 1 + y) % hashP < 9029 := Nat.mod_lt _ (by decide)
  have hpos : c.position x y k 1 = ((x + y) % hashP + o : ℕ) := by
    rw [position_eq hx hy (by decide), ho, Nat.mod_eq_of_lt (hmod.trans_le hsize), Nat.mul_one,
      Nat.cast_add]
  rw [Nat.mul_one] at hmod
  rw [index_eq hx hy (by omega) (by rw [hpos]; exact ⟨Int.natCast_nonneg _, by omega⟩), hpos]
  rfl

/-- The slots of the key 1 in the first three stages. -/
theorem index_one : c.index 0 1 = some 4252 ∧ c.index 1 1 = some (3172 + c.stageSize) ∧
    c.index 2 1 = some 3216 :=
  ⟨h.index_eq_add rfl rfl h.stageStart_zero (Nat.zero_le _),
    h.index_eq_add rfl rfl h.stageStart_one le_rfl,
    h.index_eq_add rfl rfl h.stageStart_two (Nat.zero_le _)⟩

end Stacked

end DLeftConfig

namespace DLeftHashTable

variable {c : DLeftConfig} {s s' : DLeftHashTable}

theorem stage_fill {key k i : ℕ} {carried : FlowWithCount} (hk : k = 0 → carried = ⟨key, 1⟩)
    (hi : c.index k carried.flowid = some i) (h0 : (s.buckets i).flowid = 0) :
    s.stage c key k carried = some (s.put i carried, none) := by
  simp only [stage, hi, Option.bind_eq_bind, Option.bind_some, h0, true_and]
  split_ifs with hk0
  · rw [hk hk0]
  · rfl

/-- In a slot with another flow one of the two is carried on. -/
theorem stage_contest {key k i : ℕ} {carried : FlowWithCount} (hk : k = 0 → carried = ⟨key, 1⟩)
    (hi : c.index k carried.flowid = some i) (h0 : (s.buckets i).flowid ≠ 0)
    (hne : (s.buckets i).flowid ≠ carried.flowid) (hkey : (c.actualFlowSize key).isSome)
    (hv : (c.actualFlowSize (s.contest key k i carried).2.flowid).isSome) :
    ∃ s', s.stage c key k carried = some (s', some (s.contest key k i carried).2) ∧
      s'.buckets = (s.contest key k i carried).1.buckets := by
  obtain ⟨s1, h1⟩ := Option.isSome_iff_exists.mp
    (countCarried_isSome (s := (s.contest key k i carried).1) (k := k) hkey hv)
  refine ⟨s1.remember key, ?_, (countCarried_eq h1).1⟩
  have hkey0 : ¬((s.buckets i).flowid = key ∧ k = 0) := by
    rintro ⟨h, hk0⟩
    rw [hk hk0] at hne
    exact hne h
  simp only [stage, hi, Option.bind_eq_bind, Option.bind_some, h0, hne, hkey0, false_and, if_false,
    h1]

theorem roll_fill {key n k i : ℕ} {carried : FlowWithCount} (hk : k = 0 → carried = ⟨key, 1⟩)
    (hi : c.index k carried.flowid = some i) (h0 : (s.buckets i).flowid = 0) :
    roll c key (n + 1) k s carried = some (s.put i carried, none) := by
  rw [roll, stage_fill hk hi h0]

/-- The first stage takes the flow of the packet and carries on the one that was there. -/
theorem roll_first {key n i : ℕ} {v : FlowWithCount} (hi : c.index 0 key = some i)
    (hv : s.buckets i = v) (h0 : v.flowid ≠ 0) (hne : v.flowid ≠ key)
    (hkey : (c.actualFlowSize key).isSome) (hsize : (c.actualFlowSize v.flowid).isSome) :
    ∃ s1, roll c key (n + 1) 0 s ⟨key, 1⟩ = roll c key n 1 s1 v ∧
      s1.buckets = Function.update s.buckets i ⟨key, 1⟩ := by
  subst hv
  have hi' : c.index 0 (⟨key, 1⟩ : FlowWithCount).flowid = some i := hi
  obtain ⟨s1, h1, hb⟩ := stage_contest (fun _ => rfl) hi' h0 hne hkey hsize
  refine ⟨s1, ?_, hb⟩
  rw [roll, h1]
  rfl

/-- A later stage keeps a flow that has as many packets as the carried one. -/
theorem roll_pass {key n k i : ℕ} {carried : FlowWithCount} (hk : k ≠ 0)
    (hi : c.index k carried.flowid = some i) (h0 : (s.buckets i).flowid ≠ 0)
    (hne : (s.buckets i).flowid ≠ carried.flowid) (hle : carried.count ≤ (s.buckets i).count)
    (hkey : (c.actualFlowSize key).isSome) (hsize : (c.actualFlowSize carried.flowid).isSome) :
    ∃ s1, roll c key (n + 1) k s carried = roll c key n (k + 1) s1 carried ∧
      s1.buckets = s.buckets := by
  have hcontest : s.contest key k i carried = (s, carried) := by
    rw [contest, if_neg hk, if_neg (Nat.not_lt.mpr hle)]
  obtain ⟨s1, h1, hb⟩ := stage_contest (fun h => absurd h hk) hi h0 hne hkey
    (by rw [hcontest]; exact hsize)
  rw [hcontest] at h1 hb
  refine ⟨s1, ?_, hb⟩
  rw [roll, h1]

/-- A packet that finds its slot of the first stage empty. -/
theorem processData_first {key i : ℕ} (hkey : key ≠ 0) (hD : 1 ≤ c.D)
    (hi : c.index 0 key = some i) (h0 : (s.buckets i).flowid = 0) :
    ∃ s', s.processData c key = some s' ∧ s'.buckets = Function.update s.buckets i ⟨key, 1⟩ := by
  obtain ⟨d, hd⟩ : ∃ d, c.D = d + 1 := ⟨c.D - 1, by omega⟩
  have hi' : c.index 0 (⟨key, 1⟩ : FlowWithCount).flowid = some i := hi
  have hroll := roll_fill (s := { s with totalNumberOfPackets := s.totalNumberOfPackets + 1 })
    (n := d) (fun _ => rfl) hi' h0
  rw [processData, if_neg hkey, hd, hroll]
  exact ⟨_, rfl, rfl⟩

/-- A packet that sends on the flow of the first stage to an empty slot of the second one. -/
theorem processData_second {key i i' : ℕ} {v : FlowWithCount} (hkey : key ≠ 0) (hD : 2 ≤ c.D)
    (hi : c.index 0 key = some i) (hv : s.buckets i = v) (h0 : v.flowid ≠ 0)
    (hne : v.flowid ≠ key) (hi' : c.index 1 v.flowid = some i') (hii : i' ≠ i)
    (h0' : (s.buckets i').flowid = 0) (hsize : (c.actualFlowSize key).isSome)
    (hsizev : (c.actualFlowSize v.flowid).isSome) :
    ∃ s', s.processData c key = some s' ∧
      s'.buckets = Function.update (Function.update s.buckets i ⟨key, 1⟩) i' v := by
  obtain ⟨d, hd⟩ : ∃ d, c.D = d + 2 := ⟨c.D - 2, by omega⟩
  obtain ⟨s1, h1, hb1⟩ := roll_first (c := c) (n := d + 1)
    (s := { s with totalNumberOfPackets := s.totalNumberOfPackets + 1 }) hi hv h0 hne hsize hsizev
  have hempty : (s1.buckets i').flowid = 0 := by
    rw [hb1, Function.update_of_ne hii]
    exact h0'
  rw [processData, if_neg hkey, hd, h1, roll_fill (by omega) hi' hempty]
  exact ⟨_, rfl, by rw [put, hb1]⟩

/-- A packet that sends on the flow of the first stage to an empty slot of the third one. -/
theorem processData_third {key i i' i'' : ℕ} {v w : FlowWithCount} (hkey : key ≠ 0) (hD : 3 ≤ c.D)
    (hi : c.index 0 key = some i) (hv : s.buckets i = v) (h0 : v.flowid ≠ 0)
    (hne : v.flowid ≠ key) (hi' : c.index 1 v.flowid = some i') (hii : i' ≠ i)
    (hw : s.buckets i' = w) (h0' : w.flowid ≠ 0) (hne' : w.flowid ≠ v.flowid)
    (hle : v.count ≤ w.count) (hi'' : c.index 2 v.flowid = some i'') (hii' : i'' ≠ i)
    (h0'' : (s.buckets i'').flowid = 0) (hsize : (c.actualFlowSize key).isSome)
    (hsizev : (c.actualFlowSize v.flowid).isSome) :
    ∃ s', s.processData c key = some s' ∧
      s'.buckets = Function.update (Function.update s.buckets i ⟨key, 1⟩) i'' v := by
  obtain ⟨d, hd⟩ : ∃ d, c.D = d + 3 := ⟨c.D - 3, by omega⟩
  obtain ⟨s1, h1, hb1⟩ := roll_first (c := c) (n := d + 2)
    (s := { s with totalNumberOfPackets := s.totalNumberOfPackets + 1 }) hi hv h0 hne hsize hsizev
  have hw1 : s1.buckets i' = w := by rw [hb1, Function.update_of_ne hii, ← hw]
  obtain ⟨s2, h2, hb2⟩ := roll_pass (n := d + 1) one_ne_zero hi' (hw1 ▸ h0')
    (hw1 ▸ hne') (hw1 ▸ hle) hsize hsizev
  have hempty : (s2.buckets i'').flowid = 0 := by
    rw [hb2, hb1, Function.update_of_ne hii']
    exact h0''
  rw [processData, if_neg hkey, hd, h1, h2, roll_fill (by omega) hi'' hempty]
  exact ⟨_, rfl, by rw [put, hb2, hb1]⟩

/-- Three flows with the same slots `i0`, `i1` and `i2` in the first three stages, a packet of
each: the second one ends in the third stage. -/
theorem processAll_three {x y z i0 i1 i2 : ℕ} (hD : 3 ≤ c.D)
    (h0 : ∀ key ∈ [x, y, z], c.index 0 key = some i0)
    (h1 : ∀ key ∈ [x, y, z], c.index 1 key = some i1)
    (h2 : ∀ key ∈ [x, y, z], c.index 2 key = some i2)
    (hi : [i0, i1, i2].Nodup) (hkeys : [0, x, y, z].Nodup)
    (hsize : ∀ key ∈ [x, y, z], (c.actualFlowSize key).isSome) :
    ∃ s, processAll c [x, y, z] (new none) = some s ∧ s.buckets i2 = ⟨y, 1⟩ := by
  simp only [List.mem_cons, List.not_mem_nil, or_false, forall_eq_or_imp, forall_eq]
    at h0 h1 h2 hsize
  simp only [List.nodup_cons, List.mem_cons, List.not_mem_nil, or_false, not_or] at hi hkeys
  obtain ⟨h0x, h0y, h0z⟩ := h0
  obtain ⟨h1x, h1y, -⟩ := h1
  obtain ⟨hsx, hsy, hsz⟩ := hsize
  obtain ⟨⟨h01, h02⟩, h12, -⟩ := hi
  obtain ⟨⟨hx, hy, hz⟩, ⟨hxy, -⟩, hyz, -⟩ := hkeys
  obtain ⟨s1, hs1, hb1⟩ := processData_first (s := new none) (Ne.symm hx) (by omega) h0x rfl
  obtain ⟨s2, hs2, hb2⟩ := processData_second (s := s1) (v := ⟨x, 1⟩) (Ne.symm hy) (by omega) h0y
    (by rw [hb1, Function.update_self]) (Ne.symm hx) hxy h1x (Ne.symm h01)
    (by rw [hb1, Function.update_of_ne (Ne.symm h01)]; rfl) hsy hsx
  obtain ⟨s3, hs3, hb3⟩ := processData_third (s := s2) (v := ⟨y, 1⟩) (w := ⟨x, 1⟩) (Ne.symm hz) hD
    h0z (by rw [hb2, Function.update_of_ne h01, Function.update_self]) (Ne.symm hy) hyz h1y
    (Ne.symm h01) (by rw [hb2, Function.update_self]) (Ne.symm hx) hxy le_rfl h2.2.1 (Ne.symm h02)
    (by rw [hb2, Function.update_of_ne (Ne.symm h12), hb1, Function.update_of_ne (Ne.symm h02),
      Function.update_of_ne (Ne.symm h02)]; rfl) hsz hsy
  refine ⟨s3, ?_, by rw [hb3, Function.update_self]⟩
  simp only [processAll, hs1, hs2, hs3, Option.bind_some]

/-- A flow of the third stage is then in a slot of the first one that is not its own. -/
theorem stacked_unsound {tableSize D : ℕ} (h : (rivalConfig tableSize D 1 3).Stacked) :
    ¬ ∃ s, processAll (rivalConfig tableSize D 1 3) (rivals 1 3) (new none) = some s ∧
      s.Sound (rivalConfig tableSize D 1 3) (rivals 1 3) := by
  rintro ⟨s, hs, hsound⟩
  obtain ⟨hi0, hi1, hi2⟩ := h.index_one
  have hcol (key : ℕ) (hkey : key ∈ rivals 1 3) : (rivalConfig tableSize D 1 3).Collides 1 key := by
    obtain ⟨hflow, hmod⟩ := isFlow_of_mem_rivals one_pos (by decide) hkey
    exact DLeftConfig.collides_of_mod_eq (by decide) hflow.2 hmod
  have hsize := h.le_stageSize
  have hfits : Fits (rivalConfig tableSize D 1 3) (rivals 1 3) := rivals_fit one_pos (by decide)
  obtain ⟨s', hs', hb⟩ := processAll_three (x := 1) (y := 9030) (z := 18059) h.stages.1
    (fun key hkey => (hcol key hkey 0).trans hi0) (fun key hkey => (hcol key hkey 1).trans hi1)
    (fun key hkey => (hcol key hkey 2).trans hi2) (by simp; omega) (by decide)
    (fun key hkey => (hfits.keys key hkey).2)
  obtain rfl := Option.some.inj (hs'.symm.trans hs)
  have hstage : (rivalConfig tableSize D 1 3).InStage 0 3216 := by
    rw [DLeftConfig.InStage, h.stageStart_zero]
    constructor
    · decide
    · omega
  have hslot := hsound.hashed (by have := h.stages; omega) hstage (by rw [hb]; decide)
  rw [hb, hcol 9030 (by decide), hi0] at hslot
  exact absurd hslot (by decide)

/-- Exactly the tables with a hash function for every stage and with offsets in the range of
an `int` account for every list of packets. -/
theorem rolling_accounted_iff {tableSize D : ℕ} (hD : 1 ≤ D) (hT : D ≤ tableSize)
    (hint : tableSize < 2 ^ 31) :
    (∀ flowSizes l m, Fits ⟨tableSize, D, flowSizes⟩ l →
      ∃ s, processAll ⟨tableSize, D, flowSizes⟩ l (new m) = some s ∧
        s.Sound ⟨tableSize, D, flowSizes⟩ l) ↔
      D ≤ hashA.length ∧ (D - 1) * tableSize < 2 ^ 31 := by
  constructor
  · intro hall
    have hrun {b n : ℕ} (hb : 0 < b) (hn : b + hashP * n ≤ 2 ^ 32) :
        ∃ s, processAll (rivalConfig tableSize D b n) (rivals b n) (new none) = some s ∧
          s.Sound (rivalConfig tableSize D b n) (rivals b n) :=
      hall _ _ none (rivals_fit hb hn)
    have hslot {b k : ℕ} (hb : 0 < b) (hn : b + hashP * (k + 1) ≤ 2 ^ 32) (hk : k < D) :
        (rivalConfig tableSize D b (k + 1)).index k b ≠ none := by
      intro hnone
      obtain ⟨s, hs, -⟩ := hrun hb hn
      cases (rivals_stuck hnone hk hb hn).symm.trans hs
    have hhash : D ≤ hashA.length := by
      by_contra hlt
      refine hslot (b := 1) (k := hashA.length) one_pos ?_ (not_le.mp hlt)
        (DLeftConfig.index_of_le le_rfl 1)
      rw [DLeftConfig.hashA_length]
      decide
    refine ⟨hhash, ?_⟩
    by_contra hover
    by_cases halias : 2 * tableSize < 2 ^ 32 ∧ 2 ^ 32 < 2 * tableSize + D
    · have hthree : 3 ≤ D := by
        by_contra hlt
        have : (D - 1) * tableSize ≤ 1 * tableSize := Nat.mul_le_mul_right _ (by omega)
        omega
      exact stacked_unsound ⟨⟨hthree, DLeftConfig.hashA_length ▸ hhash⟩, halias.1, halias.2⟩
        (hrun one_pos (by decide))
    · obtain ⟨k, hk, b, hb, hble, hnone⟩ := DLeftConfig.exists_index_none
        (c := ⟨tableSize, D, []⟩) hint hhash (not_lt.mp hover) halias
      have hk137 : k < 137 := hk.trans_le (DLeftConfig.hashA_length ▸ hhash)
      have hn : b + hashP * (k + 1) ≤ 2 * hashP + hashP * 137 :=
        Nat.add_le_add hble (Nat.mul_le_mul_left _ (by omega))
      exact hslot hb (hn.trans (by decide)) hk hnone
  · rintro ⟨hhash, hoff⟩ flowSizes l m hfits
    exact hfits.sound ⟨hhash, hoff⟩ hD hT m

theorem rolling_accounted_iff_lab : 1 ≤ 2 ∧ 2 < 2 ^ 31 ∧ Fits labConfig [1, 2, 2, 3] ∧
    ∃ s, processAll labConfig [1, 2, 2, 3] (new none) = some s ∧
      s.droppedPacketInfoCount = 1 ∧ s.Sound labConfig [1, 2, 2, 3] := by
  have hfits : Fits labConfig [1, 2, 2, 3] := ⟨by decide, by decide, by decide⟩
  have hsmall : 2 ≤ hashA.length ∧ (2 - 1) * 2 < 2 ^ 31 := by
    rw [DLeftConfig.hashA_length]
    decide
  obtain ⟨s, hs, hsound⟩ : ∃ s, processAll labConfig [1, 2, 2, 3] (new none) = some s ∧
      s.Sound labConfig [1, 2, 2, 3] :=
    (rolling_accounted_iff (by decide) (by decide) (by decide)).mpr hsmall _ _ none hfits
  refine ⟨by decide, by decide, hfits, s, hs, ?_, hsound⟩
  have : (processAll labConfig [1, 2, 2, 3] (new none)).map droppedPacketInfoCount = some 1 := by
    decide +kernel
  rw [hs] at this
  exact Option.some.inj this

/-- With 137 stages of 16 million slots together, 136 packets of rivals lead to a negative
offset and with it to an exception. -/
theorem rolling_accounted_overflow :
    Fits (rivalConfig 16000000 137 1 136) (rivals 1 136) ∧
      processAll (rivalConfig 16000000 137 1 136) (rivals 1 136) (new none) = none := by
  have hnone : (rivalConfig 16000000 137 1 136).index 135 1 = none := by decide +kernel
  exact ⟨rivals_fit one_pos (by decide), rivals_stuck hnone (by decide) one_pos (by decide)⟩

end DLeftHashTable

end P4Survey.HashPipe
