import P4Survey.Lib.FlowTable

/-! # The hash table of the HashPipe simulation

`DLeftHashTable.java` with the structure `RollingMinSingleLookup`: a packet enters
its flow in the first of `D` stages and carries the entry it finds there through
the others, where it is merged, stored or swapped against a smaller one. A
result `none` stands for an exception. The slots are computed in the integers of
Java. The counters are natural numbers: the packets come from a list, which has
fewer than `2 ^ 31` elements.
-/

namespace P4Survey.HashPipe
open Lib

abbrev FlowWithCount : Type := FlowCount ℕ

def hashA : List ℕ :=
  [10273, 8941, 11597, 9203, 12289, 11779, 421, 199, 79, 83, 89, 97, 101, 103, 107, 109, 113, 127,
    131, 137, 139, 149, 151, 157, 163, 167, 173, 179, 181, 191, 193, 197, 199, 211, 223, 227, 229,
    233, 239, 241, 251, 257, 263, 269, 271, 277, 281, 283, 293, 307, 311, 313, 317, 331, 337, 347,
    349, 353, 359, 367, 373, 379, 383, 389, 397, 401, 409, 419, 421, 431, 433, 439, 443, 449, 457,
    461, 463, 467, 479, 487, 491, 499, 503, 509, 521, 523, 541, 547, 557, 563, 569, 571, 577, 587,
    593, 599, 601, 1153, 1163, 1171, 1181, 1187, 1193, 1201, 1213, 1217, 1223, 1229, 1231, 1237,
    1249, 1259, 1277, 1279, 1283, 1289, 1291, 1297, 1301, 1303, 1307, 1319, 1321, 1327, 1361,
    1367, 1373, 1381, 1399, 1409, 1423, 1427, 1429, 1433, 1439, 1447, 1451]

def hashB : List ℕ :=
  [12037, 12289, 9677, 11447, 8837, 10847, 73, 3079, 613, 617, 619, 631, 641, 643, 647, 653, 659,
    661, 673, 677, 683, 691, 701, 709, 719, 727, 733, 739, 743, 751, 757, 761, 769, 773, 787, 797,
    809, 811, 821, 823, 827, 829, 839, 853, 857, 859, 863, 877, 881, 883, 887, 907, 911, 919, 929,
    937, 941, 947, 953, 967, 971, 977, 983, 991, 997, 1009, 1013, 1019, 1021, 1031, 1033, 1039,
    1049, 1051, 1061, 1063, 1069, 1087, 1091, 1093, 1097, 1103, 1109, 1117, 1123, 1129, 1151,
    1153, 1163, 1171, 1181, 1187, 1193, 1201, 1213, 1217, 1223, 1453, 1459, 1471, 1481, 1483,
    1487, 1489, 1493, 1499, 1511, 1523, 1531, 1543, 1549, 1553, 1559, 1567, 1571, 1579, 1583,
    1597, 1601, 1607, 1609, 1613, 1619, 1621, 1627, 1637, 1657, 3221, 3229, 3251, 3253, 3257,
    3259, 3271, 3299, 3301, 3307, 3313, 3319, 3323, 3329, 3331]

/-- The prime of the hash functions. -/
abbrev hashP : ℕ := 9029

/-- A natural number as a Java integer of `w` bits. -/
def java (w n : ℕ) : ℤ := (n : ℤ).bmod (2 ^ w)

theorem java_eq {w n : ℕ} (h : n * 2 < 2 ^ w) : java w n = n := by
  apply Int.bmod_eq_of_le_mul_two
  · omega
  · exact_mod_cast h

/-- What the constructor is given. `flowSizes` lists the entries of the map in the
order of its key set. -/
structure DLeftConfig where
  tableSize : ℕ
  D : ℕ
  flowSizes : List (ℕ × ℕ)

/-- The fields of the table that change, and the map of the caller, if it has one, with
the evictions of each rank. -/
structure DLeftHashTable where
  buckets : ℕ → FlowWithCount
  totalNumberOfPackets : ℕ
  droppedPacketInfoCount : ℕ
  problematicEvictions : ℕ
  totalEvictions : ℕ
  bloomfilter : List ℕ
  rankToFrequency : Option (ℕ → Option ℕ)

namespace DLeftConfig

variable (c : DLeftConfig)

def stageSize : ℕ := c.tableSize / c.D

/-- The first slot of a stage. The product is an `int`, and the division goes towards zero. -/
def stageStart (k : ℕ) : ℤ := (java 32 (k * c.tableSize)).tdiv c.D

/-- The position of a key in stage `k`. The sum that is hashed is a `long`. -/
def position (a b k key : ℕ) : ℤ :=
  ((java 64 (a * key + b)).tmod hashP).tmod c.stageSize + c.stageStart k

/-- The slot of a key in stage `k`: an exception without a hash function, for a division
by zero, and where the position is outside the table. -/
def index (k key : ℕ) : Option ℕ := do
  let a ← hashA[k]?
  let b ← hashB[k]?
  if c.stageSize = 0 then none
  else if 0 ≤ c.position a b k key ∧ c.position a b k key < c.tableSize then
    some (c.position a b k key).toNat
  else none

def actualFlowSize (key : ℕ) : Option ℕ := c.flowSizes.lookup key

/-- The flows by decreasing size, those of the same size in the order of the list. -/
def flowToRank (key : ℕ) : Option ℕ :=
  (((c.flowSizes.insertionSort fun x y => y.2 ≤ x.2).map Prod.fst).idxOf? key).map (· + 1)

end DLeftConfig

namespace DLeftHashTable

variable (c : DLeftConfig) (s : DLeftHashTable)

def put (i : ℕ) (e : FlowWithCount) : DLeftHashTable :=
  { s with buckets := Function.update s.buckets i e }

/-- One more eviction, and a problematic one if a larger flow had to leave. -/
def countEviction (victim key : ℕ) : Option DLeftHashTable := do
  let x ← c.actualFlowSize victim
  let y ← c.actualFlowSize key
  return { s with
    problematicEvictions := if y < x then s.problematicEvictions + 1 else s.problematicEvictions
    totalEvictions := s.totalEvictions + 1 }

/-- One more eviction of a flow of this rank, if the caller wants to know. -/
def countRank (victim : ℕ) : Option DLeftHashTable :=
  match s.rankToFrequency with
  | none => some s
  | some m => do
    let curRank ← c.flowToRank victim
    let frequency := (m curRank).getD 0 + 1
    return { s with rankToFrequency := some (Function.update m curRank (some frequency)) }

/-- The counts after round `k`; the rank counts in the last one only. -/
def countCarried (key k victim : ℕ) : Option DLeftHashTable := do
  let s ← s.countEviction c victim key
  if k + 1 = c.D then s.countRank c victim else some s

def remember (key : ℕ) : DLeftHashTable :=
  { s with bloomfilter := if key ∈ s.bloomfilter then s.bloomfilter else key :: s.bloomfilter }

/-- A slot with another flow: in the first stage the new flow always takes it, later on
a carried entry with the larger count does. -/
def contest (key k i : ℕ) (carried : FlowWithCount) : DLeftHashTable × FlowWithCount :=
  let b := s.buckets i
  if k = 0 then (s.put i ⟨key, 1⟩, b)
  else if b.count < carried.count then (s.put i carried, b)
  else (s, carried)

/-- Round `k` of the loop: the table, and the entry that is carried on unless the loop
ends here. -/
def stage (key k : ℕ) (carried : FlowWithCount) :
    Option (DLeftHashTable × Option FlowWithCount) := do
  let i ← c.index k carried.flowid
  let b := s.buckets i
  if b.flowid = 0 ∧ k = 0 then some (s.put i ⟨key, 1⟩, none)
  else if b.flowid = 0 then some (s.put i carried, none)
  else if b.flowid = carried.flowid then
    some (s.put i ⟨b.flowid, b.count + carried.count⟩, none)
  else if b.flowid = key ∧ k = 0 then some (s.put i ⟨b.flowid, b.count + 1⟩, none)
  else
    let r := s.contest key k i carried
    let s ← r.1.countCarried c key k r.2.flowid
    some (s.remember key, some r.2)

/-- The loop with `n` rounds to go, from round `k` on. -/
def roll (key : ℕ) : ℕ → ℕ → DLeftHashTable → FlowWithCount →
    Option (DLeftHashTable × Option FlowWithCount)
  | 0, _, s, carried => some (s, some carried)
  | n + 1, k, s, carried =>
    match s.stage c key k carried with
    | none => none
    | some (s, none) => some (s, none)
    | some (s, some carried) => roll key n (k + 1) s carried

/-- `processDataWithCountInTable` for `RollingMinSingleLookup`. -/
def processData (key : ℕ) : Option DLeftHashTable :=
  let s := { s with totalNumberOfPackets := s.totalNumberOfPackets + 1 }
  if key = 0 then some s
  else
    match roll c key c.D 0 s ⟨key, 1⟩ with
    | none => none
    | some (s, none) => some s
    | some (s, some carried) =>
      some { s with droppedPacketInfoCount := s.droppedPacketInfoCount + carried.count }

/-- A new table. -/
def new (rankToFrequency : Option (ℕ → Option ℕ)) : DLeftHashTable :=
  ⟨fun _ => ⟨0, 0⟩, 0, 0, 0, 0, [], rankToFrequency⟩

/-- The table after a list of packets. -/
def processAll : List ℕ → DLeftHashTable → Option DLeftHashTable
  | [], s => some s
  | key :: l, s => (s.processData c key).bind (processAll l)

end DLeftHashTable

/-- What a stage makes of the entry `b` it finds and of the carried one: the entry it
leaves, and the one carried on. -/
inductive Moves (b carried : FlowWithCount) : FlowWithCount → Option FlowWithCount → Prop
  | fill : b.flowid = 0 → Moves b carried carried none
  | merge : b.flowid = carried.flowid → Moves b carried ⟨carried.flowid, b.count + carried.count⟩ none
  | swap : b.flowid ≠ 0 → Moves b carried carried (some b)
  | pass : b.flowid ≠ 0 → Moves b carried b (some carried)

namespace Moves

variable {b carried e : FlowWithCount} {r : Option FlowWithCount}

/-- Nothing is lost or counted twice, whatever the weights of the flows. -/
theorem weigh (h : Moves b carried e r) (hb : b.flowid = 0 → b.count = 0) (w : ℕ → ℕ) :
    e.weigh w + (r.map (FlowCount.weigh w)).getD 0 = b.weigh w + carried.weigh w := by
  cases h with
  | fill h0 => simp [FlowCount.weigh, hb h0]
  | merge hk =>
    simp only [FlowCount.weigh, Option.map_none, Option.getD_none, hk]
    ring
  | swap => exact Nat.add_comm _ _
  | pass => rfl

theorem flowid_eq (h : Moves b carried e r) : e.flowid = b.flowid ∨ e.flowid = carried.flowid := by
  cases h with
  | fill => exact .inr rfl
  | merge => exact .inr rfl
  | swap => exact .inr rfl
  | pass => exact .inl rfl

theorem ne_zero (h : Moves b carried e r) (hc : carried.flowid ≠ 0) : e.flowid ≠ 0 := by
  cases h with
  | fill => exact hc
  | merge => exact hc
  | swap => exact hc
  | pass hb => exact hb

theorem carried_cases (h : Moves b carried e r) {x : FlowWithCount} (hx : r = some x) :
    x = carried ∨ (x = b ∧ b.flowid ≠ 0) := by
  cases h with
  | fill => cases hx
  | merge => cases hx
  | swap hb => exact .inr ⟨(Option.some.inj hx).symm, hb⟩
  | pass => exact .inl (Option.some.inj hx).symm

end Moves

namespace DLeftHashTable

variable {c : DLeftConfig} {s s' : DLeftHashTable}

/-- The two counters of packets. -/
def tally (s : DLeftHashTable) : ℕ × ℕ := (s.totalNumberOfPackets, s.droppedPacketInfoCount)

theorem countEviction_eq {victim key : ℕ} (h : s.countEviction c victim key = some s') :
    s'.buckets = s.buckets ∧ s'.tally = s.tally := by
  simp only [countEviction, Option.bind_eq_bind, Option.bind_eq_some_iff, Option.pure_def,
    Option.some.injEq] at h
  obtain ⟨x, -, y, -, rfl⟩ := h
  exact ⟨rfl, rfl⟩

theorem countRank_eq {victim : ℕ} (h : s.countRank c victim = some s') :
    s'.buckets = s.buckets ∧ s'.tally = s.tally := by
  unfold countRank at h
  cases hm : s.rankToFrequency with
  | none =>
    simp only [hm, Option.some.injEq] at h
    exact h ▸ ⟨rfl, rfl⟩
  | some m =>
    simp only [hm, Option.bind_eq_bind, Option.bind_eq_some_iff, Option.pure_def,
      Option.some.injEq] at h
    obtain ⟨r, -, rfl⟩ := h
    exact ⟨rfl, rfl⟩

theorem countCarried_eq {key k victim : ℕ} (h : s.countCarried c key k victim = some s') :
    s'.buckets = s.buckets ∧ s'.tally = s.tally := by
  obtain ⟨s1, h1, h⟩ := Option.bind_eq_some_iff.mp h
  obtain ⟨hb, ht⟩ := countEviction_eq h1
  split_ifs at h
  · obtain ⟨hb', ht'⟩ := countRank_eq h
    exact ⟨hb'.trans hb, ht'.trans ht⟩
  · exact Option.some.inj h ▸ ⟨hb, ht⟩

theorem contest_cases {key k i : ℕ} {carried : FlowWithCount} (hk : k = 0 → carried = ⟨key, 1⟩)
    (hi : (s.buckets i).flowid ≠ 0) : ∃ e,
      Moves (s.buckets i) carried e (some (s.contest key k i carried).2) ∧
      (s.contest key k i carried).1.buckets = Function.update s.buckets i e ∧
      (s.contest key k i carried).1.tally = s.tally := by
  unfold contest
  dsimp only
  split_ifs with h0 hlt
  · exact ⟨carried, .swap hi, by rw [hk h0]; rfl, rfl⟩
  · exact ⟨carried, .swap hi, rfl, rfl⟩
  · exact ⟨s.buckets i, .pass hi, (Function.update_eq_self i s.buckets).symm, rfl⟩

/-- A round changes the slot of the carried key and no counter of packets. -/
theorem stage_cases {key k : ℕ} {carried : FlowWithCount} {r : Option FlowWithCount}
    (hk : k = 0 → carried = ⟨key, 1⟩) (h : s.stage c key k carried = some (s', r)) :
    ∃ i e, c.index k carried.flowid = some i ∧ Moves (s.buckets i) carried e r ∧
      s'.buckets = Function.update s.buckets i e ∧ s'.tally = s.tally := by
  obtain ⟨i, hi, h⟩ := Option.bind_eq_some_iff.mp h
  refine ⟨i, ?_⟩
  dsimp only at h
  split_ifs at h with h0k h0 hc hkey
  · obtain ⟨rfl, rfl⟩ := Prod.mk.inj (Option.some.inj h)
    exact ⟨carried, hi, .fill h0k.1, by rw [hk h0k.2]; rfl, rfl⟩
  · obtain ⟨rfl, rfl⟩ := Prod.mk.inj (Option.some.inj h)
    exact ⟨carried, hi, .fill h0, rfl, rfl⟩
  · obtain ⟨rfl, rfl⟩ := Prod.mk.inj (Option.some.inj h)
    exact ⟨_, hi, .merge hc, by rw [hc]; rfl, rfl⟩
  · -- the incoming key in the first stage is the carried one
    rw [hk hkey.2] at hc
    exact absurd hkey.1 hc
  · obtain ⟨e, hm, hbuckets, htally⟩ := contest_cases hk h0
    obtain ⟨s1, h1, h⟩ := Option.bind_eq_some_iff.mp h
    obtain ⟨rfl, rfl⟩ := Prod.mk.inj (Option.some.inj h)
    obtain ⟨hb, ht⟩ := countCarried_eq h1
    exact ⟨e, hi, hm, hb.trans hbuckets, ht.trans htally⟩

end DLeftHashTable

namespace DLeftConfig

variable {c : DLeftConfig}

theorem hashA_length : hashA.length = 137 := by decide +kernel

theorem hashB_length : hashB.length = 142 := by decide +kernel

theorem hashA_le {k a : ℕ} (h : hashA[k]? = some a) : a ≤ 12289 := by
  have hall : ∀ a ∈ hashA, a ≤ 12289 := by decide +kernel
  exact hall a (List.mem_of_getElem? h)

theorem hashB_le {k b : ℕ} (h : hashB[k]? = some b) : b ≤ 12289 := by
  have hall : ∀ b ∈ hashB, b ≤ 12289 := by decide +kernel
  exact hall b (List.mem_of_getElem? h)

/-- There is a hash function for every stage, and no offset leaves the range of an `int`. -/
structure Small (c : DLeftConfig) : Prop where
  hashes : c.D ≤ hashA.length
  offsets : (c.D - 1) * c.tableSize < 2 ^ 31

/-- The slots of a stage. Between two stages some may be left over. -/
def InStage (c : DLeftConfig) (k i : ℕ) : Prop :=
  c.stageStart k ≤ i ∧ (i : ℤ) < c.stageStart k + c.stageSize

/-- The hash of a key of 32 bits does not overflow. -/
theorem position_eq {a b k k' key : ℕ} (ha : hashA[k]? = some a) (hb : hashB[k]? = some b)
    (hkey : key < 2 ^ 32) :
    c.position a b k' key = ((a * key + b) % hashP % c.stageSize : ℕ) + c.stageStart k' := by
  have hmul : a * key ≤ 12289 * 2 ^ 32 := Nat.mul_le_mul (hashA_le ha) hkey.le
  have hle := hashB_le hb
  rw [position, java_eq (by omega)]
  rfl

theorem index_cases {k key i : ℕ} (h : c.index k key = some i) :
    ∃ a b, hashA[k]? = some a ∧ hashB[k]? = some b ∧ c.stageSize ≠ 0 ∧
      c.position a b k key = i ∧ i < c.tableSize := by
  simp only [index, Option.bind_eq_bind, Option.bind_eq_some_iff] at h
  obtain ⟨a, ha, b, hb, h⟩ := h
  split_ifs at h with h0 hpos
  obtain rfl := Option.some.inj h
  exact ⟨a, b, ha, hb, h0, (Int.toNat_of_nonneg hpos.1).symm, by omega⟩

theorem index_eq {a b k key : ℕ} (ha : hashA[k]? = some a) (hb : hashB[k]? = some b)
    (hT : c.stageSize ≠ 0)
    (hin : 0 ≤ c.position a b k key ∧ c.position a b k key < c.tableSize) :
    c.index k key = some (c.position a b k key).toNat := by
  simp only [index, ha, hb, Option.bind_eq_bind, Option.bind_some]
  rw [if_neg hT]
  exact if_pos hin

theorem index_inStage {k key i : ℕ} (hkey : key < 2 ^ 32) (h : c.index k key = some i) :
    c.InStage k i := by
  obtain ⟨a, b, ha, hb, h0, hi, -⟩ := index_cases h
  rw [position_eq ha hb hkey] at hi
  have := Nat.mod_lt ((a * key + b) % hashP) (Nat.pos_of_ne_zero h0)
  constructor
  · omega
  · omega

/-- The last slot of a stage is still in the table. -/
theorem stageStart_add_le_tableSize {k : ℕ} (hk : k < c.D) :
    k * c.tableSize / c.D + c.stageSize ≤ c.tableSize :=
  calc k * c.tableSize / c.D + c.tableSize / c.D
      ≤ (k * c.tableSize + c.tableSize) / c.D := Nat.div_add_div_le_add_div
    _ ≤ c.D * c.tableSize / c.D := by
        apply Nat.div_le_div_right
        calc k * c.tableSize + c.tableSize = (k + 1) * c.tableSize := by ring
          _ ≤ c.D * c.tableSize := Nat.mul_le_mul_right _ hk
    _ = c.tableSize := Nat.mul_div_cancel_left _ (by omega)

namespace Small

variable (h : c.Small)
include h

theorem stageStart_eq {k : ℕ} (hk : k < c.D) : c.stageStart k = (k * c.tableSize / c.D : ℕ) := by
  have hle : k * c.tableSize ≤ (c.D - 1) * c.tableSize := Nat.mul_le_mul_right _ (by omega)
  have := h.offsets
  rw [stageStart, java_eq (by omega)]
  rfl

/-- The stages follow each other. -/
theorem stageStart_add_le {k k' : ℕ} (hlt : k < k') (hk' : k' < c.D) :
    c.stageStart k + c.stageSize ≤ c.stageStart k' := by
  rw [h.stageStart_eq (hlt.trans hk'), h.stageStart_eq hk', stageSize]
  have hstep : k * c.tableSize / c.D + c.tableSize / c.D ≤ (k * c.tableSize + c.tableSize) / c.D :=
    Nat.div_add_div_le_add_div
  have hle : (k * c.tableSize + c.tableSize) / c.D ≤ k' * c.tableSize / c.D := by
    apply Nat.div_le_div_right
    calc k * c.tableSize + c.tableSize = (k + 1) * c.tableSize := by ring
      _ ≤ k' * c.tableSize := Nat.mul_le_mul_right _ hlt
  exact_mod_cast hstep.trans hle

theorem inStage_eq {k k' i : ℕ} (hk : k < c.D) (hk' : k' < c.D) (hi : c.InStage k i)
    (hi' : c.InStage k' i) : k = k' := by
  rcases Nat.lt_trichotomy k k' with hlt | heq | hlt
  · have := h.stageStart_add_le hlt hk'
    have := hi.2
    have := hi'.1
    omega
  · exact heq
  · have := h.stageStart_add_le hlt hk
    have := hi'.2
    have := hi.1
    omega

theorem index_isSome {k key : ℕ} (hk : k < c.D) (hT : c.stageSize ≠ 0) (hkey : key < 2 ^ 32) :
    (c.index k key).isSome := by
  have hA : k < hashA.length := hk.trans_le h.hashes
  have hB : k < hashB.length := by
    rw [hashA_length] at hA
    rw [hashB_length]
    omega
  obtain ⟨a, ha⟩ : ∃ a, hashA[k]? = some a := ⟨_, List.getElem?_eq_getElem hA⟩
  obtain ⟨b, hb⟩ : ∃ b, hashB[k]? = some b := ⟨_, List.getElem?_eq_getElem hB⟩
  have hpos : c.position a b k key = _ := position_eq ha hb hkey
  have hmod := Nat.mod_lt ((a * key + b) % hashP) (Nat.pos_of_ne_zero hT)
  have hend := stageStart_add_le_tableSize hk
  have hin : 0 ≤ c.position a b k key ∧ c.position a b k key < c.tableSize := by
    rw [hpos, h.stageStart_eq hk, ← Nat.cast_add]
    exact ⟨Int.natCast_nonneg _, Int.ofNat_lt.mpr (by omega)⟩
  rw [index_eq ha hb hT hin]
  rfl

end Small

end DLeftConfig

namespace DLeftHashTable

variable {c : DLeftConfig} {s s' : DLeftHashTable}

/-- A key of 32 bits. The key zero stands for an empty slot. -/
def IsFlow (key : ℕ) : Prop := 0 < key ∧ key < 2 ^ 32

instance : DecidablePred IsFlow := fun key => inferInstanceAs (Decidable (0 < key ∧ key < 2 ^ 32))

/-- Every flow of the table is in its slot of some stage, and empty slots count nothing. -/
structure Placed (c : DLeftConfig) (s : DLeftHashTable) : Prop where
  clean : ∀ i, (s.buckets i).flowid = 0 → (s.buckets i).count = 0
  flows : ∀ i, (s.buckets i).flowid ≠ 0 → IsFlow (s.buckets i).flowid
  hashed : ∀ i, (s.buckets i).flowid ≠ 0 → ∃ k < c.D, c.index k (s.buckets i).flowid = some i

/-- The counts of the table added up, weighted by their flows. -/
def weight (c : DLeftConfig) (w : ℕ → ℕ) (s : DLeftHashTable) : ℕ :=
  mass (Finset.range c.tableSize) w s.buckets

theorem Placed.stage {key k : ℕ} {carried : FlowWithCount} {r : Option FlowWithCount}
    (hp : s.Placed c) (hD : k < c.D) (hc : IsFlow carried.flowid) (hk : k = 0 → carried = ⟨key, 1⟩)
    (h : s.stage c key k carried = some (s', r)) :
    s'.Placed c ∧ s'.tally = s.tally ∧ (∀ x, r = some x → IsFlow x.flowid) ∧
      ∀ w, s'.weight c w + (r.map (FlowCount.weigh w)).getD 0 = s.weight c w + carried.weigh w := by
  obtain ⟨i, e, hi, hm, hb, ht⟩ := stage_cases hk h
  have hbi (j : ℕ) (hj : j ≠ i) : s'.buckets j = s.buckets j := by
    rw [hb, Function.update_of_ne hj]
  have hbe : s'.buckets i = e := by rw [hb, Function.update_self]
  refine ⟨⟨?_, ?_, ?_⟩, ht, ?_, ?_⟩
  · intro j hj
    by_cases hji : j = i
    · subst hji
      rw [hbe] at hj
      exact absurd hj (hm.ne_zero hc.1.ne')
    · rw [hbi j hji] at hj ⊢
      exact hp.clean j hj
  · intro j hj
    by_cases hji : j = i
    · subst hji
      rw [hbe] at hj ⊢
      rcases hm.flowid_eq with he | he
      · rw [he] at hj ⊢
        exact hp.flows j hj
      · rw [he]
        exact hc
    · rw [hbi j hji] at hj ⊢
      exact hp.flows j hj
  · intro j hj
    by_cases hji : j = i
    · subst hji
      rw [hbe]
      rcases hm.flowid_eq with he | he
      · rw [he]
        exact hp.hashed j (he ▸ hbe ▸ hj)
      · rw [he]
        exact ⟨k, hD, hi⟩
    · rw [hbi j hji] at hj ⊢
      exact hp.hashed j hj
  · intro x hx
    rcases hm.carried_cases hx with rfl | ⟨rfl, hne⟩
    · exact hc
    · exact hp.flows i hne
  · intro w
    obtain ⟨_, _, -, -, -, -, hlt⟩ := DLeftConfig.index_cases hi
    have hmem : i ∈ Finset.range c.tableSize := Finset.mem_range.mpr hlt
    have hw := hm.weigh (hp.clean i) w
    have hu := mass_update hmem w s.buckets e
    rw [weight, weight, hb]
    omega

/-- The whole loop. -/
theorem Placed.roll {key n k : ℕ} {carried : FlowWithCount} {r : Option FlowWithCount}
    (hp : s.Placed c) (hD : k + n = c.D) (hc : IsFlow carried.flowid)
    (hk : k = 0 → carried = ⟨key, 1⟩) (h : roll c key n k s carried = some (s', r)) :
    s'.Placed c ∧ s'.tally = s.tally ∧
      ∀ w, s'.weight c w + (r.map (FlowCount.weigh w)).getD 0 = s.weight c w + carried.weigh w := by
  induction n generalizing k s carried with
  | zero =>
    obtain ⟨rfl, rfl⟩ := Prod.mk.inj (Option.some.inj h)
    exact ⟨hp, rfl, fun _ => rfl⟩
  | succ n ih =>
    rw [DLeftHashTable.roll] at h
    cases hs : s.stage c key k carried with
    | none => simp [hs] at h
    | some p =>
      obtain ⟨s1, r1⟩ := p
      obtain ⟨hp1, ht1, hne, hw1⟩ := hp.stage (by omega) hc hk hs
      cases r1 with
      | none =>
        simp only [hs] at h
        obtain ⟨rfl, rfl⟩ := Prod.mk.inj (Option.some.inj h)
        exact ⟨hp1, ht1, hw1⟩
      | some x =>
        simp only [hs] at h
        obtain ⟨hp2, ht2, hw2⟩ := ih hp1 (by omega) (hne x rfl) (by omega) h
        exact ⟨hp2, ht2.trans ht1, fun w => (hw2 w).trans (hw1 w)⟩

/-- The table after a list of packets. -/
structure Accounted (c : DLeftConfig) (s : DLeftHashTable) (l : List ℕ) : Prop where
  placed : s.Placed c
  total : s.totalNumberOfPackets = l.length
  conserved : s.weight c (fun _ => 1) + s.droppedPacketInfoCount = l.length
  credited : ∀ a, s.weight c (only a) ≤ l.count a

theorem Accounted.start (m : Option (ℕ → Option ℕ)) : (new m).Accounted c [] where
  placed := ⟨fun _ _ => rfl, fun _ h => absurd rfl h, fun _ h => absurd rfl h⟩
  total := rfl
  conserved := by simp [weight, new, mass, FlowCount.weigh]
  credited a := by simp [weight, new, mass, FlowCount.weigh]

/-- The carried entry that leaves the last stage is what a packet costs. -/
theorem processData_cases {key : ℕ} (hkey : key ≠ 0) (h : s.processData c key = some s') :
    ∃ s1 r, roll c key c.D 0 { s with totalNumberOfPackets := s.totalNumberOfPackets + 1 }
        ⟨key, 1⟩ = some (s1, r) ∧ s'.buckets = s1.buckets ∧
      s'.totalNumberOfPackets = s1.totalNumberOfPackets ∧
      s'.droppedPacketInfoCount = s1.droppedPacketInfoCount + (r.map FlowCount.count).getD 0 := by
  rw [processData] at h
  simp only [if_neg hkey] at h
  cases hr : roll c key c.D 0 { s with totalNumberOfPackets := s.totalNumberOfPackets + 1 }
      ⟨key, 1⟩ with
  | none => simp [hr] at h
  | some p =>
    obtain ⟨s1, r⟩ := p
    simp only [hr] at h
    cases r with
    | none =>
      obtain rfl := Option.some.inj h
      exact ⟨s1, none, rfl, rfl, rfl, rfl⟩
    | some x =>
      obtain rfl := Option.some.inj h
      exact ⟨s1, some x, rfl, rfl, rfl, rfl⟩

theorem Accounted.processData {l : List ℕ} {key : ℕ} (ha : s.Accounted c l) (hkey : IsFlow key)
    (h : s.processData c key = some s') : s'.Accounted c (l ++ [key]) := by
  obtain ⟨s1, r, hr, hb, ht, hd⟩ := processData_cases hkey.1.ne' h
  have hp : { s with totalNumberOfPackets := s.totalNumberOfPackets + 1 }.Placed c :=
    ⟨ha.placed.clean, ha.placed.flows, ha.placed.hashed⟩
  obtain ⟨hp1, ht1, hw⟩ := hp.roll (by omega) hkey (fun _ => rfl) hr
  have htotal : s1.totalNumberOfPackets = s.totalNumberOfPackets + 1 := congrArg Prod.fst ht1
  have hdrop : s1.droppedPacketInfoCount = s.droppedPacketInfoCount := congrArg Prod.snd ht1
  have hweight (w : ℕ → ℕ) : s'.weight c w + (r.map (FlowCount.weigh w)).getD 0 =
      s.weight c w + FlowCount.weigh w (⟨key, 1⟩ : FlowWithCount) := by
    rw [weight, hb]
    exact hw w
  have hlen : (l ++ [key]).length = l.length + 1 := by simp
  constructor
  · exact ⟨hb ▸ hp1.clean, hb ▸ hp1.flows, hb ▸ hp1.hashed⟩
  · rw [ht, htotal, ha.total, hlen]
  · have hone : FlowCount.weigh (fun _ => 1) = (FlowCount.count : FlowWithCount → ℕ) := by
      funext e
      exact Nat.one_mul _
    have hall := hweight fun _ => 1
    have hcons := ha.conserved
    simp only [hone] at hall
    rw [hd, hdrop, hlen]
    omega
  · intro a
    have hkeyw : FlowCount.weigh (only a) (⟨key, 1⟩ : FlowWithCount) = [key].count a := by
      by_cases hka : key = a
      · simp [FlowCount.weigh, only, hka]
      · simp [FlowCount.weigh, only, hka]
    have hall := hweight (only a)
    have hcred := ha.credited a
    rw [hkeyw] at hall
    rw [List.count_append]
    omega

theorem Accounted.processAll {l m : List ℕ} (ha : s.Accounted c m) (hl : ∀ key ∈ l, IsFlow key)
    (h : processAll c l s = some s') : s'.Accounted c (m ++ l) := by
  induction l generalizing s m with
  | nil =>
    obtain rfl := Option.some.inj h
    rwa [List.append_nil]
  | cons key l ih =>
    obtain ⟨s1, h1, h2⟩ := Option.bind_eq_some_iff.mp h
    obtain ⟨hkey, hl⟩ := List.forall_mem_cons.mp hl
    rw [List.append_cons]
    exact ih (ha.processData hkey h1) hl h2

/-- Every flow of the table has a size in the map. -/
def Known (c : DLeftConfig) (s : DLeftHashTable) : Prop :=
  ∀ i, (s.buckets i).flowid ≠ 0 → (c.actualFlowSize (s.buckets i).flowid).isSome

theorem flowToRank_isSome {key : ℕ} (h : (c.actualFlowSize key).isSome) :
    (c.flowToRank key).isSome := by
  obtain ⟨p, hp, hkey⟩ := List.lookup_isSome_iff.mp h
  have hsort : key ∈ (c.flowSizes.insertionSort fun x y => y.2 ≤ x.2).map Prod.fst := by
    rw [beq_iff_eq.mp hkey]
    exact List.mem_map_of_mem ((List.mem_insertionSort _).mpr hp)
  simpa [DLeftConfig.flowToRank] using hsort

theorem countRank_isSome {victim : ℕ} (hv : (c.actualFlowSize victim).isSome)
    (s : DLeftHashTable) : (s.countRank c victim).isSome := by
  obtain ⟨r, hr⟩ := Option.isSome_iff_exists.mp (flowToRank_isSome hv)
  unfold countRank
  cases s.rankToFrequency with
  | none => rfl
  | some m => simp [hr]

theorem countCarried_isSome {key k victim : ℕ} (hkey : (c.actualFlowSize key).isSome)
    (hv : (c.actualFlowSize victim).isSome) : (s.countCarried c key k victim).isSome := by
  obtain ⟨x, hx⟩ := Option.isSome_iff_exists.mp hv
  obtain ⟨y, hy⟩ := Option.isSome_iff_exists.mp hkey
  simp only [countCarried, countEviction, hx, hy, Option.bind_eq_bind, Option.bind_some,
    Option.pure_def]
  by_cases hk : k + 1 = c.D
  · rw [if_pos hk]
    exact countRank_isSome hv _
  · rw [if_neg hk]
    rfl

theorem stage_isSome {key k : ℕ} {carried : FlowWithCount} (hs : s.Known c) (hc : c.Small)
    (hD : k < c.D) (hT : c.stageSize ≠ 0) (hkey : (c.actualFlowSize key).isSome)
    (hcarried : (c.actualFlowSize carried.flowid).isSome) (hflow : IsFlow carried.flowid) :
    (s.stage c key k carried).isSome := by
  obtain ⟨i, hi⟩ := Option.isSome_iff_exists.mp (hc.index_isSome hD hT hflow.2)
  simp only [stage, hi, Option.bind_eq_bind, Option.bind_some]
  split_ifs with h0k h0 hk hkey'
  · rfl
  · rfl
  · rfl
  · rfl
  · have hv : (c.actualFlowSize (s.contest key k i carried).2.flowid).isSome := by
      unfold contest
      dsimp only
      split_ifs
      · exact hs i h0
      · exact hs i h0
      · exact hcarried
    obtain ⟨s', h'⟩ := Option.isSome_iff_exists.mp
      (countCarried_isSome (s := (s.contest key k i carried).1) (k := k) hkey hv)
    rw [h']
    rfl

theorem Known.stage {key k : ℕ} {carried : FlowWithCount} {r : Option FlowWithCount}
    (hs : s.Known c) (hk : k = 0 → carried = ⟨key, 1⟩)
    (hc : (c.actualFlowSize carried.flowid).isSome)
    (h : s.stage c key k carried = some (s', r)) :
    s'.Known c ∧ ∀ x, r = some x → (c.actualFlowSize x.flowid).isSome := by
  obtain ⟨i, e, -, hm, hb, -⟩ := stage_cases hk h
  constructor
  · intro j hj
    by_cases hji : j = i
    · subst hji
      rw [hb, Function.update_self] at hj ⊢
      rcases hm.flowid_eq with he | he
      · rw [he] at hj ⊢
        exact hs j hj
      · rw [he]
        exact hc
    · rw [hb, Function.update_of_ne hji] at hj ⊢
      exact hs j hj
  · intro x hx
    rcases hm.carried_cases hx with rfl | ⟨rfl, hne⟩
    · exact hc
    · exact hs i hne

/-- In a small table, with a size for each flow, the loop ends without an exception. -/
theorem Known.roll {key n k : ℕ} {carried : FlowWithCount} (hs : s.Known c) (hp : s.Placed c)
    (hc : c.Small) (hD : k + n = c.D) (hT : c.stageSize ≠ 0)
    (hkey : (c.actualFlowSize key).isSome) (hk : k = 0 → carried = ⟨key, 1⟩)
    (hcarried : (c.actualFlowSize carried.flowid).isSome) (hflow : IsFlow carried.flowid) :
    ∃ s' r, roll c key n k s carried = some (s', r) ∧ s'.Known c := by
  induction n generalizing k s carried with
  | zero => exact ⟨s, some carried, rfl, hs⟩
  | succ n ih =>
    have hlt : k < c.D := by omega
    obtain ⟨p, h⟩ := Option.isSome_iff_exists.mp (stage_isSome hs hc hlt hT hkey hcarried hflow)
    obtain ⟨s1, r1⟩ := p
    obtain ⟨hs1, hr1⟩ := hs.stage hk hcarried h
    obtain ⟨hp1, -, hflow1, -⟩ := hp.stage hlt hflow hk h
    rw [DLeftHashTable.roll, h]
    cases r1 with
    | none => exact ⟨s1, none, rfl, hs1⟩
    | some x =>
      exact ih hs1 hp1 (by omega) (fun h0 => absurd h0 (Nat.succ_ne_zero k)) (hr1 x rfl)
        (hflow1 x rfl)

theorem Known.processData {l : List ℕ} {key : ℕ} (hs : s.Known c) (ha : s.Accounted c l)
    (hc : c.Small) (hT : c.stageSize ≠ 0) (hkey : IsFlow key)
    (hsize : (c.actualFlowSize key).isSome) :
    ∃ s', s.processData c key = some s' ∧ s'.Known c := by
  have hs0 : { s with totalNumberOfPackets := s.totalNumberOfPackets + 1 }.Known c := hs
  have hp0 : { s with totalNumberOfPackets := s.totalNumberOfPackets + 1 }.Placed c :=
    ⟨ha.placed.clean, ha.placed.flows, ha.placed.hashed⟩
  obtain ⟨s1, r, hr, hs1⟩ := hs0.roll hp0 hc (Nat.zero_add _) hT hsize (fun _ => rfl) hsize hkey
  rw [DLeftHashTable.processData, if_neg hkey.1.ne', hr]
  cases r with
  | none => exact ⟨s1, rfl, hs1⟩
  | some x => exact ⟨_, rfl, hs1⟩

theorem Known.processAll {l m : List ℕ} (hs : s.Known c) (ha : s.Accounted c m) (hc : c.Small)
    (hT : c.stageSize ≠ 0) (hl : ∀ key ∈ l, IsFlow key ∧ (c.actualFlowSize key).isSome) :
    ∃ s', processAll c l s = some s' := by
  induction l generalizing s m with
  | nil => exact ⟨s, rfl⟩
  | cons key l ih =>
    obtain ⟨⟨hkey, hsize⟩, hl⟩ := List.forall_mem_cons.mp hl
    obtain ⟨s1, h1, hs1⟩ := hs.processData ha hc hT hkey hsize
    rw [DLeftHashTable.processAll, h1]
    exact ih hs1 (ha.processData hkey h1) hl

/-- Packets with flows other than zero, each of which has its size in the map, and fewer of
them than an `int` counts. -/
structure Fits (c : DLeftConfig) (l : List ℕ) : Prop where
  entries : (c.flowSizes.map Prod.fst).Nodup
  keys : ∀ key ∈ l, IsFlow key ∧ (c.actualFlowSize key).isSome
  packets : l.length < 2 ^ 31

/-- What the table accounts for after the packets `l`. -/
structure Sound (c : DLeftConfig) (s : DLeftHashTable) (l : List ℕ) : Prop where
  conserved : ∑ i ∈ Finset.range c.tableSize, (s.buckets i).count + s.droppedPacketInfoCount =
    s.totalNumberOfPackets
  credited : ∀ key, ∑ i ∈ Finset.range c.tableSize with (s.buckets i).flowid = key,
    (s.buckets i).count ≤ l.count key
  staged : ∀ i < c.tableSize, (s.buckets i).flowid ≠ 0 → ∃ k < c.D, c.InStage k i
  hashed : ∀ {k i}, k < c.D → c.InStage k i → (s.buckets i).flowid ≠ 0 →
    c.index k (s.buckets i).flowid = some i
  once : ∀ {k i j}, k < c.D → c.InStage k i → c.InStage k j → (s.buckets i).flowid ≠ 0 →
    (s.buckets i).flowid = (s.buckets j).flowid → i = j
  clean : ∀ i < c.tableSize, (s.buckets i).flowid = 0 → (s.buckets i).count = 0

/-- In a small table a flow is in no other slot of a stage than its own. -/
theorem Placed.index_eq {k i : ℕ} (hp : s.Placed c) (hc : c.Small) (hk : k < c.D)
    (hi : c.InStage k i) (hne : (s.buckets i).flowid ≠ 0) :
    c.index k (s.buckets i).flowid = some i := by
  obtain ⟨k', hk', hx⟩ := hp.hashed i hne
  obtain rfl := hc.inStage_eq hk' hk (DLeftConfig.index_inStage (hp.flows i hne).2 hx) hi
  exact hx

theorem Accounted.sound {l : List ℕ} (ha : s.Accounted c l) (hc : c.Small) : s.Sound c l where
  conserved := by
    have h := ha.conserved
    rw [ha.total, ← h]
    simp [weight, mass, FlowCount.weigh]
  credited key := by
    have h := ha.credited key
    rw [Finset.sum_filter]
    refine le_trans (le_of_eq ?_) h
    apply Finset.sum_congr rfl
    intro i _
    by_cases hi : (s.buckets i).flowid = key
    · simp [FlowCount.weigh, only, hi]
    · simp [FlowCount.weigh, only, hi]
  staged i _ hi := by
    obtain ⟨k, hk, hx⟩ := ha.placed.hashed i hi
    exact ⟨k, hk, DLeftConfig.index_inStage (ha.placed.flows i hi).2 hx⟩
  hashed {k i} hk hi hne := ha.placed.index_eq hc hk hi hne
  once {k i j} hk hi hj hne he := by
    have hxi := ha.placed.index_eq hc hk hi hne
    have hxj := ha.placed.index_eq hc hk hj (he ▸ hne)
    rw [he, hxj] at hxi
    exact (Option.some.inj hxi).symm
  clean i _ := ha.placed.clean i

/-- A small table with room for every stage is sound after any packets. -/
theorem Fits.sound {l : List ℕ} (h : Fits c l) (hc : c.Small) (hD : 1 ≤ c.D)
    (hT : c.D ≤ c.tableSize) (m : Option (ℕ → Option ℕ)) :
    ∃ s, processAll c l (new m) = some s ∧ s.Sound c l := by
  have hstage : c.stageSize ≠ 0 := (Nat.div_pos hT hD).ne'
  obtain ⟨s, hs⟩ := Known.processAll (fun i hi => absurd rfl hi) (Accounted.start m) hc hstage h.keys
  exact ⟨s, hs, ((Accounted.start m).processAll (fun key hk => (h.keys key hk).1) hs).sound hc⟩

/-- Two stages of one slot each, and three flows that all come to them. -/
def labConfig : DLeftConfig := ⟨2, 2, [(1, 5), (2, 3), (3, 2)]⟩

end DLeftHashTable

end P4Survey.HashPipe
