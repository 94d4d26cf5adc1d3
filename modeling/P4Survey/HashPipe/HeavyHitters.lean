import Mathlib.Data.List.AList
import P4Survey.Lib.System

/-! # Count-Min with a list of heavy hitters

`CountMinWithCache.java` with the structure `CountMinWithHeap`, and its copy in
`UnivMon.java`. Every packet is counted in a sketch, and a packet that passes the
threshold updates a list of at most `k` keys: a full list takes the key in and gives
up the key that was the smallest before. Where the key is in the list already, the
list gets smaller. A packet that does not pass the threshold leaves the list as it
is, also if its key has more than the smallest key there.
-/

namespace P4Survey.HashPipe
open Lib

section Sketch

abbrev primeNumber : ℕ := 39916801

/-- The two seeds of a hash function and the counters of its row. -/
structure Row where
  hashSeedA : ℕ
  hashSeedB : ℕ
  cells : ℕ → ℕ

/-- The matrix of `Sketch.java`, with a first row and the other ones. -/
structure Sketch where
  size : ℕ
  row : Row
  rows : List Row

namespace Row

variable (r : Row) (size flowid : ℕ)

def hash : ℕ := (r.hashSeedA * flowid + r.hashSeedB) % primeNumber % size

def count : ℕ := r.cells (r.hash size flowid)

def increment : Row :=
  { r with cells := Function.update r.cells (r.hash size flowid) (r.count size flowid + 1) }

end Row

namespace Sketch

variable (s : Sketch) (flowid : ℕ)

/-- Both `updateCount` and `updateCountInSketch`. -/
def updateCount : Sketch :=
  { s with
    row := s.row.increment s.size flowid
    rows := s.rows.map fun r => r.increment s.size flowid }

def estimateCount : ℕ :=
  s.rows.foldl (fun min r => if r.count s.size flowid < min then r.count s.size flowid else min)
    (s.row.count s.size flowid)

/-- A sketch that has counted nothing yet. -/
def Blank : Prop := ∀ r ∈ s.row :: s.rows, ∀ j, r.cells j = 0

end Sketch

end Sketch

section List

abbrev HashMap : Type := AList fun _ : ℕ => ℕ

/-- The loop over the key set, in the order in which the map hands the keys out. -/
def findMin (list : HashMap) : List ℕ → Option (ℕ × ℕ) → Option (ℕ × ℕ)
  | [], found => found
  | k :: order, found =>
    let count := (list.lookup k).getD 0
    match found with
    | none => findMin list order (some (k, count))
    | some (minKey, minCount) =>
      findMin list order (if count < minCount then some (k, count) else some (minKey, minCount))

/-- The estimate is larger than `minCount`, which is `-1` for an empty list. -/
def Beats (estimate : ℕ) (found : Option (ℕ × ℕ)) : Prop := ∀ x ∈ found, x.2 < estimate

instance (estimate : ℕ) (found : Option (ℕ × ℕ)) : Decidable (Beats estimate found) :=
  inferInstanceAs (Decidable (∀ x ∈ found, _))

/-- `remove(minKey)`; the key `-1` of an empty list is not in it. -/
def removeMin (list : HashMap) (found : Option (ℕ × ℕ)) : HashMap :=
  match found with
  | none => list
  | some (minKey, _) => list.erase minKey

/-- The update of the list after the estimate of a packet's key. -/
def updateList (k key estimate : ℕ) (order : List ℕ) (list : HashMap) : HashMap :=
  let found := findMin list order none
  if list.keys.length = k ∧ Beats estimate found then removeMin (list.insert key estimate) found
  else if list.keys.length < k then list.insert key estimate
  else list

end List

/-- The size of the list, and whether a packet gets to its update, given the number of
packets and the estimate. -/
structure Monitor where
  k : ℕ
  passes : ℕ → ℕ → Bool

/-- `CountMinWithCache` with `CountMinWithHeap`. `exceeds` compares an estimate with the
threshold times the number of packets. -/
def countMinWithHeap (k thrTotalPackets : ℕ) (exceeds : ℕ → ℕ → Bool) : Monitor where
  k := k
  passes total estimate := thrTotalPackets < total && exceeds estimate total

/-- The one level that `UnivMon` has. -/
def univMon (k : ℕ) : Monitor := ⟨k, fun _ _ => true⟩

/-- The monitor between two packets, with the list before the last packet and the key of
that packet. -/
structure MonitorState where
  sketch : Sketch
  totalNumberOfPackets : ℕ
  heavyhitterList : HashMap
  before : HashMap
  processed : Option ℕ

namespace Monitor

variable (M : Monitor) (s : MonitorState)

def processData (key : ℕ) (order : List ℕ) : MonitorState :=
  let sketch := s.sketch.updateCount key
  let total := s.totalNumberOfPackets + 1
  let estimate := sketch.estimateCount key
  let passes := M.passes total estimate
  { sketch := sketch
    totalNumberOfPackets := total
    heavyhitterList :=
      if passes then updateList M.k key estimate order s.heavyhitterList else s.heavyhitterList
    before := s.heavyhitterList
    processed := some key }

/-- Packets with any keys. The map may hand out its keys in any order. -/
def system : System MonitorState (ℕ × List ℕ) where
  init s := s.sketch.Blank ∧ s.heavyhitterList = ∅ ∧ s.before = ∅ ∧ s.processed = none
  enabled s a := a.2.Perm s.heavyhitterList.keys
  next s a := M.processData s a.1 a.2

/-- The estimate of a packet's key once the packet is counted. -/
def estimate (key : ℕ) : ℕ := (s.sketch.updateCount key).estimateCount key

/-- A packet that passes the threshold finds room in the list, or a full list without
its key. One that does not pass has no more than any key of the list. -/
def RoomFor (a : ℕ × List ℕ) : Prop :=
  if M.passes (s.totalNumberOfPackets + 1) (estimate s a.1) then
    s.heavyhitterList.keys.length < M.k ∨
      (s.heavyhitterList.keys.length = M.k ∧ a.1 ∉ s.heavyhitterList)
  else ∀ j ∈ s.heavyhitterList.keys, estimate s a.1 ≤ (s.heavyhitterList.lookup j).getD 0

instance (a : ℕ × List ℕ) : Decidable (M.system.enabled s a) :=
  inferInstanceAs (Decidable (List.Perm _ _))

instance (a : ℕ × List ℕ) : Decidable (M.RoomFor s a) :=
  inferInstanceAs (Decidable (ite _ _ _))

end Monitor

/-- The smallest estimate in a list. -/
def IsSmallest (list : HashMap) (c : ℕ) : Prop :=
  (∃ k, list.lookup k = some c) ∧ ∀ k c', list.lookup k = some c' → c ≤ c'

/-- What the last packet did to the list: it did not shrink it, and its key, if it has more
than the smallest estimate, before or after the packet, is in it with its estimate. -/
structure MonitorState.Kept (s : MonitorState) : Prop where
  size : s.before.keys.length ≤ s.heavyhitterList.keys.length
  candidate : ∀ key ∈ s.processed, ∀ c, IsSmallest s.before c ∨ IsSmallest s.heavyhitterList c →
    c < s.sketch.estimateCount key →
      s.heavyhitterList.lookup key = some (s.sketch.estimateCount key)

section Update

variable {k key estimate : ℕ} {order : List ℕ} {list : HashMap}

/-- An entry of the list, as the loop reads it. -/
def entry (list : HashMap) (j : ℕ) : ℕ × ℕ := (j, (list.lookup j).getD 0)

variable (list) in
/-- From a key on, the loop finds a smallest entry of those it has seen. -/
theorem findMin_some (order : List ℕ) (x : ℕ × ℕ) :
    ∃ y, findMin list order (some x) = some y ∧ (y = x ∨ ∃ j ∈ order, y = entry list j) ∧
      y.2 ≤ x.2 ∧ ∀ j ∈ order, y.2 ≤ (entry list j).2 := by
  induction order generalizing x with
  | nil => exact ⟨x, rfl, .inl rfl, le_rfl, by simp⟩
  | cons j order ih =>
    rw [findMin]
    by_cases hlt : (entry list j).2 < x.2
    · obtain ⟨y, hy, hcase, hle, hall⟩ := ih (entry list j)
      refine ⟨y, ?_, ?_, hle.trans hlt.le, List.forall_mem_cons.mpr ⟨hle, hall⟩⟩
      · change findMin list order (if (entry list j).2 < x.2 then some (entry list j) else some x) = _
        rw [if_pos hlt]
        exact hy
      · rcases hcase with rfl | ⟨i, hi, rfl⟩
        · exact .inr ⟨j, List.mem_cons_self, rfl⟩
        · exact .inr ⟨i, List.mem_cons_of_mem _ hi, rfl⟩
    · obtain ⟨y, hy, hcase, hle, hall⟩ := ih x
      refine ⟨y, ?_, ?_, hle, List.forall_mem_cons.mpr ⟨hle.trans (Nat.not_lt.mp hlt), hall⟩⟩
      · change findMin list order (if (entry list j).2 < x.2 then some (entry list j) else some x) = _
        rw [if_neg hlt]
        exact hy
      · exact hcase.imp id fun ⟨i, hi, he⟩ => ⟨i, List.mem_cons_of_mem _ hi, he⟩

/-- The loop finds nothing in an empty list, and a smallest entry in any other. -/
theorem findMin_cases (ho : order.Perm list.keys) :
    (list.keys = [] ∧ findMin list order none = none) ∨
      ∃ x, findMin list order none = some x ∧ list.lookup x.1 = some x.2 ∧ IsSmallest list x.2 := by
  cases order with
  | nil => exact .inl ⟨ho.symm.eq_nil, rfl⟩
  | cons j order =>
    right
    obtain ⟨y, hy, hcase, hle, hall⟩ := findMin_some list order (entry list j)
    have hall' : ∀ i ∈ j :: order, y.2 ≤ (entry list i).2 := List.forall_mem_cons.mpr ⟨hle, hall⟩
    obtain ⟨i, hi, rfl⟩ : ∃ i ∈ j :: order, y = entry list i := by
      rcases hcase with rfl | ⟨i, hi, rfl⟩
      · exact ⟨j, List.mem_cons_self, rfl⟩
      · exact ⟨i, List.mem_cons_of_mem _ hi, rfl⟩
    have hmem : i ∈ list := AList.mem_keys.mpr (ho.subset hi)
    obtain ⟨c, hc⟩ := Option.isSome_iff_exists.mp (AList.lookup_isSome.mpr hmem)
    have hentry : (entry list i).2 = c := by simp [entry, hc]
    refine ⟨_, hy, by rw [hentry]; exact hc, ⟨i, by rw [hentry]; exact hc⟩, ?_⟩
    intro i' c' hc'
    have hmem' : i' ∈ list := AList.lookup_isSome.mp (by rw [hc']; rfl)
    have := hall' i' (ho.symm.subset (AList.mem_keys.mp hmem'))
    simpa [entry, hc'] using this

theorem IsSmallest.unique {c c' : ℕ} (h : IsSmallest list c) (h' : IsSmallest list c') : c = c' := by
  obtain ⟨⟨i, hi⟩, hle⟩ := h
  obtain ⟨⟨i', hi'⟩, hle'⟩ := h'
  exact Nat.le_antisymm (hle i' c' hi') (hle' i c hi)

variable (estimate) in
theorem insert_length_of_mem (hk : key ∈ list) :
    (list.insert key estimate).keys.length = list.keys.length := by
  have hmem : key ∈ list.keys := AList.mem_keys.mp hk
  rw [AList.keys_insert, List.length_cons, List.length_erase_of_mem hmem]
  have := List.length_pos_of_mem hmem
  omega

theorem insert_length_of_notMem (hk : key ∉ list) :
    (list.insert key estimate).keys.length = list.keys.length + 1 := by
  rw [AList.keys_insert, List.length_cons, List.erase_of_not_mem fun h => hk (AList.mem_keys.mpr h)]

variable (key estimate) in
theorem insert_erase_length {x : ℕ} (hx : x ∈ list) :
    ((list.insert key estimate).erase x).keys.length + 1 =
      (list.insert key estimate).keys.length := by
  have hmem : x ∈ (list.insert key estimate).keys :=
    AList.mem_keys.mp ((AList.mem_insert list).mpr (.inr hx))
  rw [AList.keys_erase, List.length_erase_of_mem hmem]
  exact Nat.sub_add_cancel (List.length_pos_of_mem hmem)

variable (estimate) in
/-- With room for the key it is put into the list, another key leaves for it, or no
estimate of the list is smaller. -/
theorem updateList_cases (ho : order.Perm list.keys)
    (hroom : list.keys.length < k ∨ (list.keys.length = k ∧ key ∉ list)) :
    updateList k key estimate order list = list.insert key estimate ∨
      (key ∉ list ∧ ∃ x ∈ list,
        updateList k key estimate order list = (list.insert key estimate).erase x) ∨
      (updateList k key estimate order list = list ∧ ∃ c, IsSmallest list c ∧ estimate ≤ c) := by
  rw [updateList]
  rcases hroom with hlt | ⟨hfull, hk⟩
  · rw [if_neg fun h => hlt.ne h.1, if_pos hlt]
    exact .inl rfl
  · rcases findMin_cases ho with ⟨-, hnone⟩ | ⟨x, hx, hlookup, hmin⟩
    · rw [hnone, if_pos ⟨hfull, by simp [Beats]⟩]
      exact .inl rfl
    · rw [hx]
      by_cases hbeats : x.2 < estimate
      · rw [if_pos ⟨hfull, by simpa [Beats] using hbeats⟩]
        exact .inr (.inl ⟨hk, x.1, AList.lookup_isSome.mp (by rw [hlookup]; rfl), rfl⟩)
      · rw [if_neg fun h => hbeats (h.2 x rfl), if_neg hfull.not_lt]
        exact .inr (.inr ⟨rfl, x.2, hmin, Nat.not_lt.mp hbeats⟩)

/-- With room for the key the list does not shrink. -/
theorem updateList_length (ho : order.Perm list.keys)
    (hroom : list.keys.length < k ∨ (list.keys.length = k ∧ key ∉ list)) :
    list.keys.length ≤ (updateList k key estimate order list).keys.length := by
  rcases updateList_cases estimate ho hroom with h | ⟨hk, x, hx, h⟩ | ⟨h, -⟩
  · rw [h]
    by_cases hk : key ∈ list
    · exact (insert_length_of_mem estimate hk).ge
    · exact (insert_length_of_notMem hk).ge.trans' (Nat.le_succ _)
  · have hone := insert_erase_length key estimate hx
    rw [insert_length_of_notMem hk] at hone
    rw [h]
    omega
  · rw [h]

/-- With room for the key it is in the list, unless no estimate is smaller. -/
theorem updateList_candidate (ho : order.Perm list.keys)
    (hroom : list.keys.length < k ∨ (list.keys.length = k ∧ key ∉ list)) {c : ℕ}
    (hc : IsSmallest list c ∨ IsSmallest (updateList k key estimate order list) c)
    (hlt : c < estimate) : (updateList k key estimate order list).lookup key = some estimate := by
  rcases updateList_cases estimate ho hroom with h | ⟨hk, x, hx, h⟩ | ⟨h, c', hc', hle⟩
  · rw [h]
    exact AList.lookup_insert list
  · have hne : key ≠ x := by
      rintro rfl
      exact hk hx
    rw [h, AList.lookup_erase_ne hne]
    exact AList.lookup_insert list
  · rw [h, or_self] at hc
    have := hc.unique hc'
    omega

variable (key estimate) in
/-- A full list takes a larger estimate in for a smallest one. -/
theorem updateList_of_full (ho : order.Perm list.keys) (hfull : list.keys.length = k) (hk : 0 < k) :
    ∃ x ∈ list, ∃ c, IsSmallest list c ∧
      updateList k key estimate order list =
        if c < estimate then (list.insert key estimate).erase x else list := by
  rcases findMin_cases ho with ⟨hnil, -⟩ | ⟨⟨x, c⟩, hx, hlookup, hmin⟩
  · rw [hnil] at hfull
    exact absurd hfull hk.ne
  · refine ⟨x, AList.lookup_isSome.mp (by rw [hlookup]; rfl), c, hmin, ?_⟩
    rw [updateList, hx]
    by_cases hbeats : c < estimate
    · rw [if_pos ⟨hfull, by simpa [Beats] using hbeats⟩, if_pos hbeats]
      rfl
    · rw [if_neg fun h => hbeats (h.2 _ rfl), if_neg hfull.not_lt, if_neg hbeats]

/-- A full list that has the key with a smaller estimate gets smaller. -/
theorem updateList_shrinks (ho : order.Perm list.keys) (hfull : list.keys.length = k) (hk : 0 < k)
    {c : ℕ} (hc : list.lookup key = some c) (hlt : c < estimate) :
    (updateList k key estimate order list).keys.length < list.keys.length := by
  obtain ⟨x, hx, m, hmin, h⟩ := updateList_of_full key estimate ho hfull hk
  have hmem : key ∈ list := AList.lookup_isSome.mp (by rw [hc]; rfl)
  rw [h, if_pos ((hmin.2 key c hc).trans_lt hlt), ← insert_length_of_mem estimate hmem,
    ← insert_erase_length key estimate hx]
  exact Nat.lt_succ_self _

theorem updateList_length_le (ho : order.Perm list.keys) (hle : list.keys.length ≤ k) (hk : 0 < k) :
    (updateList k key estimate order list).keys.length ≤ k := by
  have hinsert : (list.insert key estimate).keys.length ≤ list.keys.length + 1 := by
    by_cases hmem : key ∈ list
    · exact (insert_length_of_mem estimate hmem).le.trans (Nat.le_succ _)
    · exact (insert_length_of_notMem hmem).le
  rcases hle.lt_or_eq with hlt | hfull
  · rw [updateList, if_neg fun h => hlt.ne h.1, if_pos hlt]
    exact hinsert.trans hlt
  · obtain ⟨x, hx, m, -, h⟩ := updateList_of_full key estimate ho hfull hk
    have := insert_erase_length key estimate hx
    rw [h]
    split <;> omega

/-- An entry of the list after a packet is an old one or the packet's. -/
theorem lookup_updateList {i c : ℕ} (h : (updateList k key estimate order list).lookup i = some c) :
    (i = key ∧ c = estimate) ∨ list.lookup i = some c := by
  have hinsert : (list.insert key estimate).lookup i = some c →
      (i = key ∧ c = estimate) ∨ list.lookup i = some c := by
    intro h
    by_cases hi : i = key
    · subst hi
      rw [AList.lookup_insert] at h
      exact .inl ⟨rfl, (Option.some.inj h).symm⟩
    · rw [AList.lookup_insert_ne hi] at h
      exact .inr h
  rw [updateList] at h
  split at h
  · cases hfound : findMin list order none with
    | none =>
      rw [hfound] at h
      exact hinsert h
    | some x =>
      rw [hfound] at h
      by_cases hi : i = x.1
      · rw [removeMin, hi, AList.lookup_erase] at h
        cases h
      · rw [removeMin, AList.lookup_erase_ne hi] at h
        exact hinsert h
  · split at h
    · exact hinsert h
    · exact .inr h

end Update

namespace Sketch

variable {s : Sketch} {flowid key : ℕ}

/-- The loop over the rows computes the minimum. -/
theorem le_foldl_min {rows : List Row} {size c : ℕ} (m : ℕ) :
    c ≤ rows.foldl (fun min r => if r.count size flowid < min then r.count size flowid else min) m ↔
      c ≤ m ∧ ∀ r ∈ rows, c ≤ r.count size flowid := by
  induction rows generalizing m with
  | nil => simp
  | cons r rows ih =>
    rw [List.foldl_cons, ih, List.forall_mem_cons, ← and_assoc]
    apply and_congr_left'
    split <;> omega

theorem le_estimateCount {c : ℕ} :
    c ≤ s.estimateCount flowid ↔ ∀ r ∈ s.row :: s.rows, c ≤ r.count s.size flowid := by
  rw [estimateCount, le_foldl_min, List.forall_mem_cons]

theorem count_increment_self (r : Row) (size : ℕ) :
    (r.increment size key).count size key = r.count size key + 1 :=
  Function.update_self ..

theorem count_le_increment (r : Row) (size : ℕ) :
    r.count size flowid ≤ (r.increment size key).count size flowid := by
  change r.count size flowid ≤ Function.update r.cells (r.hash size key) (r.count size key + 1)
    (r.hash size flowid)
  by_cases h : r.hash size flowid = r.hash size key
  · rw [h, Function.update_self, Row.count, Row.count, h]
    exact Nat.le_succ _
  · rw [Function.update_of_ne h]
    exact le_rfl

/-- A bound on the rows before a packet gives one on the estimate after it. -/
theorem le_estimateCount_updateCount {c : ℕ}
    (h : ∀ r ∈ s.row :: s.rows, c ≤ (r.increment s.size key).count s.size flowid) :
    c ≤ (s.updateCount key).estimateCount flowid := by
  rw [le_estimateCount]
  intro r hr
  obtain ⟨r', hr', rfl⟩ : ∃ r' ∈ s.row :: s.rows, r'.increment s.size key = r := List.mem_map.mp hr
  exact h r' hr'

theorem estimateCount_le_updateCount :
    s.estimateCount flowid ≤ (s.updateCount key).estimateCount flowid :=
  le_estimateCount_updateCount fun r hr =>
    (le_estimateCount.mp le_rfl r hr).trans (count_le_increment r s.size)

theorem estimateCount_lt_updateCount :
    s.estimateCount key < (s.updateCount key).estimateCount key := by
  apply le_estimateCount_updateCount
  intro r hr
  rw [count_increment_self]
  exact Nat.succ_le_succ (le_estimateCount.mp le_rfl r hr)

end Sketch

namespace Monitor

variable {M : Monitor} {s : MonitorState}

section Step

variable {a : ℕ × List ℕ}

theorem processData_of_passes
    (h : M.passes (s.totalNumberOfPackets + 1) (estimate s a.1) = true) :
    M.processData s a.1 a.2 =
      { sketch := s.sketch.updateCount a.1
        totalNumberOfPackets := s.totalNumberOfPackets + 1
        heavyhitterList := updateList M.k a.1 (estimate s a.1) a.2 s.heavyhitterList
        before := s.heavyhitterList
        processed := some a.1 } := by
  rw [processData, ← estimate, h]
  rfl

theorem processData_of_not_passes
    (h : ¬M.passes (s.totalNumberOfPackets + 1) (estimate s a.1) = true) :
    M.processData s a.1 a.2 =
      { sketch := s.sketch.updateCount a.1
        totalNumberOfPackets := s.totalNumberOfPackets + 1
        heavyhitterList := s.heavyhitterList
        before := s.heavyhitterList
        processed := some a.1 } := by
  rw [processData, ← estimate, Bool.eq_false_of_not_eq_true h]
  rfl

theorem processData_kept (ho : a.2.Perm s.heavyhitterList.keys) (hroom : M.RoomFor s a) :
    (M.processData s a.1 a.2).Kept := by
  by_cases h : M.passes (s.totalNumberOfPackets + 1) (estimate s a.1) = true
  · rw [processData_of_passes h]
    rw [RoomFor, if_pos h] at hroom
    refine ⟨updateList_length ho hroom, ?_⟩
    intro key hkey c hc hlt
    obtain rfl : a.1 = key := Option.some.inj hkey
    exact updateList_candidate ho hroom hc hlt
  · rw [processData_of_not_passes h]
    rw [RoomFor, if_neg h] at hroom
    refine ⟨le_rfl, ?_⟩
    intro key hkey c hc hlt
    obtain rfl : a.1 = key := Option.some.inj hkey
    obtain ⟨⟨j, hj⟩, -⟩ := or_self_iff.mp hc
    have hmem : j ∈ s.heavyhitterList := AList.lookup_isSome.mp (by rw [hj]; rfl)
    have hle := hroom j (AList.mem_keys.mp hmem)
    rw [hj, Option.getD_some] at hle
    exact absurd hlt (Nat.not_lt.mpr hle)

end Step

/-- The list has at most `k` keys, none of them with more than its estimate. -/
structure Bounded (M : Monitor) (s : MonitorState) : Prop where
  size : s.heavyhitterList.keys.length ≤ M.k
  count : ∀ key c, s.heavyhitterList.lookup key = some c → c ≤ s.sketch.estimateCount key

theorem bounded_processData (hk : 0 < M.k) {a : ℕ × List ℕ} (ho : a.2.Perm s.heavyhitterList.keys)
    (hs : M.Bounded s) : M.Bounded (M.processData s a.1 a.2) := by
  have hcount : ∀ key c, s.heavyhitterList.lookup key = some c →
      c ≤ (s.sketch.updateCount a.1).estimateCount key := fun key c hc =>
    (hs.count key c hc).trans Sketch.estimateCount_le_updateCount
  by_cases h : M.passes (s.totalNumberOfPackets + 1) (estimate s a.1) = true
  · rw [processData_of_passes h]
    refine ⟨updateList_length_le ho hs.size hk, ?_⟩
    intro key c hc
    rcases lookup_updateList hc with ⟨rfl, rfl⟩ | hold
    · exact le_rfl
    · exact hcount key c hold
  · rw [processData_of_not_passes h]
    exact ⟨hs.size, hcount⟩

theorem bounded_reachable (hk : 0 < M.k) (h : M.system.Reachable s) : M.Bounded s := by
  induction h with
  | init hs =>
    obtain ⟨-, hlist, -, -⟩ := hs
    refine ⟨by rw [hlist]; exact hk.le, ?_⟩
    intro key c hc
    rw [hlist, AList.lookup_empty] at hc
    cases hc
  | step _ he ih => exact bounded_processData hk he ih

/-- In every run, a packet that finds no room costs the list one of its keys: its own
estimate has grown since it was put into the list. For the same reason a packet below the
threshold is not in the list with its estimate. -/
theorem processData_kept_iff (hk : 0 < M.k) (h : M.system.Reachable s) {a : ℕ × List ℕ}
    (ho : M.system.enabled s a) : (M.processData s a.1 a.2).Kept ↔ M.RoomFor s a := by
  refine ⟨?_, processData_kept ho⟩
  intro hkept
  have hs := bounded_reachable hk h
  have hgrown {c : ℕ} (hc : s.heavyhitterList.lookup a.1 = some c) : c < estimate s a.1 :=
    (hs.count a.1 c hc).trans_lt Sketch.estimateCount_lt_updateCount
  by_cases hpasses : M.passes (s.totalNumberOfPackets + 1) (estimate s a.1) = true
  · rw [processData_of_passes hpasses] at hkept
    rw [RoomFor, if_pos hpasses]
    rcases hs.size.lt_or_eq with hlt | hfull
    · exact .inl hlt
    · refine .inr ⟨hfull, fun hmem => ?_⟩
      obtain ⟨c, hc⟩ := Option.isSome_iff_exists.mp (AList.lookup_isSome.mpr hmem)
      exact (updateList_shrinks ho hfull hk hc (hgrown hc)).not_ge hkept.size
  · rw [processData_of_not_passes hpasses] at hkept
    rw [RoomFor, if_neg hpasses]
    intro j hj
    obtain ⟨cj, hcj⟩ := Option.isSome_iff_exists.mp
      (AList.lookup_isSome.mpr (AList.mem_keys.mpr hj))
    rw [hcj, Option.getD_some]
    by_contra hlt
    rcases findMin_cases ho with ⟨hnil, -⟩ | ⟨x, -, -, hmin⟩
    · rw [hnil] at hj
      cases hj
    · have hsmaller : x.2 < estimate s a.1 := (hmin.2 j cj hcj).trans_lt (not_le.mp hlt)
      exact absurd (hgrown (hkept.candidate a.1 rfl x.2 (.inl hmin) hsmaller)) (lt_irrefl _)

/-- In a run in which every packet that passes the threshold finds room in the list or a
full list without its key, and every other one has no more than the keys of the list, the
list keeps the candidates after every packet. The next packet keeps them exactly if it does
so too. -/
theorem candidates_kept {M : Monitor} {s : MonitorState}
    (h : (M.system.restrict M.RoomFor).Reachable s) :
    s.Kept ∧ (0 < M.k → ∀ a, M.system.enabled s a →
      ((M.system.next s a).Kept ↔ M.RoomFor s a)) := by
  refine ⟨?_, fun hk a ho => processData_kept_iff hk h.of_restrict ho⟩
  cases h with
  | init hs =>
    obtain ⟨-, hlist, hbefore, hprocessed⟩ := hs
    refine ⟨by rw [hlist, hbefore], fun key hkey => ?_⟩
    rw [hprocessed] at hkey
    cases hkey
  | step _ he => exact processData_kept he.1 he.2

end Monitor

/-- Two rows of eight counters. -/
def labSketch : Sketch := ⟨8, ⟨3, 1, fun _ => 0⟩, [⟨5, 2, fun _ => 0⟩]⟩

def labMonitor : MonitorState := ⟨labSketch, 0, ∅, ∅, none⟩

theorem labMonitor_init (M : Monitor) : M.system.init labMonitor := by
  refine ⟨?_, rfl, rfl, rfl⟩
  intro r hr j
  simp only [labMonitor, labSketch, List.mem_cons, List.not_mem_nil, or_false] at hr
  rcases hr with rfl | rfl <;> rfl

/-- Key 3 is counted twice and takes the place of key 1 in a list of two. -/
theorem candidates_kept_swap :
    ((univMon 2).system.run labMonitor [(1, []), (2, [1]), (3, [2, 1]), (3, [1, 2])]).Kept := by
  have hinit : ((univMon 2).system.restrict (univMon 2).RoomFor).Reachable labMonitor :=
    .init (labMonitor_init (univMon 2))
  have hrun := hinit.run (l := [(1, []), (2, [1]), (3, [2, 1]), (3, [1, 2])]) (by decide +kernel)
  rw [System.run_restrict] at hrun
  exact (Monitor.candidates_kept hrun).1

/-- Two packets of one key, with a list of one. -/
theorem candidates_lost : ¬∀ s, (univMon 1).system.Reachable s → s.Kept := by
  intro h
  have hkept := h ((univMon 1).system.run labMonitor [(7, []), (7, [7])])
    (.run (.init (labMonitor_init (univMon 1))) (by decide +kernel))
  exact absurd hkept.size (by decide +kernel)

end P4Survey.HashPipe
