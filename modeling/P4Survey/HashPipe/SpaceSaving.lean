import P4Survey.HashPipe.DLeft

/-! # The Space-Saving baseline

`DLeftHashTable.java` with the structure `OverallMinReplacement`. One pass over the
whole table looks for the key and for the smallest count; a key that is not there
takes the slot of the smallest count and goes on from that count. The table is the
one of the Space-Saving algorithm.
-/

namespace P4Survey.HashPipe
open Lib

/-- What the pass over the table finds: the slot of the key, or the first slot with the
smallest count. -/
inductive Found
  | key (k : ℕ)
  | min (minIndex minValue : ℕ)
  deriving DecidableEq

namespace DLeftHashTable

/-- The pass with `n` slots to go, from slot `k` on. -/
def scan (buckets : ℕ → FlowWithCount) (key : ℕ) : ℕ → ℕ → ℕ → ℕ → Found
  | 0, _, minIndex, minValue => .min minIndex minValue
  | n + 1, k, minIndex, minValue =>
    if (buckets k).flowid = key then .key k
    else if (buckets k).count < minValue then scan buckets key n (k + 1) k (buckets k).count
    else scan buckets key n (k + 1) minIndex minValue

/-- The counts for a flow that has to leave. An empty slot has no flow. -/
def countVictim (c : DLeftConfig) (s : DLeftHashTable) (key minIndex minValue : ℕ) :
    Option DLeftHashTable :=
  if minValue = 0 then some s
  else (s.countEviction c (s.buckets minIndex).flowid key).bind fun s =>
    s.countRank c (s.buckets minIndex).flowid

/-- `processDataWithCountInTable` for `OverallMinReplacement`. -/
def replaceMin (c : DLeftConfig) (s : DLeftHashTable) (key : ℕ) : Option DLeftHashTable :=
  let s := { s with totalNumberOfPackets := s.totalNumberOfPackets + 1 }
  if key = 0 then some s
  else if c.tableSize = 0 then none
  else
    match scan s.buckets key c.tableSize 0 0 (s.buckets 0).count with
    | .key k => some (s.put k ⟨(s.buckets k).flowid, (s.buckets k).count + 1⟩)
    | .min minIndex minValue =>
      (s.countVictim c key minIndex minValue).map fun s =>
        s.put minIndex ⟨key, (s.buckets minIndex).count + 1⟩

/-- The table after a list of packets. -/
def replaceAll (c : DLeftConfig) : List ℕ → DLeftHashTable → Option DLeftHashTable
  | [], s => some s
  | key :: l, s => (s.replaceMin c key).bind (replaceAll c l)

section Scan

variable {buckets : ℕ → FlowWithCount} {key m : ℕ}

theorem scan_key {n k minIndex minValue i : ℕ} (hm : k + n = m)
    (h : scan buckets key n k minIndex minValue = .key i) : i < m ∧ (buckets i).flowid = key := by
  induction n generalizing k minIndex minValue with
  | zero => cases h
  | succ n ih =>
    rw [scan] at h
    split_ifs at h with hkey hlt
    · cases h
      exact ⟨by omega, hkey⟩
    · exact ih (by omega) h
    · exact ih (by omega) h

/-- Without the key the pass keeps a smallest count of the slots it has seen. -/
theorem scan_min {n k minIndex minValue i v : ℕ} (hm : k + n = m)
    (h : scan buckets key n k minIndex minValue = .min i v) (hlt : minIndex < m)
    (hv : minValue = (buckets minIndex).count) (hmin : ∀ j < k, minValue ≤ (buckets j).count)
    (hkey : ∀ j < k, (buckets j).flowid ≠ key) :
    i < m ∧ v = (buckets i).count ∧ (∀ j < m, v ≤ (buckets j).count) ∧
      ∀ j < m, (buckets j).flowid ≠ key := by
  induction n generalizing k minIndex minValue with
  | zero =>
    cases h
    subst hm
    exact ⟨hlt, hv, hmin, hkey⟩
  | succ n ih =>
    rw [scan] at h
    split_ifs at h with hk hc
    · refine ih (by omega) h (by omega) rfl ?_ ?_
      · intro j hj
        rcases Nat.lt_succ_iff_lt_or_eq.mp hj with hj | rfl
        · exact hc.le.trans (hmin j hj)
        · exact le_rfl
      · intro j hj
        rcases Nat.lt_succ_iff_lt_or_eq.mp hj with hj | rfl
        · exact hkey j hj
        · exact hk
    · refine ih (by omega) h hlt hv ?_ ?_
      · intro j hj
        rcases Nat.lt_succ_iff_lt_or_eq.mp hj with hj | rfl
        · exact hmin j hj
        · exact Nat.not_lt.mp hc
      · intro j hj
        rcases Nat.lt_succ_iff_lt_or_eq.mp hj with hj | rfl
        · exact hkey j hj
        · exact hk

end Scan

variable {c : DLeftConfig} {s s' : DLeftHashTable}

/-- The slots of the table. -/
def slots (c : DLeftConfig) (s : DLeftHashTable) (i : Fin c.tableSize) : FlowWithCount := s.buckets i

theorem slots_put (i : Fin c.tableSize) (e : FlowWithCount) :
    (s.put i e).slots c = Function.update (s.slots c) i e := by
  funext j
  by_cases hj : j = i
  · subst hj
    simp [slots, put]
  · rw [Function.update_of_ne hj]
    exact Function.update_of_ne (Fin.val_ne_of_ne hj) _ _

theorem countVictim_eq {key minIndex minValue : ℕ}
    (h : s.countVictim c key minIndex minValue = some s') :
    s'.buckets = s.buckets ∧ s'.tally = s.tally := by
  unfold countVictim at h
  split_ifs at h
  · exact Option.some.inj h ▸ ⟨rfl, rfl⟩
  · obtain ⟨s1, h1, h2⟩ := Option.bind_eq_some_iff.mp h
    obtain ⟨hb, ht⟩ := countEviction_eq h1
    obtain ⟨hb', ht'⟩ := countRank_eq h2
    exact ⟨hb'.trans hb, ht'.trans ht⟩

/-- A packet is one step of the Space-Saving algorithm. -/
theorem replaceMin_saves {l : List ℕ} {key : ℕ} (hs : Saves 0 (s.slots c) l) (hkey : key ≠ 0)
    (h : s.replaceMin c key = some s') : Saves 0 (s'.slots c) (key :: l) := by
  rw [replaceMin] at h
  simp only [if_neg hkey] at h
  split_ifs at h with h0
  have hpos : 0 < c.tableSize := Nat.pos_of_ne_zero h0
  cases hscan : scan s.buckets key c.tableSize 0 0 (s.buckets 0).count with
  | key k =>
    simp only [hscan] at h
    obtain rfl := Option.some.inj h
    obtain ⟨hlt, hk⟩ := scan_key (Nat.zero_add _) hscan
    rw [slots_put ⟨k, hlt⟩, hk]
    exact hs.hit hkey hk
  | min i v =>
    simp only [hscan] at h
    obtain ⟨s1, h1, rfl⟩ := Option.map_eq_some_iff.mp h
    obtain ⟨hb, -⟩ := countVictim_eq h1
    obtain ⟨hlt, hv, hmin, habs⟩ := scan_min (Nat.zero_add _) hscan hpos rfl
      (fun j hj => absurd hj (Nat.not_lt_zero j)) fun j hj => absurd hj (Nat.not_lt_zero j)
    have hslots : s1.slots c = s.slots c := by
      unfold slots
      rw [hb]
    rw [slots_put ⟨i, hlt⟩, hslots, hb]
    exact hs.replace hkey (fun j => habs j j.isLt) fun j => hv ▸ hmin j j.isLt

theorem replaceAll_saves {l m : List ℕ} (hs : Saves 0 (s.slots c) m) (hl : ∀ key ∈ l, key ≠ 0)
    (h : replaceAll c l s = some s') : Saves 0 (s'.slots c) (l.reverse ++ m) := by
  induction l generalizing s m with
  | nil =>
    obtain rfl := Option.some.inj h
    exact hs
  | cons key l ih =>
    obtain ⟨s1, h1, h2⟩ := Option.bind_eq_some_iff.mp h
    obtain ⟨hkey, hl⟩ := List.forall_mem_cons.mp hl
    rw [List.reverse_cons, List.append_assoc]
    exact ih (replaceMin_saves hs hkey h1) hl h2

theorem Known.put (hs : s.Known c) {i : ℕ} {e : FlowWithCount}
    (he : e.flowid ≠ 0 → (c.actualFlowSize e.flowid).isSome) : (s.put i e).Known c := by
  intro j hj
  by_cases hji : j = i
  · subst hji
    simp only [DLeftHashTable.put, Function.update_self] at hj ⊢
    exact he hj
  · simp only [DLeftHashTable.put, Function.update_of_ne hji] at hj ⊢
    exact hs j hj

theorem countVictim_isSome {key i : ℕ} (hs : s.Known c)
    (hclean : (s.buckets i).flowid = 0 → (s.buckets i).count = 0)
    (hsize : (c.actualFlowSize key).isSome) :
    ∃ s', s.countVictim c key i (s.buckets i).count = some s' ∧ s'.buckets = s.buckets := by
  have hsome : (s.countVictim c key i (s.buckets i).count).isSome := by
    unfold countVictim
    split_ifs with h0
    · rfl
    · have hv := hs i fun hz => h0 (hclean hz)
      obtain ⟨x, hx⟩ := Option.isSome_iff_exists.mp hv
      obtain ⟨y, hy⟩ := Option.isSome_iff_exists.mp hsize
      simp only [countEviction, hx, hy, Option.bind_eq_bind, Option.bind_some, Option.pure_def]
      exact countRank_isSome hv _
  obtain ⟨s', h'⟩ := Option.isSome_iff_exists.mp hsome
  exact ⟨s', h', (countVictim_eq h').1⟩

/-- A packet of a flow with a size in the map leads to no exception. -/
theorem replaceMin_isSome {l : List ℕ} {key : ℕ} (hs : s.Known c) (hsaves : Saves 0 (s.slots c) l)
    (hT : c.tableSize ≠ 0) (hsize : (c.actualFlowSize key).isSome) (hkey : key ≠ 0) :
    ∃ s', s.replaceMin c key = some s' ∧ s'.Known c := by
  have hs0 : { s with totalNumberOfPackets := s.totalNumberOfPackets + 1 }.Known c := hs
  rw [replaceMin]
  simp only [if_neg hkey, if_neg hT]
  cases hscan : scan s.buckets key c.tableSize 0 0 (s.buckets 0).count with
  | key k => exact ⟨_, rfl, hs0.put fun h => hs k h⟩
  | min i v =>
    obtain ⟨hlt, rfl, -⟩ := scan_min (Nat.zero_add _) hscan (Nat.pos_of_ne_zero hT) rfl
      (fun j hj => absurd hj (Nat.not_lt_zero j)) fun j hj => absurd hj (Nat.not_lt_zero j)
    obtain ⟨s1, h1, hb⟩ := countVictim_isSome (i := i) hs0 (hsaves.empty ⟨i, hlt⟩) hsize
    refine ⟨_, Option.map_eq_some_iff.mpr ⟨s1, h1, rfl⟩, Known.put ?_ fun _ => hsize⟩
    intro j hj
    rw [hb] at hj ⊢
    exact hs j hj

theorem replaceAll_isSome {l m : List ℕ} (hs : s.Known c) (hsaves : Saves 0 (s.slots c) m)
    (hT : c.tableSize ≠ 0) (hl : ∀ key ∈ l, key ≠ 0 ∧ (c.actualFlowSize key).isSome) :
    ∃ s', replaceAll c l s = some s' := by
  induction l generalizing s m with
  | nil => exact ⟨s, rfl⟩
  | cons key l ih =>
    obtain ⟨⟨hkey, hsize⟩, hl⟩ := List.forall_mem_cons.mp hl
    obtain ⟨s1, h1, hs1⟩ := replaceMin_isSome hs hsaves hT hsize hkey
    rw [replaceAll, h1]
    exact ih hs1 (replaceMin_saves hsaves hkey h1) hl

/-- What the Space-Saving algorithm promises after the packets `l`. -/
structure Guarantees (c : DLeftConfig) (s : DLeftHashTable) (l : List ℕ) : Prop where
  distinct : ∀ i < c.tableSize, ∀ j < c.tableSize, (s.buckets i).flowid ≠ 0 →
    (s.buckets i).flowid = (s.buckets j).flowid → i = j
  total : ∑ i ∈ Finset.range c.tableSize, (s.buckets i).count = l.length
  bounds : ∀ i < c.tableSize, (s.buckets i).flowid ≠ 0 →
    l.count (s.buckets i).flowid ≤ (s.buckets i).count ∧
      ∀ j < c.tableSize, (s.buckets i).count ≤ l.count (s.buckets i).flowid + (s.buckets j).count
  frequent : ∀ key ≠ 0, l.length < c.tableSize * l.count key →
    ∃ i < c.tableSize, (s.buckets i).flowid = key

theorem guarantees_of_saves {l : List ℕ} (h : Saves 0 (s.slots c) l) : s.Guarantees c l where
  distinct i hi j hj hne he := Fin.mk.inj (h.distinct (i := ⟨i, hi⟩) (j := ⟨j, hj⟩) hne he)
  total := by
    rw [← h.total, Finset.sum_range]
    rfl
  bounds i hi hne := ⟨h.lower ⟨i, hi⟩ hne, fun j hj => h.upper ⟨i, hi⟩ ⟨j, hj⟩ hne⟩
  frequent key hkey hfreq := by
    rw [← Fintype.card_fin c.tableSize] at hfreq
    obtain ⟨i, hi⟩ := h.stored_of_frequent hkey hfreq
    exact ⟨i, i.isLt, hi⟩

/-- After any packets with keys other than zero the table is that of Space-Saving, and
with a size for every flow there is no exception. -/
theorem spaceSaving_guarantees {c : DLeftConfig} {l : List ℕ} (hl : ∀ key ∈ l, key ≠ 0)
    (m : Option (ℕ → Option ℕ)) :
    (∀ s, replaceAll c l (new m) = some s → s.Guarantees c l) ∧
      (c.tableSize ≠ 0 → (∀ key ∈ l, (c.actualFlowSize key).isSome) →
        ∃ s, replaceAll c l (new m) = some s) := by
  have hstart : Saves 0 ((new m).slots c) [] := Saves.start
  constructor
  · intro s hs
    have hsaves := replaceAll_saves hstart hl hs
    rw [List.append_nil] at hsaves
    exact guarantees_of_saves hsaves.of_reverse
  · intro hT hsize
    exact replaceAll_isSome (fun i hi => absurd rfl hi) hstart hT
      fun key hk => ⟨hl key hk, hsize key hk⟩

/-- Three flows in the two slots of `labConfig`: the last one takes over a count of one. -/
theorem spaceSaving_guarantees_lab :
    ∃ s, replaceAll labConfig [1, 2, 1, 3] (new none) = some s ∧ (s.buckets 1) = ⟨3, 2⟩ ∧
      s.Guarantees labConfig [1, 2, 1, 3] := by
  obtain ⟨hall, hrun⟩ := spaceSaving_guarantees (c := labConfig) (l := [1, 2, 1, 3]) (by decide) none
  obtain ⟨s, hs⟩ := hrun (by decide) (by decide)
  refine ⟨s, hs, ?_, hall s hs⟩
  have hslot : (replaceAll labConfig [1, 2, 1, 3] (new none)).map (fun s => s.buckets 1) =
      some ⟨3, 2⟩ := by decide
  rw [hs] at hslot
  exact Option.some.inj hslot

end DLeftHashTable

end P4Survey.HashPipe
