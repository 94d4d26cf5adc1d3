import P4Survey.HashPipe.CountMin
import P4Survey.Lib.Majority

/-! # A counter for each group of flows

`GroupCounters.java`: a bucket stores one of its flows with a counter, which packets of this
flow raise and those of other flows lower. A flow that finds the counter at zero is stored.
-/

namespace P4Survey.HashPipe
open Lib

/-- A `FlowWithCount`, whose counter is lowered as well. It is of type `long`, like
`totalCount`, which no number of packets that can be counted exceeds. -/
structure Bucket where
  flowid : ℤ
  count : ℤ
  deriving DecidableEq

structure GroupCounters where
  table : ℕ → Bucket
  totalCount : ℕ → ℤ
  totalNumberOfPackets : ℤ

namespace GroupCounters

/-- What the constructor leaves. -/
def initial : GroupCounters := ⟨fun _ => ⟨0, 0⟩, fun _ => 0, 0⟩

/-- `curKeyIndex`, with the first seeds of the arrays in `processData`. -/
def curKeyIndex (tableSize : ℕ) (key : ℤ) : ℤ := javaHash 421 73 5171 tableSize key

/-- A packet of a flow at its bucket. -/
def count (b : Bucket) (key : ℤ) : Bucket :=
  let b := if b.count = 0 then { b with flowid := key } else b
  if b.flowid = key then { b with count := b.count + 1 } else { b with count := b.count - 1 }

/-- `processData` for an assignment of flows to buckets. There is an exception for a bucket
outside of the table. -/
def processData (tableSize : ℕ) (bucket : ℤ → ℤ) (g : GroupCounters) (key : ℤ) :
    Option GroupCounters :=
  if 0 ≤ bucket key ∧ bucket key < tableSize then
    let i := (bucket key).toNat
    some
      { table := Function.update g.table i (count (g.table i) key)
        totalCount := Function.update g.totalCount i (g.totalCount i + 1)
        totalNumberOfPackets := int32 (g.totalNumberOfPackets + 1) }
  else none

def processAll (tableSize : ℕ) (bucket : ℤ → ℤ) (g : GroupCounters) : List ℤ → Option GroupCounters
  | [] => some g
  | key :: l => (processData tableSize bucket g key).bind fun g => processAll tableSize bucket g l

/-- For flows of 32 bits the assignment of the code stays in the table. -/
theorem curKeyIndex_range {tableSize key : ℕ} (htable : 0 < tableSize) (hkey : key < 2 ^ 32) :
    0 ≤ curKeyIndex tableSize key ∧ curKeyIndex tableSize key < tableSize := by
  have hlt : (421 * key + 73) % 5171 % tableSize < tableSize := Nat.mod_lt _ htable
  rw [curKeyIndex, javaHash_eq (by decide) (by decide) (by omega)]
  exact ⟨Int.natCast_nonneg _, by exact_mod_cast hlt⟩

/-- One packet is a vote. -/
theorem leads_count {l : List ℤ} {b : Bucket} (h : Leads l b.flowid b.count) (key : ℤ) :
    Leads (l ++ [key]) (count b key).flowid (count b key).count := by
  obtain ⟨flowid, c⟩ := b
  by_cases hzero : c = 0
  · subst hzero
    have hcount : count ⟨flowid, 0⟩ key = ⟨key, 0 + 1⟩ := by simp [count]
    rw [hcount]
    exact (h.exchange key).vote
  · by_cases hkey : flowid = key
    · subst hkey
      have hcount : count ⟨flowid, c⟩ flowid = ⟨flowid, c + 1⟩ := by simp [count, hzero]
      rw [hcount]
      exact h.vote
    · have hcount : count ⟨flowid, c⟩ key = ⟨flowid, c - 1⟩ := by simp [count, hzero, hkey]
      rw [hcount]
      exact h.oppose hzero hkey

/-- The packets of a list that go to bucket `i`. -/
def sent (bucket : ℤ → ℤ) (l : List ℤ) (i : ℕ) : List ℤ := l.filter fun key => bucket key = i

/-- After the packets of a list each bucket has the candidate of its own packets. -/
structure Inv (bucket : ℤ → ℤ) (l : List ℤ) (g : GroupCounters) : Prop where
  leads : ∀ i, Leads (sent bucket l i) (g.table i).flowid (g.table i).count
  total : ∀ i, g.totalCount i = (sent bucket l i).length

section

variable {tableSize : ℕ} {bucket : ℤ → ℤ} {g : GroupCounters} {l l' : List ℤ} {key : ℤ} {i : ℕ}

theorem sent_self (hi : bucket key = i) : sent bucket (l ++ [key]) i = sent bucket l i ++ [key] := by
  simp [sent, hi]

theorem sent_other (hi : bucket key ≠ i) : sent bucket (l ++ [key]) i = sent bucket l i := by
  simp [sent, hi]

theorem Inv.initial : Inv bucket [] initial := ⟨fun _ => Leads.nil 0, fun _ => rfl⟩

theorem Inv.processData (h : Inv bucket l g) (hlow : 0 ≤ bucket key)
    (hhigh : bucket key < tableSize) :
    ∃ g', processData tableSize bucket g key = some g' ∧ Inv bucket (l ++ [key]) g' := by
  have hcast : ((bucket key).toNat : ℤ) = bucket key := Int.toNat_of_nonneg hlow
  refine ⟨_, if_pos ⟨hlow, hhigh⟩, fun i => ?_, fun i => ?_⟩
  · by_cases hi : i = (bucket key).toNat
    · subst hi
      dsimp only
      rw [sent_self hcast.symm, Function.update_self]
      exact leads_count (h.leads _) key
    · dsimp only
      rw [sent_other (by omega), Function.update_of_ne hi]
      exact h.leads i
  · by_cases hi : i = (bucket key).toNat
    · subst hi
      dsimp only
      rw [sent_self hcast.symm, Function.update_self, h.total, List.length_append]
      rfl
    · dsimp only
      rw [sent_other (by omega), Function.update_of_ne hi]
      exact h.total i

theorem Inv.processAll (h : Inv bucket l g)
    (hl : ∀ key ∈ l', 0 ≤ bucket key ∧ bucket key < tableSize) :
    ∃ g', processAll tableSize bucket g l' = some g' ∧ Inv bucket (l ++ l') g' := by
  induction l' generalizing g l with
  | nil => exact ⟨g, rfl, by rwa [List.append_nil]⟩
  | cons key l' ih =>
    obtain ⟨hlow, hhigh⟩ := hl key List.mem_cons_self
    obtain ⟨g₁, hg₁, hinv⟩ := h.processData hlow hhigh
    obtain ⟨g', hg', hinv'⟩ := ih hinv fun k hk => hl k (List.mem_cons_of_mem key hk)
    refine ⟨g', ?_, ?_⟩
    · rw [GroupCounters.processAll, hg₁]
      exact hg'
    · rwa [List.append_assoc] at hinv'

end

/-- After any packets, in each bucket: the counter is not negative, and a flow with more than
half of the packets of the bucket is the one that is stored. -/
theorem majority_stored (tableSize : ℕ) (bucket : ℤ → ℤ) (l : List ℤ)
    (hl : ∀ key ∈ l, 0 ≤ bucket key ∧ bucket key < tableSize) :
    ∃ g, processAll tableSize bucket initial l = some g ∧ ∀ i < tableSize,
      0 ≤ (g.table i).count ∧ g.totalCount i = (sent bucket l i).length ∧
      ∀ key, g.totalCount i < 2 * (sent bucket l i).count key → (g.table i).flowid = key := by
  have hstart : Inv bucket [] initial := Inv.initial
  obtain ⟨g, hg, hinv⟩ := hstart.processAll hl
  rw [List.nil_append] at hinv
  refine ⟨g, hg, fun i _ => ⟨(hinv.leads i).nonneg, hinv.total i, fun key hkey => ?_⟩⟩
  rw [hinv.total i] at hkey
  exact (hinv.leads i).eq_of_majority hkey

/-- Two buckets with the hash function of the code. -/
theorem majority_stored_two :
    ∃ g, processAll 2 (curKeyIndex 2) initial [7, 9, 9, 8, 7, 9] = some g ∧ ∀ i < 2,
      0 ≤ (g.table i).count ∧
      g.totalCount i = (sent (curKeyIndex 2) [7, 9, 9, 8, 7, 9] i).length ∧
      ∀ key, g.totalCount i < 2 * (sent (curKeyIndex 2) [7, 9, 9, 8, 7, 9] i).count key →
        (g.table i).flowid = key :=
  majority_stored 2 (curKeyIndex 2) _ (by decide)

end GroupCounters

end P4Survey.HashPipe
