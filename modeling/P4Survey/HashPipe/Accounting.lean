import P4Survey.HashPipe.Pipeline
import P4Survey.Lib.System

/-! # What the counters of HashPipe account for

Each count of a valid location is attributed to its key. A packet adds one to
the count of its source; what one stage evicts the next one takes in, merges or
discards. So the counts never exceed the packets, as long as no count is added to
an empty location of the second stage: key zero also marks that nothing was
evicted, and its count would stay behind there without a key.
-/

namespace P4Survey.HashPipe
open Lib

section Mass

/-- The count of a location, weighted by its key. -/
def Slot.mass (w : BitVec 32 → ℕ) (l : Slot) : ℕ :=
  if l.valid = 0#1 then 0 else w l.key * l.count.toNat

def Stage.mass (w : BitVec 32 → ℕ) (s : Stage) : ℕ := ∑ i ∈ Finset.range 32, (s.slot i).mass w

/-- What is stored for one key. -/
def onlyKey (k key : BitVec 32) : ℕ := if key = k then 1 else 0

variable {w : BitVec 32 → ℕ}

@[simp] theorem mass_empty : empty.mass w = 0 := by
  simp [Stage.mass, Slot.mass]

theorem mass_write (s : Stage) {i : ℕ} (h : i < 32) (l : Slot) :
    (s.write i l).mass w + (s.slot i).mass w = s.mass w + l.mass w := by
  have hi : i ∈ Finset.range 32 := Finset.mem_range.mpr h
  have hrest : ∑ j ∈ (Finset.range 32).erase i, ((s.write i l).slot j).mass w =
      ∑ j ∈ (Finset.range 32).erase i, (s.slot j).mass w := by
    apply Finset.sum_congr rfl
    intro j hj
    rw [s.slot_write_of_ne (Finset.ne_of_mem_erase hj).symm]
  rw [Stage.mass, Stage.mass, ← Finset.add_sum_erase _ _ hi, ← Finset.add_sum_erase _ _ hi, hrest,
    s.slot_write_self h]
  omega

theorem index_lt (n : ℕ) : (index n).toNat < 32 := (index n).isLt

end Mass

namespace Slot

variable {l : Slot} {w : BitVec 32 → ℕ} {key count : BitVec 32}

/-- A location without a key has no count. -/
def Clean (l : Slot) : Prop := l.valid = 0#1 → l.count = 0#32

/-- What is lost when a location is contested: the smaller one of the two counts. -/
def discards (l : Slot) (key count : BitVec 32) : ℕ :=
  if l.Takes key then 0 else min l.count.toNat count.toNat

theorem count_mul_le_mass (hl : l.Clean) : w l.key * l.count.toNat ≤ l.mass w := by
  rw [mass]
  split_ifs with hv
  · simp [hl hv]
  · exact le_rfl

theorem toNat_add_eq (a b : BitVec 32) :
    ∃ lost, (a.toNat + b.toNat < 2 ^ 32 → lost = 0) ∧ (a + b).toNat + lost = a.toNat + b.toNat := by
  refine ⟨a.toNat + b.toNat - (a + b).toNat, ?_, ?_⟩ <;> rw [BitVec.toNat_add]
  · intro h
    rw [Nat.mod_eq_of_lt h]
    exact Nat.sub_self _
  · exact Nat.add_sub_of_le (Nat.mod_le _ _)

/-- A location with a key counts one more, or wraps around. -/
theorem mass_enter_of_takes (hl : l.Clean) (ht : l.Takes key) :
    ∃ lost, (l.count.toNat + 1 < 2 ^ 32 → lost = 0) ∧
      (l.enter key).mass w + lost = l.mass w + w key := by
  obtain ⟨lost, hlost, heq⟩ := toNat_add_eq l.count 1#32
  have hnew : (l.enter key).mass w + w key * lost = w key * l.count.toNat + w key := by
    simp only [enter, mass, if_pos ht, if_neg (show (1#1 : BitVec 1) ≠ 0#1 by decide)]
    rw [← Nat.mul_add, heq]
    exact Nat.mul_succ _ _
  have hold : w key * l.count.toNat = l.mass w := by
    rw [mass]
    split_ifs with hv
    · simp [hl hv]
    · rw [ht.resolve_left hv]
  refine ⟨w key * lost, fun h => ?_, hold ▸ hnew⟩
  rw [hlost h, Nat.mul_zero]

/-- The count of another key is handed on. -/
theorem mass_enter_of_not_takes (ht : ¬l.Takes key) :
    (l.enter key).mass w + w l.key * l.count.toNat = l.mass w + w key := by
  have hv : l.valid ≠ 0#1 := fun hv => ht (.inl hv)
  simp only [enter, mass, if_neg ht, if_neg hv, if_neg (show (1#1 : BitVec 1) ≠ 0#1 by decide)]
  simp
  omega

/-- What comes to a location that takes it is added to the count. -/
theorem mass_merge_of_takes (hl : l.Clean) (hz : key = 0#32 → l.valid = 0#1 → count = 0#32)
    (ht : l.Takes key) :
    ∃ lost, (l.count.toNat + count.toNat < 2 ^ 32 → lost = 0) ∧
      (l.merge key count).mass w + lost = l.mass w + w key * count.toNat := by
  obtain ⟨lost, hlost, heq⟩ := toNat_add_eq l.count count
  refine ⟨w key * lost, fun h => by rw [hlost h, Nat.mul_zero], ?_⟩
  by_cases hv : l.valid = 0#1
  · have hzero := hl hv
    simp only [merge, if_pos hv, mass]
    by_cases hk : key = 0#32
    · simp [hlost (by simp [hzero, hz hk hv]), hz hk hv, hk]
    · simp only [if_neg hk, if_neg (show (1#1 : BitVec 1) ≠ 0#1 by decide)]
      rw [← Nat.mul_add, heq, hzero]
      simp
  · have hk : l.key = key := ht.resolve_left hv
    simp only [merge, if_neg hv, if_pos hk, mass, if_neg (show (1#1 : BitVec 1) ≠ 0#1 by decide)]
    rw [hk, ← Nat.mul_add, ← Nat.mul_add, heq]

/-- Of two counts with different keys the smaller one is discarded. -/
theorem mass_merge_of_not_takes (ht : ¬l.Takes key) (count : BitVec 32) :
    ∃ loser, (l.merge key count).mass w + w loser * l.discards key count =
      l.mass w + w key * count.toNat := by
  have hv : l.valid ≠ 0#1 := fun hv => ht (.inl hv)
  have hk : l.key ≠ key := fun hk => ht (.inr hk)
  simp only [merge, if_neg hv, if_neg hk, discards, if_neg ht]
  by_cases hlt : l.count < count
  · refine ⟨l.key, ?_⟩
    rw [if_pos hlt, Nat.min_eq_left (BitVec.lt_def.mp hlt).le]
    simp [mass, hv]
    omega
  · refine ⟨key, ?_⟩
    rw [if_neg hlt, Nat.min_eq_right (BitVec.not_lt.mp hlt)]
    simp [mass, hv]

theorem clean_enter : (l.enter key).Clean := by
  intro hv
  cases hv

theorem clean_merge (hl : l.Clean) (hz : key = 0#32 → l.valid = 0#1 → count = 0#32) :
    (l.merge key count).Clean := by
  intro hv
  simp only [merge] at hv ⊢
  split_ifs at hv ⊢ with h0 hk
  · simp [hl h0, hz hk h0]
  all_goals cases hv

end Slot

/-- Every empty location of the stage has count zero. -/
def Stage.Clean (s : Stage) : Prop := ∀ i < 32, (s.slot i).Clean

namespace Stage

variable {s : Stage}

theorem clean_empty : empty.Clean := by
  intro i _ _
  simp

theorem Clean.slotOf (h : s.Clean) (hash : BitVec 32 → ℕ) (key : BitVec 32) :
    (s.slotOf hash key).Clean := h _ (index_lt _)

theorem Clean.write (h : s.Clean) {i : ℕ} (hi : i < 32) {l : Slot} (hl : l.Clean) :
    (s.write i l).Clean := by
  intro j hj
  by_cases hij : i = j
  · rw [← hij, s.slot_write_self hi]
    exact hl
  · rw [s.slot_write_of_ne hij]
    exact h j hj

theorem slot_mass_le (w : BitVec 32 → ℕ) {i : ℕ} (hi : i < 32) : (s.slot i).mass w ≤ s.mass w :=
  Finset.single_le_sum (f := fun j => (s.slot j).mass w) (fun _ _ => Nat.zero_le _)
    (Finset.mem_range.mpr hi)

/-- No count of a stage without stray counts exceeds their total. -/
theorem count_le_mass (h : s.Clean) (hash : BitVec 32 → ℕ) (key : BitVec 32) :
    (s.slotOf hash key).count.toNat ≤ s.mass fun _ => 1 := by
  have hcount := Slot.count_mul_le_mass (w := fun _ => 1) (h.slotOf hash key)
  have hle := s.slot_mass_le (fun _ => 1) (index_lt (hash key))
  rw [Nat.one_mul] at hcount
  exact hcount.trans hle

end Stage

section Step

variable (t : Tables) (s : Switch) (x : List Bool)

def source (x : List Bool) : BitVec 32 := (parse x).1.ipv4.srcAddr

/-- The key and the count that the first stage hands on. -/
def carried : BitVec 32 × BitVec 32 :=
  let m := (doStage1 t (parse x).1 s.stage1 default).2
  (m.mKeyCarried, m.mCountCarried)

/-- What the second stage discards. -/
def discards : ℕ :=
  (s.stage2.slotOf t.stage2Hash (carried t s x).1).discards (carried t s x).1 (carried t s x).2

/-- The packet does not evict a count of key zero to an empty location. -/
def Settled : Prop :=
  ¬((s.stage1.slotOf t.stage1Hash (source x)).key = 0#32 ∧
    (s.stage1.slotOf t.stage1Hash (source x)).count ≠ 0#32 ∧
    ¬(s.stage1.slotOf t.stage1Hash (source x)).Takes (source x) ∧
    (s.stage2.slotOf t.stage2Hash 0#32).valid = 0#1)

instance : Decidable (Settled t s x) := inferInstanceAs (Decidable (¬_))

theorem stage1_process : (process t s x).1.stage1 =
    s.stage1.write (index (t.stage1Hash (source x))).toNat
      ((s.stage1.slotOf t.stage1Hash (source x)).enter (source x)) := by
  rw [regs_process, (stages_ingress t s _).1, doStage1_eq]
  rfl

theorem stage2_process : (process t s x).1.stage2 =
    s.stage2.write (index (t.stage2Hash (carried t s x).1)).toNat
      ((s.stage2.slotOf t.stage2Hash (carried t s x).1).merge (carried t s x).1
        (carried t s x).2) := by
  rw [regs_process, (stages_ingress t s _).2, doStage2_eq]
  rfl

variable {t s x}

theorem carried_eq_zero (h : (s.stage1.slotOf t.stage1Hash (source x)).Takes (source x)) :
    carried t s x = (0#32, 0#32) :=
  Prod.ext (carried_of_takes t s.stage1 _ _ h).1 (carried_of_takes t s.stage1 _ _ h).2

theorem carried_eq_slot (h : ¬(s.stage1.slotOf t.stage1Hash (source x)).Takes (source x)) :
    carried t s x = ((s.stage1.slotOf t.stage1Hash (source x)).key,
      (s.stage1.slotOf t.stage1Hash (source x)).count) :=
  Prod.ext (carried_of_not_takes t s.stage1 _ _ h).1 (carried_of_not_takes t s.stage1 _ _ h).2

/-- Nothing is carried to an empty location under key zero. -/
theorem Settled.carried (h : Settled t s x) (hk : (carried t s x).1 = 0#32)
    (hv : (s.stage2.slotOf t.stage2Hash (carried t s x).1).valid = 0#1) :
    (HashPipe.carried t s x).2 = 0#32 := by
  by_cases ht : (s.stage1.slotOf t.stage1Hash (source x)).Takes (source x)
  · rw [carried_eq_zero ht]
  · rw [hk] at hv
    rw [carried_eq_slot ht] at hk ⊢
    by_contra hc
    exact h ⟨hk, hc, ht, hv⟩

/-- No stage has a stray count. -/
structure Switch.Clean (s : Switch) : Prop where
  stage1 : s.stage1.Clean
  stage2 : s.stage2.Clean

theorem clean_process (h : s.Clean) (hs : Settled t s x) : (process t s x).1.Clean where
  stage1 := by
    rw [stage1_process]
    exact h.stage1.write (index_lt _) Slot.clean_enter
  stage2 := by
    rw [stage2_process]
    exact h.stage2.write (index_lt _) (Slot.clean_merge (h.stage2.slotOf _ _) hs.carried)

/-- The counts of both stages, weighted by their keys. -/
def Switch.mass (w : BitVec 32 → ℕ) (s : Switch) : ℕ := s.stage1.mass w + s.stage2.mass w

variable {w : BitVec 32 → ℕ}

/-- The first stage counts the packet and hands on what it evicts. -/
theorem mass_stage1 (h : s.stage1.Clean) :
    ∃ lost, ((s.stage1.slotOf t.stage1Hash (source x)).count.toNat + 1 < 2 ^ 32 → lost = 0) ∧
      (process t s x).1.stage1.mass w + w (carried t s x).1 * (carried t s x).2.toNat + lost =
        s.stage1.mass w + w (source x) := by
  have hw := mass_write (w := w) s.stage1 (index_lt (t.stage1Hash (source x)))
    ((s.stage1.slotOf t.stage1Hash (source x)).enter (source x))
  rw [stage1_process]
  by_cases ht : (s.stage1.slotOf t.stage1Hash (source x)).Takes (source x)
  · obtain ⟨lost, hlost, heq⟩ := Slot.mass_enter_of_takes (w := w) (h.slotOf _ _) ht
    refine ⟨lost, hlost, ?_⟩
    rw [carried_eq_zero ht]
    simp only [Stage.slotOf] at hw heq ⊢
    simp
    omega
  · have heq := Slot.mass_enter_of_not_takes (w := w) ht
    refine ⟨0, fun _ => rfl, ?_⟩
    rw [carried_eq_slot ht]
    simp only [Stage.slotOf] at hw heq ⊢
    omega

/-- The second stage takes in what it is handed or discards as much. -/
theorem mass_stage2 (h : s.stage2.Clean) (hs : Settled t s x) :
    ∃ lost, ((∀ k, w k = 1) →
        (s.stage2.slotOf t.stage2Hash (carried t s x).1).count.toNat + (carried t s x).2.toNat <
          2 ^ 32 → lost = discards t s x) ∧
      (process t s x).1.stage2.mass w + lost =
        s.stage2.mass w + w (carried t s x).1 * (carried t s x).2.toNat := by
  have hw := mass_write (w := w) s.stage2 (index_lt (t.stage2Hash (carried t s x).1))
    ((s.stage2.slotOf t.stage2Hash (carried t s x).1).merge (carried t s x).1 (carried t s x).2)
  rw [stage2_process]
  by_cases ht : (s.stage2.slotOf t.stage2Hash (carried t s x).1).Takes (carried t s x).1
  · obtain ⟨lost, hlost, heq⟩ := Slot.mass_merge_of_takes (w := w) (h.slotOf _ _) hs.carried ht
    refine ⟨lost, fun _ hc => ?_, ?_⟩
    · rw [hlost hc, discards, Slot.discards, if_pos ht]
    · simp only [Stage.slotOf] at hw heq ⊢
      omega
  · obtain ⟨loser, heq⟩ := Slot.mass_merge_of_not_takes (w := w) ht (carried t s x).2
    refine ⟨w loser * discards t s x, fun hone _ => ?_, ?_⟩
    · rw [hone, Nat.one_mul]
    · simp only [discards, Stage.slotOf] at hw heq ⊢
      omega

/-- A packet adds one to what is accounted for, less what is lost. -/
theorem mass_process (h : s.Clean) (hs : Settled t s x) :
    ∃ lost, ((∀ k, w k = 1) → s.mass w + 1 < 2 ^ 32 → lost = discards t s x) ∧
      (process t s x).1.mass w + lost = s.mass w + w (source x) := by
  obtain ⟨lost1, hlost1, heq1⟩ := mass_stage1 (t := t) (x := x) (w := w) h.stage1
  obtain ⟨lost2, hlost2, heq2⟩ := mass_stage2 (w := w) h.stage2 hs
  refine ⟨lost1 + lost2, fun hone hsmall => ?_, ?_⟩
  · obtain rfl : w = fun _ => 1 := funext hone
    have hcount1 := Stage.count_le_mass h.stage1 t.stage1Hash (source x)
    have hcount2 := Stage.count_le_mass h.stage2 t.stage2Hash (carried t s x).1
    simp only [Nat.one_mul] at heq1
    rw [Switch.mass] at hsmall
    have h1 := hlost1 (by omega)
    have h2 := hlost2 hone (by omega)
    omega
  · simp only [Switch.mass]
    omega

end Step

section Stage2

variable (t : Tables) (s : Stage) (m : TrackingMetadata)

def Slot.flow (l : Slot) : BitVec 32 × BitVec 32 := (l.key, l.count)

def TrackingMetadata.flow (m : TrackingMetadata) : BitVec 32 × BitVec 32 :=
  (m.mKeyCarried, m.mCountCarried)

/-- A flow that comes to the second stage is merged with its own location, or the
location and the carried flow hold afterwards what they held before. -/
def Conserves : Prop :=
  if (s.slotOf t.stage2Hash m.mKeyCarried).key = m.mKeyCarried then
    ((doStage2 t s m).1.slotOf t.stage2Hash m.mKeyCarried).flow =
        (m.mKeyCarried, (s.slotOf t.stage2Hash m.mKeyCarried).count + m.mCountCarried) ∧
      (doStage2 t s m).2.flow = (0#32, 0#32)
  else
    ({((doStage2 t s m).1.slotOf t.stage2Hash m.mKeyCarried).flow, (doStage2 t s m).2.flow} :
      Multiset (BitVec 32 × BitVec 32)) = {(s.slotOf t.stage2Hash m.mKeyCarried).flow, m.flow}

theorem slotOf_doStage2 : (doStage2 t s m).1.slotOf t.stage2Hash m.mKeyCarried =
    (s.slotOf t.stage2Hash m.mKeyCarried).merge m.mKeyCarried m.mCountCarried := by
  rw [doStage2_eq]
  exact s.slot_write_self (index_lt _) _

/-- What the second stage carries out: nothing, or what it found. -/
theorem flow_doStage2 : (doStage2 t s m).2.flow =
    if (s.slotOf t.stage2Hash m.mKeyCarried).Takes m.mKeyCarried then (0#32, 0#32)
    else (s.slotOf t.stage2Hash m.mKeyCarried).flow := by
  by_cases hl : (s.slotOf t.stage2Hash m.mKeyCarried).Takes m.mKeyCarried
  · simp only [doStage2, TrackingMetadata.flow, TrackingMetadata.carryOn, mDiff_checkLocation]
    rw [if_pos hl]
    exact Prod.ext (if_pos hl) (if_pos hl)
  · have hv : (s.slotOf t.stage2Hash m.mKeyCarried).valid ≠ 0#1 := fun hv => hl (.inl hv)
    simp only [doStage2, TrackingMetadata.flow, TrackingMetadata.carryOn, mDiff_checkLocation]
    rw [if_neg hl]
    exact Prod.ext ((if_neg hl).trans (if_neg hv)) (if_neg hl)

/-- The second stage keeps the flows exactly where it finds the carried key, finds an
empty location without a remainder, or finds a smaller count that it replaces. A
larger count stays and is carried on as well, and the carried flow is lost. -/
theorem doStage2_conserves_iff : Conserves t s m ↔
    (s.slotOf t.stage2Hash m.mKeyCarried).key = m.mKeyCarried ∨
      ((s.slotOf t.stage2Hash m.mKeyCarried).valid = 0#1 ∧
        (s.slotOf t.stage2Hash m.mKeyCarried).flow = (0#32, 0#32)) ∨
      ((s.slotOf t.stage2Hash m.mKeyCarried).valid ≠ 0#1 ∧
        (s.slotOf t.stage2Hash m.mKeyCarried).count < m.mCountCarried) := by
  rw [Conserves, slotOf_doStage2, flow_doStage2]
  generalize s.slotOf t.stage2Hash m.mKeyCarried = l
  by_cases hk : l.key = m.mKeyCarried
  · rw [if_pos hk, if_pos (.inr hk)]
    refine iff_of_true ⟨?_, rfl⟩ (.inl hk)
    rw [Slot.merge, if_pos hk, hk]
    split_ifs <;> rfl
  rw [if_neg hk, or_iff_right hk]
  by_cases hv : l.valid = 0#1
  · -- an empty location takes the carried flow in, and its own remainder with it
    rw [if_pos (.inl hv), Slot.merge, if_pos hv]
    constructor
    · intro h
      have hmem : l.flow ∈ ({l.flow, m.flow} : Multiset (BitVec 32 × BitVec 32)) := by simp
      rw [← h, Multiset.insert_eq_cons, Multiset.mem_cons, Multiset.mem_singleton] at hmem
      rcases hmem with hmem | hmem
      · exact absurd (congrArg Prod.fst hmem) hk
      · exact .inl ⟨hv, hmem⟩
    · rintro (⟨-, h0⟩ | ⟨hv', -⟩)
      · have hc : l.count = 0#32 := congrArg Prod.snd h0
        rw [h0, hc, Multiset.pair_comm, Slot.flow, BitVec.zero_add]
        rfl
      · exact absurd hv hv'
  · rw [if_neg (fun h => h.elim hv hk), Slot.merge, if_neg hv, if_neg hk]
    by_cases hlt : l.count < m.mCountCarried
    · rw [if_pos hlt]
      exact iff_of_true (Multiset.pair_comm _ _) (.inr ⟨hv, hlt⟩)
    · rw [if_neg hlt]
      refine iff_of_false (fun h => hk ?_) fun h => h.elim (fun h => hv h.1) fun h => hlt h.2
      change ({l.flow, l.flow} : Multiset (BitVec 32 × BitVec 32)) = {l.flow, m.flow} at h
      have hflow : l.flow = m.flow := by simpa using h
      exact congrArg Prod.fst hflow

/-- A location with five packets of one source, and three of another one carried to
it: the first source leaves in both, and the second one is gone. -/
theorem doStage2_loses : ¬ ∀ (t : Tables) (s : Stage) (m : TrackingMetadata), Conserves t s m := by
  intro h
  have hc := h ⟨fun _ => 0, fun _ => 0, fun _ => none, fun _ => none, fun _ => none⟩
    (empty.write 0 ⟨1#32, 5#32, 1#1⟩) { (default : TrackingMetadata) with
      mKeyCarried := 2#32, mCountCarried := 3#32 }
  rw [Conserves] at hc
  revert hc
  decide

end Stage2

section Trace

/-- The switch, the packets it has received and what it has discarded. -/
structure State where
  switch : Switch
  trace : List (List Bool)
  discarded : ℕ

def system (t : Tables) : System State (List Bool) where
  init s := s = ⟨initial, [], 0⟩
  enabled _ _ := True
  next s x := ⟨(process t s.switch x).1, x :: s.trace, s.discarded + discards t s.switch x⟩

/-- The number of IPv4 packets from a source. -/
def received (k : BitVec 32) (trace : List (List Bool)) : ℕ :=
  trace.countP fun x => (parse x).1.ipv4Valid && source x == k

/-- The sum of the valid counters stored for a source. -/
def stored (k : BitVec 32) (s : Switch) : ℕ := s.mass (onlyKey k)

/-- The total of all valid counters. -/
def total (s : Switch) : ℕ := s.mass fun _ => 1

/-- An IPv4 packet with a source address other than zero. -/
def HasSource (x : List Bool) : Prop := (parse x).1.ipv4Valid = true ∧ source x ≠ 0#32

instance (x : List Bool) : Decidable (HasSource x) := inferInstanceAs (Decidable (_ ∧ _))

theorem source_of_not_valid {x : List Bool} (h : (parse x).1.ipv4Valid = false) :
    source x = 0#32 := by
  rw [parse, parseEthernet] at h
  rw [source, parse, parseEthernet]
  cases hx : Ethernet.extract x with
  | none => rfl
  | some y =>
    rw [hx] at h
    dsimp only at h ⊢
    split_ifs at h ⊢
    · rw [parseIpv4] at h ⊢
      cases hi : Ipv4.extract y.2 with
      | none => rfl
      | some z =>
        rw [hi] at h
        cases h
    · rfl

theorem received_cons {k : BitVec 32} {x : List Bool}
    (h : (parse x).1.ipv4Valid = true ∨ k ≠ 0#32) (trace : List (List Bool)) :
    received k (x :: trace) = received k trace + onlyKey k (source x) := by
  rw [received, List.countP_cons]
  cases hv : (parse x).1.ipv4Valid with
  | false =>
    have hk : k ≠ 0#32 := h.resolve_left (by simp [hv])
    simp [received, onlyKey, source_of_not_valid hv, hk.symm]
  | true => simp [received, onlyKey]

/-- Both stages of the behavioral model hash with the checksum; no forwarding rule is
installed. -/
def labTables : Tables where
  stage1Hash k := (csum16 (bits k)).toNat
  stage2Hash k := (csum16 (bits k)).toNat
  ipv4Lpm _ := none
  forward _ := none
  sendFrame _ := none

def labFrame (src : BitVec 32) : List Bool :=
  Ethernet.bits { (default : Ethernet) with etherType := 0x800#16 } ++
    Ipv4.bits { (default : Ipv4) with version := 4#4, ihl := 5#4, ttl := 64#8, srcAddr := src }

/-- The state after packets from these sources. -/
def labState (sources : List (BitVec 32)) : State :=
  (system labTables).run ⟨initial, [], 0⟩ (sources.map labFrame)

/-- No stray counts, and no more is stored for a source than was received from it. -/
structure Inv (s : State) : Prop where
  clean : s.switch.Clean
  stored_le : ∀ k ≠ 0#32, stored k s.switch ≤ received k s.trace

variable {t : Tables} {s : State} {x : List Bool}

theorem Inv.start : Inv ⟨initial, [], 0⟩ where
  clean := ⟨Stage.clean_empty, Stage.clean_empty⟩
  stored_le := by
    intro k _
    simp [stored, Switch.mass, initial]

theorem Inv.next (h : Inv s) (hs : Settled t s.switch x) : Inv ((system t).next s x) where
  clean := clean_process h.clean hs
  stored_le := by
    intro k hk
    obtain ⟨lost, -, heq⟩ := mass_process (w := onlyKey k) h.clean hs
    have hle := h.stored_le k hk
    change (process t s.switch x).1.mass (onlyKey k) ≤ received k (x :: s.trace)
    rw [received_cons (.inr hk)]
    rw [stored] at hle
    omega

/-- As long as no count of key zero is evicted to an empty location, the counters
of a source never exceed its packets. -/
theorem counts_uncontaminated
    (h : ((system t).restrict fun s x => Settled t s.switch x).Reachable s) {k : BitVec 32}
    (hk : k ≠ 0#32) : stored k s.switch ≤ received k s.trace := by
  have hinv : Inv s := by
    apply h.invariant
    · rintro _ rfl
      exact Inv.start
    · intro u y _ hu hy
      exact hu.next hy.2
  exact hinv.stored_le k hk

/-- A packet from 0.0.0.0 and one from 10.0.0.1, whose locations are different ones. -/
theorem counts_uncontaminated_lab :
    ((system labTables).restrict fun s x => Settled labTables s.switch x).Allowed
        ⟨initial, [], 0⟩ ([0#32, 0x0a000001#32].map labFrame) ∧
      stored 0x0a000001#32 (labState [0#32, 0x0a000001#32]).switch ≤
        received 0x0a000001#32 (labState [0#32, 0x0a000001#32]).trace := by
  have hrun : ((system labTables).restrict fun s x => Settled labTables s.switch x).Allowed
      ⟨initial, [], 0⟩ ([0#32, 0x0a000001#32].map labFrame) :=
    ⟨⟨trivial, by decide +kernel⟩, ⟨trivial, by decide +kernel⟩, trivial⟩
  have hreach := (System.Reachable.init rfl).run hrun
  rw [System.run_restrict] at hreach
  exact ⟨hrun, counts_uncontaminated hreach (by decide)⟩

/-- Packets from 0.0.0.0, 10.0.0.32 and 10.0.0.64 share their location. The count of
the first one stays behind in the second stage and is merged with that of 10.0.0.32. -/
theorem zero_contaminates :
    (system labTables).Reachable (labState [0#32, 0x0a000020#32, 0x0a000040#32]) ∧
      stored 0x0a000020#32 (labState [0#32, 0x0a000020#32, 0x0a000040#32]).switch = 2 ∧
      received 0x0a000020#32 (labState [0#32, 0x0a000020#32, 0x0a000040#32]).trace = 1 :=
  ⟨(System.Reachable.init rfl).run ⟨trivial, trivial, trivial, trivial⟩, by decide +kernel,
    by decide +kernel⟩

/-- What the counters account for, if every packet has a source. -/
structure Conserved (t : Tables) (s : State) : Prop where
  stored_le : ∀ k, stored k s.switch ≤ received k s.trace
  total_eq : total s.switch + s.discarded = s.trace.length
  last : ∀ x ∈ s.trace.head?,
    (s.switch.stage1.slotOf t.stage1Hash (source x)).key = source x ∧
      (s.switch.stage1.slotOf t.stage1Hash (source x)).valid = 1#1

/-- The keys of the first stage are sources. -/
def Keyed (s : Switch) : Prop := ∀ i < 32, (s.stage1.slot i).valid ≠ 0#1 → (s.stage1.slot i).key ≠ 0#32

theorem Keyed.settled (h : Keyed s.switch) (x : List Bool) : Settled t s.switch x := by
  rintro ⟨hk, -, ht, -⟩
  exact h _ (index_lt _) (fun hv => ht (.inl hv)) hk

theorem Keyed.next (h : Keyed s.switch) (hx : source x ≠ 0#32) : Keyed (process t s.switch x).1 := by
  intro i hi
  rw [stage1_process]
  by_cases he : (index (t.stage1Hash (source x))).toNat = i
  · subst i
    rw [Stage.slot_write_self _ hi]
    exact fun _ => hx
  · rw [Stage.slot_write_of_ne _ he]
    exact h i hi

theorem Conserved.next (hc : Conserved t s) (hclean : s.switch.Clean) (hk : Keyed s.switch)
    (hx : (parse x).1.ipv4Valid = true) (hlen : s.trace.length + 1 < 2 ^ 32) :
    Conserved t ((system t).next s x) where
  stored_le := by
    intro k
    obtain ⟨lost, -, heq⟩ := mass_process (w := onlyKey k) hclean (hk.settled (t := t) x)
    have hle := hc.stored_le k
    change (process t s.switch x).1.mass (onlyKey k) ≤ received k (x :: s.trace)
    rw [received_cons (.inl hx)]
    rw [stored] at hle
    omega
  total_eq := by
    obtain ⟨lost, hlost, heq⟩ := mass_process (w := fun _ => 1) hclean (hk.settled (t := t) x)
    have htotal := hc.total_eq
    rw [total] at htotal
    have hdiscards := hlost (fun _ => rfl) (by omega)
    change (process t s.switch x).1.mass (fun _ => 1) + (s.discarded + discards t s.switch x) =
      s.trace.length + 1
    omega
  last := by
    intro y hy
    obtain rfl : x = y := by simpa [system] using hy
    change ((process t s.switch x).1.stage1.slotOf t.stage1Hash (source x)).key = _ ∧
      ((process t s.switch x).1.stage1.slotOf t.stage1Hash (source x)).valid = _
    rw [stage1_process, Stage.slotOf, Stage.slot_write_self _ (index_lt _)]
    exact ⟨rfl, rfl⟩

/-- After every packet of a trace with fewer than 2^32 packets, all with a source:
the counters of a source do not exceed its packets, the counters and what was discarded
make up the packets, and the last source is in its location of the first stage. -/
theorem counts_conserved (h : (system t).Reachable s) (hsource : ∀ x ∈ s.trace, HasSource x)
    (hlen : s.trace.length < 2 ^ 32) : Conserved t s := by
  have hall : s.switch.Clean ∧ Keyed s.switch ∧ Conserved t s := by
    induction h with
    | init hs =>
      subst hs
      refine ⟨Inv.start.clean, fun i _ hv => ?_, ?_, ?_, ?_⟩
      · simp [initial] at hv
      · intro k
        simp [stored, Switch.mass, initial]
      · simp [total, Switch.mass, initial]
      · simp
    | @step u x hr _ ih =>
      obtain ⟨hx, hrest⟩ := List.forall_mem_cons.mp hsource
      change u.trace.length + 1 < 2 ^ 32 at hlen
      obtain ⟨hclean, hk, hc⟩ := ih hrest (by omega)
      exact ⟨clean_process hclean (hk.settled x), hk.next hx.2, hc.next hclean hk hx.1 hlen⟩
  exact hall.2.2

/-- Two sources that share their location. -/
theorem counts_conserved_lab :
    (∀ x ∈ (labState [0x0a000020#32, 0x0a000040#32]).trace, HasSource x) ∧
      Conserved labTables (labState [0x0a000020#32, 0x0a000040#32]) := by
  have hsource : ∀ x ∈ (labState [0x0a000020#32, 0x0a000040#32]).trace, HasSource x := by
    change ∀ x ∈ [labFrame 0x0a000040#32, labFrame 0x0a000020#32], HasSource x
    simp only [List.forall_mem_cons]
    exact ⟨by decide +kernel, by decide +kernel, by simp⟩
  exact ⟨hsource, counts_conserved ((System.Reachable.init rfl).run ⟨trivial, trivial, trivial⟩)
    hsource (by decide +kernel)⟩

end Trace

end P4Survey.HashPipe
