import P4Survey.Lib.Residue
import P4Survey.Speedlight.Network
import P4Survey.Speedlight.Wrap

/-! # Channels and their last identifiers

The identifiers on a channel stand for unbounded numbers that do not decrease,
and packets carry them modulo `K`. The numbers that the units of one direction
have been given and that the channels into them have carried are on record, and
the registers hold their residues.
-/

namespace P4Survey.Speedlight
open Lib

/-- The largest of the numbers, zero if there are none. -/
def top (l : List ℕ) : ℕ := l.foldr max 0

@[simp] theorem top_cons (a : ℕ) (l : List ℕ) : top (a :: l) = max a (top l) := rfl

/-- The last number that was added. -/
def newest (l : List ℕ) : ℕ := l.headD 0

@[simp] theorem newest_cons (a : ℕ) (l : List ℕ) : newest (a :: l) = a := rfl

section Compare

variable {K L P R : ℕ}

/-- Where both have wrapped or neither has, the residues give the case. -/
theorem caseOf_mod (hP : InWindow K L P) (hR : InWindow K L R)
    (h : Wrapped K L R ↔ Wrapped K L P) : caseOf (R % K) (P % K) = caseOf R P := by
  unfold caseOf
  simp only [hP.eq_iff hR h.symm, hR.lt_iff hP h]

theorem caseOf_of_lt {held packet : ℕ} (h : held < packet) : caseOf held packet = 1#2 :=
  caseOf_eq_one.mpr h

theorem caseOf_of_gt {held packet : ℕ} (h : packet < held) : caseOf held packet = 2#2 := by
  unfold caseOf
  rw [if_neg h.ne, if_neg h.not_gt]

/-- The comparison with the last identifier of the channel is the unbounded one. -/
theorem wrapCase_mod (hP : InWindow K L P) (hR : InWindow K L R) :
    Pass.wrapCase (L % K) (R % K) (P % K) = caseOf R P := by
  unfold Pass.wrapCase Pass.rolloverCase Pass.noRolloverCase
  by_cases hwP : P % K < L % K
  · rw [if_pos hwP]
    by_cases hwR : R % K < L % K
    · rw [if_pos hwR]
      exact caseOf_mod hP hR (iff_of_true hwR hwP)
    · rw [if_neg hwR, caseOf_of_lt (hR.lt_of_wrapped hP hwR hwP)]
  · rw [if_neg hwP]
    by_cases hwR : R % K < L % K
    · rw [if_pos hwR, caseOf_of_gt (hP.lt_of_wrapped hR hwP hwR)]
    · rw [if_neg hwR]
      exact caseOf_mod hP hR (iff_of_false hwR hwP)

/-- Without the test the comparison is the unbounded one unless the packet has wrapped and is
not behind the unit. -/
theorem noRolloverCase_mod (hP : InWindow K L P) (hR : InWindow K L R)
    (h : Wrapped K L P → P < R) :
    Pass.noRolloverCase (L % K) (R % K) (P % K) = caseOf R P := by
  unfold Pass.noRolloverCase
  by_cases hwR : R % K < L % K
  · rw [if_pos hwR]
    by_cases hwP : P % K < L % K
    · rw [caseOf_of_gt (h hwP)]
    · rw [caseOf_of_gt (hP.lt_of_wrapped hR hwP hwR)]
  · have hwP : ¬P % K < L % K := by
      intro hwP
      exact absurd (h hwP) (hR.lt_of_wrapped hP hwR hwP).not_gt
    rw [if_neg hwR]
    exact caseOf_mod hP hR (iff_of_false hwR hwP)

end Compare

section Track

variable {C : Config} {neighbors : ℕ}

/-- Where the last identifiers of the channels into the units are kept. The origin of a channel
is a port, or nothing for the control plane. -/
abbrev Cells : Type := BitVec 9 → Option (BitVec 9) → Option ℕ

/-- Each channel has a cell of its own. -/
structure Separate (C : Config) (cell : Cells) (neighbors : ℕ) : Prop where
  lt : ∀ {p o i}, C.HasPort p → cell p o = some i → i < neighbors
  inj : ∀ {p o p' o' i}, C.HasPort p → C.HasPort p' → cell p o = some i → cell p' o' = some i →
    p' = p ∧ o' = o

/-- The registers of one direction hold the residues of what is on record. -/
structure Tracks (K : ℕ) (r : Regs C neighbors) (cell : Cells) (given : BitVec 9 → List ℕ)
    (seen : BitVec 9 → Option (BitVec 9) → List ℕ) : Prop where
  held : ∀ p, C.HasPort p → (r.heldId p).toNat = top (given p) % K
  lastSeen : ∀ p o i, C.HasPort p → cell p o = some i →
    (r.lastSeen.read i).toNat = newest (seen p o) % K
  le : ∀ p o, newest (seen p o) ≤ top (given p)

/-- A number added to what a unit was given. -/
def record (f : BitVec 9 → List ℕ) (p : BitVec 9) (P : ℕ) : BitVec 9 → List ℕ :=
  Function.update f p (P :: f p)

/-- A number added to what a channel has carried. -/
def carry (f : BitVec 9 → Option (BitVec 9) → List ℕ) (p : BitVec 9) (o : Option (BitVec 9))
    (P : ℕ) : BitVec 9 → Option (BitVec 9) → List ℕ :=
  Function.update f p (Function.update (f p) o (P :: f p o))

theorem record_self (f : BitVec 9 → List ℕ) (p : BitVec 9) (P : ℕ) : record f p P p = P :: f p :=
  Function.update_self _ _ _

theorem record_of_ne (f : BitVec 9 → List ℕ) {p q : BitVec 9} (h : q ≠ p) (P : ℕ) :
    record f p P q = f q :=
  Function.update_of_ne h _ _

theorem carry_self (f : BitVec 9 → Option (BitVec 9) → List ℕ) (p : BitVec 9)
    (o : Option (BitVec 9)) (P : ℕ) : carry f p o P p o = P :: f p o := by
  rw [carry, Function.update_self, Function.update_self]

theorem carry_of_ne (f : BitVec 9 → Option (BitVec 9) → List ℕ) {p q : BitVec 9}
    {o o' : Option (BitVec 9)} (h : ¬(q = p ∧ o' = o)) (P : ℕ) : carry f p o P q o' = f q o' := by
  unfold carry
  by_cases hq : q = p
  · subst q
    rw [Function.update_self, Function.update_of_ne fun ho => h ⟨rfl, ho⟩]
  · rw [Function.update_of_ne hq]

variable {K P : ℕ} {r r' : Regs C neighbors} {cell : Cells} {given : BitVec 9 → List ℕ}
  {seen : BitVec 9 → Option (BitVec 9) → List ℕ} {p : BitVec 9} {o : Option (BitVec 9)} {i : ℕ}
  {packet : BitVec 16} {c : BitVec 2}

theorem heldId_of_updates (hp : C.HasPort p) (hu : Pass.Updates r r' i p packet c) :
    r'.heldId p = if c = 1#2 then packet else r.heldId p := by
  rw [Regs.heldId, hu.snapshotId]
  split_ifs
  · exact Register.read_write_self _ (Nat.lt_succ_of_le hp.2) _
  · rfl

theorem heldId_of_updates_ne {q : BitVec 9} (hq : q ≠ p) (hu : Pass.Updates r r' i p packet c) :
    r'.heldId q = r.heldId q := by
  have hne : p.toNat ≠ q.toNat := fun h => hq (BitVec.eq_of_toNat_eq h.symm)
  rw [Regs.heldId, hu.snapshotId]
  split_ifs
  · exact Register.read_write_of_ne _ hne _
  · rfl

/-- A unit that decides by the plain comparison holds the largest identifier. -/
theorem le_heldId_of_updates (hp : C.HasPort p)
    (hu : Pass.Updates r r' i p packet (caseOf (r.heldId p).toNat packet.toNat)) :
    packet ≤ r'.heldId p ∧ r.heldId p ≤ r'.heldId p := by
  rw [heldId_of_updates hp hu]
  split_ifs with h1
  · rw [caseOf_eq_one] at h1
    exact ⟨BitVec.le_refl _, BitVec.le_of_lt h1⟩
  · rw [caseOf_eq_one] at h1
    exact ⟨BitVec.not_lt.mp h1, BitVec.le_refl _⟩

/-- Nothing is on record at the start. -/
theorem Tracks.start (K : ℕ) (cell : Cells) :
    Tracks K (Regs.zero C neighbors) cell (fun _ => []) (fun _ _ => []) where
  held p _ := by
    rw [show top [] = 0 from rfl, Nat.zero_mod]
    exact congrArg BitVec.toNat (Register.read_fill_zero _)
  lastSeen p o i _ _ := by
    rw [show newest [] = 0 from rfl, Nat.zero_mod]
    exact congrArg BitVec.toNat (Register.read_fill_zero _)
  le p o := le_rfl

/-- The record is about the identifiers only. -/
theorem Tracks.congr (h : Tracks K r cell given seen) (hids : r'.snapshotId = r.snapshotId)
    (hlast : r'.lastSeen = r.lastSeen) : Tracks K r' cell given seen where
  held p hp := by
    rw [Regs.heldId, hids]
    exact h.held p hp
  lastSeen p o i hp hi := by
    rw [hlast]
    exact h.lastSeen p o i hp hi
  le := h.le

/-- What is on record about a unit is in the window of each of its channels. -/
theorem Tracks.inWindow (h : Tracks K r cell given seen)
    (hR : top (given p) < newest (seen p o) + K) :
    InWindow K (newest (seen p o)) (top (given p)) := ⟨h.le p o, hR⟩

/-- A packet over a channel, decided as the unbounded comparison does, keeps the record. -/
theorem Tracks.update (hcell : Separate C cell neighbors) (h : Tracks K r cell given seen)
    (hp : C.HasPort p) (hi : cell p o = some i) (hpacket : packet.toNat = P % K)
    (hu : Pass.Updates r r' i p packet (caseOf (top (given p)) P)) :
    Tracks K r' cell (record given p P) (carry seen p o P) := by
  constructor
  · intro q hq
    by_cases hqp : q = p
    · subst q
      rw [heldId_of_updates hp hu, record_self, top_cons]
      split_ifs with h1
      · rw [caseOf_eq_one] at h1
        rw [hpacket, max_eq_left h1.le]
      · rw [caseOf_eq_one] at h1
        rw [h.held p hp, max_eq_right (Nat.not_lt.mp h1)]
    · rw [heldId_of_updates_ne hqp hu, record_of_ne _ hqp]
      exact h.held q hq
  · intro q o' i' hq hi'
    rw [hu.lastSeen]
    by_cases hqo : q = p ∧ o' = o
    · obtain ⟨rfl, rfl⟩ := hqo
      have he : i' = i := Option.some.inj (hi'.symm.trans hi)
      subst he
      rw [carry_self, newest_cons, Register.read_write_self _ (hcell.lt hq hi'), hpacket]
    · rw [carry_of_ne _ hqo]
      have hne : i ≠ i' := by
        rintro rfl
        exact hqo (hcell.inj hp hq hi hi')
      rw [Register.read_write_of_ne _ hne]
      exact h.lastSeen q o' i' hq hi'
  · intro q o'
    by_cases hqp : q = p
    · subst q
      rw [record_self, top_cons]
      by_cases ho : o' = o
      · subst o'
        rw [carry_self, newest_cons]
        exact le_max_left _ _
      · rw [carry_of_ne _ fun h => ho h.2]
        exact (h.le _ o').trans (le_max_right _ _)
    · rw [record_of_ne _ hqp, carry_of_ne _ fun h => hqp h.1]
      exact h.le q o'

end Track

section Cells

variable (C : Config)

/-- The cells of the channels into the ingress units, from the link of the port and from the
control plane. -/
def cellIng : Cells := fun p o =>
  if p.toNat ≤ 256 then
    match o with
    | none => some (Config.lastSeenIng 2#2 p.toNat)
    | some q => if q = p then some (Config.lastSeenIng 1#2 p.toNat) else none
  else none

/-- The cells of the channels into the egress units, from the other ports and from the control
plane. -/
def cellEgr : Cells := fun p o =>
  match o with
  | none => some (C.lastSeenEgr p.toNat 0)
  | some q => if C.HasPort q ∧ q ≠ p then some (C.lastSeenEgr p.toNat q.toNat) else none

/-- The channel of a packet into a unit. -/
def origin (h : Headers) (port : BitVec 9) : Option (BitVec 9) :=
  if h.IsInitiation then none else some port

variable {C}

/-- Up to port 256 the rules find the cell of the channel. -/
theorem tiLastSeenIndex_eq {p : BitVec 9} (hp : C.HasPort p) (hle : p.toNat ≤ 256)
    {feature : BitVec 2} (hfeature : feature = 1#2 ∨ feature = 2#2) :
    Pass.tiLastSeenIndex C p feature = some (Config.lastSeenIng feature p.toNat) := by
  have hfind : ((List.range' 1 C.ports).find? fun q => q % 256 = p.toNat % 256) = some p.toNat := by
    rw [List.find?_range'_eq_some]
    have hpos := hp.1
    have hports := hp.2
    refine ⟨by simp, by simp; omega, ?_⟩
    intro j hj hlt
    simp only [Bool.not_eq_eq_eq_not, Bool.not_true, decide_eq_false_iff_not]
    omega
  unfold Pass.tiLastSeenIndex
  rw [if_pos hfeature.symm, hfind]
  rfl

theorem cellIng_eq {h : Headers} {port : BitVec 9} (hp : C.HasPort (h.unitPort port))
    (hle : (h.unitPort port).toNat ≤ 256) (hfeature : h.feature ≠ 0#2) :
    ∃ i, cellIng (h.unitPort port) (origin h port) = some i ∧
      Pass.tiLastSeenIndex C (h.unitPort port) h.feature = some i := by
  have h12 := h.feature_cases.resolve_left hfeature
  refine ⟨_, ?_, tiLastSeenIndex_eq hp hle h12⟩
  unfold cellIng origin
  rw [if_pos hle]
  by_cases hi : h.IsInitiation
  · rw [if_pos hi, h.feature_eq_two.mpr hi]
  · have h1 : h.feature = 1#2 := h12.resolve_right fun h2 => hi (h.feature_eq_two.mp h2)
    have hport : h.unitPort port = port := if_neg hi
    rw [if_neg hi, h1, hport]
    simp

theorem cellIng_cases {p : BitVec 9} {o : Option (BitVec 9)} {i : ℕ} (h : cellIng p o = some i) :
    (o = none ∧ i = (p.toNat - 1) * 2) ∨ (o = some p ∧ i = (p.toNat - 1) * 2 + 1) := by
  unfold cellIng at h
  by_cases hle : p.toNat ≤ 256
  · rw [if_pos hle] at h
    cases o with
    | none => exact .inl ⟨rfl, (Option.some.inj h).symm⟩
    | some q =>
      dsimp only at h
      split_ifs at h with hq
      exact .inr ⟨congrArg some hq, (Option.some.inj h).symm⟩
  · rw [if_neg hle] at h
    cases h

theorem separate_cellIng : Separate C cellIng C.neighborsIng := by
  constructor
  · intro p o i hp hi
    have hports := hp.2
    have hpos := hp.1
    unfold Config.neighborsIng
    rcases cellIng_cases hi with ⟨-, rfl⟩ | ⟨-, rfl⟩
    · omega
    · omega
  · intro p o p' o' i hp hp' hi hi'
    have hpos := hp.1
    have hpos' := hp'.1
    rcases cellIng_cases hi with ⟨rfl, rfl⟩ | ⟨rfl, rfl⟩
    · rcases cellIng_cases hi' with ⟨rfl, he⟩ | ⟨rfl, he⟩
      · exact ⟨BitVec.eq_of_toNat_eq (by omega), rfl⟩
      · omega
    · rcases cellIng_cases hi' with ⟨rfl, he⟩ | ⟨rfl, he⟩
      · omega
      · have hpp : p' = p := BitVec.eq_of_toNat_eq (by omega)
        exact ⟨hpp, congrArg some hpp⟩

/-- The cells of one egress unit, the first for the control plane. -/
theorem cellEgr_cases {p : BitVec 9} (hp : C.HasPort p) {o : Option (BitVec 9)} {i : ℕ}
    (h : cellEgr C p o = some i) :
    ∃ k < C.ports, i = (p.toNat - 1) * C.ports + k ∧
      ((o = none ∧ k = 0) ∨
        ∃ q, o = some q ∧ q ≠ p ∧ (q.toNat < p.toNat ∧ k = q.toNat ∨ p.toNat < q.toNat ∧ k + 1 = q.toNat) ∧
          0 < k) := by
  have hpos := hp.1
  have hle := hp.2
  unfold cellEgr Config.lastSeenEgr at h
  cases o with
  | none =>
    refine ⟨0, by omega, ?_, .inl ⟨rfl, rfl⟩⟩
    rw [← Option.some.inj h, if_pos (by omega)]
  | some q =>
    dsimp only at h
    split_ifs at h with hq hlt
    · have hqpos := hq.1.1
      refine ⟨q.toNat, by omega, (Option.some.inj h).symm, .inr ⟨q, rfl, hq.2, .inl ⟨hlt, rfl⟩, hqpos⟩⟩
    · have hqle := hq.1.2
      have hne : q.toNat ≠ p.toNat := fun h => hq.2 (BitVec.eq_of_toNat_eq h)
      refine ⟨q.toNat - 1, by omega, ?_, .inr ⟨q, rfl, hq.2, .inr ⟨by omega, by omega⟩, by omega⟩⟩
      rw [← Option.some.inj h]
      omega

theorem separate_cellEgr : Separate C (cellEgr C) C.neighborsEgr := by
  constructor
  · intro p o i hp hi
    obtain ⟨k, hk, rfl, -⟩ := cellEgr_cases hp hi
    have hmul : (p.toNat - 1 + 1) * C.ports ≤ C.ports * C.ports :=
      Nat.mul_le_mul_right _ (by have hpos := hp.1; have hle := hp.2; omega)
    rw [Nat.succ_mul] at hmul
    unfold Config.neighborsEgr
    omega
  · intro p o p' o' i hp hp' hi hi'
    obtain ⟨k, hk, rfl, ho⟩ := cellEgr_cases hp hi
    obtain ⟨k', hk', he, ho'⟩ := cellEgr_cases hp' hi'
    obtain ⟨hrow, hcol⟩ := mul_add_inj hk' hk he.symm
    have hpos := hp.1
    have hpos' := hp'.1
    have hpp : p' = p := BitVec.eq_of_toNat_eq (by omega)
    subst hpp hcol
    refine ⟨rfl, ?_⟩
    rcases ho with ⟨rfl, hk0⟩ | ⟨q, rfl, hq, hside, hkpos⟩
    · rcases ho' with ⟨rfl, -⟩ | ⟨q', rfl, hq', hside', hkpos'⟩
      · rfl
      · omega
    · rcases ho' with ⟨rfl, hk0⟩ | ⟨q', rfl, hq', hside', hkpos'⟩
      · omega
      · exact congrArg some (BitVec.eq_of_toNat_eq (by omega))

/-- A packet that did not come in by the same port has a cell, and the rules find it. -/
theorem cellEgr_eq {h : Headers} {p : BitVec 9} (hp : C.HasPort p)
    (hinit : h.IsInitiation → h.snapshotHeader.portId = p)
    (hother : ¬h.IsInitiation → C.HasPort h.snapshotHeader.portId ∧ h.snapshotHeader.portId ≠ p) :
    ∃ i, cellEgr C p (origin h h.snapshotHeader.portId) = some i ∧
      Pass.teLastSeenIndex C p h.snapshotHeader.portId h.ipv4Option.option = some i := by
  unfold cellEgr origin Pass.teLastSeenIndex
  rw [if_pos hp]
  by_cases hi : h.IsInitiation
  · rw [if_pos hi, hinit hi, if_neg fun hne => hne.2 rfl, if_pos hi.2]
    exact ⟨_, rfl, rfl⟩
  · rw [if_neg hi]
    dsimp only
    rw [if_pos (hother hi)]
    exact ⟨_, rfl, if_pos (hother hi)⟩

end Cells

end P4Survey.Speedlight
