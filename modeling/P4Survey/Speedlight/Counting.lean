import P4Survey.Speedlight.Pipeline

/-! # What a processing unit does with a packet

Each port has an ingress and an egress unit. Whichever way a packet takes through
the tables, the unit counts it, moves to the identifier of the packet if that is
larger than its own, and saves its count when it moves.
-/

namespace P4Survey.Speedlight
open Lib

/-- The case of a packet that carries `packet` at a unit that holds `held`. -/
def caseOf (held packet : ℕ) : BitVec 2 :=
  if packet = held then 0#2 else if held < packet then 1#2 else 2#2

/-- The case from the two tests that the rules make. -/
theorem caseOf_eq (a b : ℕ) :
    caseOf a b = if a ≤ b ∧ b ≤ a then 0#2 else if a ≤ b then 1#2 else 2#2 := by
  unfold caseOf
  rcases Nat.lt_trichotomy a b with h | h | h
  · rw [if_neg (by omega), if_pos h, if_neg (by omega), if_pos (by omega)]
  · rw [if_pos h.symm, if_pos (by omega)]
  · rw [if_neg (by omega), if_neg (by omega), if_neg (by omega), if_neg (by omega)]

theorem caseOf_eq_one {held packet : ℕ} : caseOf held packet = 1#2 ↔ held < packet := by
  unfold caseOf
  split_ifs with h h'
  · simp [h]
  · simp [h']
  · simp [h']

theorem satSub_eq_zero {w : ℕ} (a b : BitVec w) : satSub a b = 0#w ↔ a ≤ b := by
  unfold satSub
  split_ifs with h
  · simp [BitVec.le_of_lt h]
  · rw [BitVec.not_lt] at h
    rw [BitVec.sub_eq_iff_eq_add, BitVec.zero_add]
    constructor
    · rintro rfl
      exact BitVec.le_refl _
    · intro hle
      exact BitVec.le_antisymm hle h

/-- The row and the column of an index. -/
theorem mul_add_inj {n a b a' b' : ℕ} (hb : b < n) (hb' : b' < n) (h : a * n + b = a' * n + b') :
    a = a' ∧ b = b' := by
  have hpos : 0 < n := Nat.zero_lt_of_lt hb
  have hrow := (Nat.div_mod_unique hpos).mpr ⟨Nat.add_comm b (n * a), hb⟩
  have hrow' := (Nat.div_mod_unique hpos).mpr ⟨Nat.add_comm b' (n * a'), hb'⟩
  rw [Nat.mul_comm n a, h] at hrow
  rw [Nat.mul_comm n a'] at hrow'
  exact ⟨hrow.1.symm.trans hrow'.1, hrow.2.symm.trans hrow'.2⟩

theorem Config.HasPort.ne_cpuPort {C : Config} {p : BitVec 9} (hp : C.HasPort p) : p ≠ cpuPort := by
  rintro rfl
  exact absurd hp.1 (by decide)

section Units

variable {C : Config} {neighbors : ℕ}

namespace Regs

variable (r : Regs C neighbors) (p : BitVec 9)

/-- The identifier a unit holds. -/
def heldId : BitVec 16 := r.snapshotId.read p.toNat

/-- The number a unit saved when it moved to an identifier. -/
def saved (i : BitVec 16) : BitVec 32 := r.snapshotValue.read (valueIndex C i p)

/-- The unit of port `p` counts a packet that gives it the identifier `given`. -/
def count (given : BitVec 16) : Regs C neighbors :=
  { r with
    counter := r.counter.write p.toNat (r.counter.read p.toNat + 1#32)
    snapshotId := if r.heldId p < given then r.snapshotId.write p.toNat given else r.snapshotId
    snapshotValue :=
      if r.heldId p < given then
        r.snapshotValue.write (valueIndex C given p) (r.counter.read p.toNat)
      else r.snapshotValue }

variable {r p}

theorem heldId_count (r : Regs C neighbors) (p : BitVec 9) (given : BitVec 16) (q : BitVec 9) :
    (r.count p given).heldId q =
      if r.heldId p < given then (r.snapshotId.write p.toNat given).read q.toNat
      else r.heldId q := by
  change Register.read (if r.heldId p < given then _ else _) _ = _
  split_ifs
  · rfl
  · rfl

theorem heldId_count_self (hp : C.HasPort p) (given : BitVec 16) :
    (r.count p given).heldId p = if r.heldId p < given then given else r.heldId p := by
  rw [heldId_count, Register.read_write_self _ (Nat.lt_succ_of_le hp.2)]

theorem heldId_count_of_ne {q : BitVec 9} (hne : p ≠ q) (given : BitVec 16) :
    (r.count p given).heldId q = r.heldId q := by
  have hne' : p.toNat ≠ q.toNat := fun h => hne (BitVec.eq_of_toNat_eq h)
  rw [heldId_count, Register.read_write_of_ne _ hne']
  exact ite_self _

theorem counter_count_self (hp : C.HasPort p) (given : BitVec 16) :
    (r.count p given).counter.read p.toNat = r.counter.read p.toNat + 1#32 :=
  Register.read_write_self _ (Nat.lt_succ_of_le hp.2) _

theorem counter_count_of_ne {q : BitVec 9} (hne : p ≠ q) (given : BitVec 16) :
    (r.count p given).counter.read q.toNat = r.counter.read q.toNat :=
  Register.read_write_of_ne _ (fun h => hne (BitVec.eq_of_toNat_eq h)) _

theorem valueIndex_lt (hp : C.HasPort p) {i : BitVec 16} (hi : i.toNat < C.snapshots) :
    valueIndex C i p < C.snapshots * C.ports := by
  have hmul : (i.toNat + 1) * C.ports ≤ C.snapshots * C.ports := Nat.mul_le_mul_right _ hi
  have hpos := hp.1
  have hle := hp.2
  rw [Nat.succ_mul] at hmul
  unfold valueIndex
  omega

/-- Each port and each identifier have a cell of their own. -/
theorem valueIndex_inj {q : BitVec 9} (hp : C.HasPort p) (hq : C.HasPort q) {i j : BitVec 16}
    (h : valueIndex C i p = valueIndex C j q) : i = j ∧ p = q := by
  have hppos := hp.1
  have hqpos := hq.1
  have hple := hp.2
  have hqle := hq.2
  have hsum : i.toNat * C.ports + (p.toNat - 1) = j.toNat * C.ports + (q.toNat - 1) := by
    unfold valueIndex at h
    omega
  obtain ⟨hrow, hcol⟩ := mul_add_inj (by omega) (by omega) hsum
  exact ⟨BitVec.eq_of_toNat_eq hrow, BitVec.eq_of_toNat_eq (by omega)⟩

/-- When a unit moves, it saves what it has counted. -/
theorem saved_count_self (hp : C.HasPort p) {given : BitVec 16} (hi : given.toNat < C.snapshots)
    (hmove : r.heldId p < given) : (r.count p given).saved p given = r.counter.read p.toNat := by
  simp only [saved, count, if_pos hmove]
  exact Register.read_write_self _ (valueIndex_lt hp hi) _

/-- Nothing else that was saved changes. -/
theorem saved_count_of_ne (hp : C.HasPort p) {q : BitVec 9} (hq : C.HasPort q)
    {given i : BitVec 16} (hne : p = q → r.heldId p < given → given ≠ i) :
    (r.count p given).saved q i = r.saved q i := by
  by_cases hmove : r.heldId p < given
  · simp only [saved, count, if_pos hmove]
    apply Register.read_write_of_ne
    intro he
    obtain ⟨hi, hpq⟩ := valueIndex_inj hp hq he
    exact hne hpq hmove hi
  · simp only [saved, count, if_neg hmove]

/-- A packet without an identifier gives the unit the one it holds. -/
theorem count_heldId (r : Regs C neighbors) (p : BitVec 9) :
    r.count p (r.heldId p) =
      { r with counter := r.counter.write p.toNat (r.counter.read p.toNat + 1#32) } := by
  simp only [count, if_neg (BitVec.lt_irrefl _)]

end Regs

namespace Pass

/-- The fields that counting and taking a snapshot leave alone. -/
structure Kept (x y : Pass C neighbors) : Prop where
  hdr : y.hdr = x.hdr
  effectivePort : y.md.effectivePort = x.md.effectivePort
  snapshotFeature : y.md.snapshotFeature = x.md.snapshotFeature
  egressSpec : y.egressSpec = x.egressSpec
  egressPort : y.egressPort = x.egressPort
  dropped : y.dropped = x.dropped

theorem Kept.trans {x y z : Pass C neighbors} (h : Kept x y) (h' : Kept y z) : Kept x z :=
  ⟨h'.hdr.trans h.hdr, h'.effectivePort.trans h.effectivePort,
    h'.snapshotFeature.trans h.snapshotFeature, h'.egressSpec.trans h.egressSpec,
    h'.egressPort.trans h.egressPort, h'.dropped.trans h.dropped⟩

variable (x : Pass C neighbors)

theorem tSetSnapshotCase_kept : Kept x (tSetSnapshotCase x) ∧
    (tSetSnapshotCase x).regs = x.regs ∧ (tSetSnapshotCase x).md.currentId = x.md.currentId ∧
      (tSetSnapshotCase x).md.currentReading = x.md.currentReading := by
  unfold tSetSnapshotCase
  split_ifs <;> exact ⟨⟨rfl, rfl, rfl, rfl, rfl, rfl⟩, rfl, rfl, rfl⟩

/-- The rules find the case from the two saturating differences. -/
theorem tSetSnapshotCase_case (a b : BitVec 16) (hs : x.md.switchGreater = satSub a b)
    (hp : x.md.packetGreater = satSub b a) :
    (tSetSnapshotCase x).md.snapshotCase = caseOf a.toNat b.toNat := by
  rw [caseOf_eq]
  unfold tSetSnapshotCase
  simp only [hs, hp, satSub_eq_zero, BitVec.le_def]
  split_ifs with h h' h''
  · rfl
  · rfl
  · rfl
  · omega

theorem tSendNotification_kept (messageType : BitVec 8) :
    Kept x (tSendNotification messageType x) ∧
      (tSendNotification messageType x).regs = x.regs ∧
      (tSendNotification messageType x).md = x.md := by
  unfold tSendNotification aSendNotification
  split_ifs <;> exact ⟨⟨rfl, rfl, rfl, rfl, rfl, rfl⟩, rfl, rfl⟩

/-- A snapshot is taken exactly for a packet with a larger identifier. -/
theorem tTakeSnapshot_eq {x : Pass C neighbors} {a : BitVec 16} (hport : C.HasPort x.md.effectivePort)
    (hid : x.hdr.snapshotHeader.snapshotId.toNat ≤ C.snapshots)
    (hcase : x.md.snapshotCase = caseOf a.toNat x.hdr.snapshotHeader.snapshotId.toNat) :
    tTakeSnapshot x = if a < x.hdr.snapshotHeader.snapshotId then
      x.aTakeSnapshot (valueIndex C x.hdr.snapshotHeader.snapshotId x.md.effectivePort) else x := by
  have hiff : x.md.snapshotCase = 1#2 ↔ a < x.hdr.snapshotHeader.snapshotId := by
    rw [hcase, caseOf_eq_one, BitVec.lt_def]
  unfold tTakeSnapshot
  simp only [hiff, hid, hport, and_true]

/-- One packet with an identifier passes through a unit. -/
theorem snapshot_eq (messageType : BitVec 8) {y : Pass C neighbors}
    (hport : C.HasPort x.md.effectivePort)
    (hid : x.hdr.snapshotHeader.snapshotId.toNat ≤ C.snapshots)
    (hy : y = tSendNotification messageType (tTakeSnapshot (tSetSnapshotCase (aCheckSnapshotCase
      (tUpdateSnapshotId (tReadAndUpdateCounter x)))))) :
    Kept x y ∧ y.regs = x.regs.count x.md.effectivePort x.hdr.snapshotHeader.snapshotId ∧
      y.md.currentId = y.regs.heldId x.md.effectivePort := by
  obtain ⟨z, hz⟩ : ∃ z, z = aCheckSnapshotCase (tUpdateSnapshotId (tReadAndUpdateCounter x)) :=
    ⟨_, rfl⟩
  have hkept : Kept x z := by
    subst z
    exact ⟨rfl, rfl, rfl, rfl, rfl, rfl⟩
  have hheld : z.md.currentId = x.regs.heldId x.md.effectivePort := by
    subst z
    rfl
  have hstart : z.regs =
      { x.regs.count x.md.effectivePort x.hdr.snapshotHeader.snapshotId with
        snapshotValue := x.regs.snapshotValue } := by
    subst z
    rfl
  obtain ⟨hcase, hregs, hcur, hread⟩ := tSetSnapshotCase_kept z
  have hchosen := tSetSnapshotCase_case z (x.regs.heldId x.md.effectivePort)
    x.hdr.snapshotHeader.snapshotId (by subst z; rfl) (by subst z; rfl)
  obtain ⟨w, hw⟩ : ∃ w, w = tSetSnapshotCase z := ⟨_, rfl⟩
  rw [← hw] at hcase hregs hcur hread hchosen
  have hkept' := hkept.trans hcase
  have htake := tTakeSnapshot_eq (x := w) (a := x.regs.heldId x.md.effectivePort)
    (by rw [hkept'.effectivePort]; exact hport) (by rw [hkept'.hdr]; exact hid)
    (by rw [hkept'.hdr]; exact hchosen)
  rw [hkept'.hdr, hkept'.effectivePort] at htake
  rw [← hz, ← hw] at hy
  obtain ⟨hsend, hsregs, hsmd⟩ := tSendNotification_kept (tTakeSnapshot w) messageType
  rw [← hy] at hsend hsregs hsmd
  by_cases hmove : x.regs.heldId x.md.effectivePort < x.hdr.snapshotHeader.snapshotId
  · rw [if_pos hmove] at htake
    have hcounted : y.regs = x.regs.count x.md.effectivePort x.hdr.snapshotHeader.snapshotId := by
      have hreading : z.md.currentReading = x.regs.counter.read x.md.effectivePort.toNat := by
        subst z
        rfl
      rw [hsregs, htake, aTakeSnapshot, hread, hregs, hstart, hreading]
      simp only [Regs.count, if_pos hmove]
    refine ⟨hkept'.trans (Kept.trans ?_ hsend), hcounted, ?_⟩
    · rw [htake]
      exact ⟨rfl, rfl, rfl, rfl, rfl, rfl⟩
    · rw [hcounted, Regs.heldId_count_self hport, if_pos hmove, hsmd, htake]
      change w.hdr.snapshotHeader.snapshotId = _
      rw [hkept'.hdr]
  · rw [if_neg hmove] at htake
    have hcounted : y.regs = x.regs.count x.md.effectivePort x.hdr.snapshotHeader.snapshotId := by
      rw [hsregs, htake, hregs, hstart]
      simp only [Regs.count, if_neg hmove]
    rw [htake] at hsend
    refine ⟨hkept'.trans hsend, hcounted, ?_⟩
    rw [hcounted, Regs.heldId_count_self hport, if_neg hmove, hsmd, htake, hcur, hheld]

end Pass

end Units

namespace Headers

/-- The value that ingress gives to `snapshot_feature`. -/
def feature (h : Headers) : BitVec 2 :=
  if h.ipv4OptionValid = true then
    if h.ipv4Option.option = ipv4OptionSs then 1#2
    else if h.ipv4Option.option = ipv4OptionSsCpu then 2#2
    else 0#2
  else 0#2

theorem feature_cases (h : Headers) : h.feature = 0#2 ∨ h.feature = 1#2 ∨ h.feature = 2#2 := by
  unfold feature
  split_ifs
  · exact .inr (.inl rfl)
  · exact .inr (.inr rfl)
  · exact .inl rfl
  · exact .inl rfl

theorem feature_eq_two (h : Headers) : h.feature = 2#2 ↔ h.IsInitiation := by
  unfold feature IsInitiation
  split_ifs with hv hs hc
  · simp [hv, hs, ipv4OptionSs, ipv4OptionSsCpu]
  · simp [hv, hc]
  · simp [hv, hc]
  · simp [hv]

/-- The port of an initiation is the one it names. -/
def unitPort (h : Headers) (ingressPort : BitVec 9) : BitVec 9 :=
  if h.IsInitiation then h.snapshotHeader.portId else ingressPort

theorem Framed.header {h : Headers} (hf : h.Framed) :
    h.snapshotHeaderValid = true ↔ h.feature ≠ 0#2 := by
  have hsnap := hf.snapshotHeader
  unfold feature
  split_ifs at hsnap ⊢ with hv hv' hs hc
  all_goals simp_all

/-- Rewriting the snapshot header and the rest of the IPv4 header keeps the frame. -/
theorem Framed.rewrite {h : Headers} (hf : h.Framed) (hv : h.snapshotHeaderValid = true)
    (ip : Ipv4) (hihl : ip.ihl = h.ipv4.ihl) (snap : SnapshotHeader) :
    Framed { h with ipv4 := ip, snapshotHeader := snap } := by
  obtain ⟨heth, htocpu, hip, hopt, hsnap⟩ := hf
  refine ⟨heth, htocpu, hip, ?_, ?_⟩
  · dsimp only
    rw [hihl]
    exact hopt
  · dsimp only
    split_ifs at hsnap ⊢
    · exact hv
    · rw [hsnap.1] at hv
      cases hv

-- stated with a variable for the header, so that no proof compares the checksum
theorem chksum_eq (h : Headers) : ∃ ip : Ipv4, ip.ihl = h.ipv4.ihl ∧
    ipv4ChksumCalcSnapshot h = { h with ipv4 := ip } := by
  refine ⟨_, ?_, by rw [ipv4ChksumCalcSnapshot]⟩
  dsimp only

end Headers

namespace Pass

variable {C : Config}

section Ingress

variable {x : Ingress C}

/-- The packet once its kind and its unit are known. -/
def classified (x : Ingress C) : Ingress C :=
  { x with
    md.snapshotFeature := x.hdr.feature
    md.effectivePort := x.hdr.unitPort x.ingressPort }

/-- The check of the option finds the kind of the packet. -/
theorem tiCheckOption_eq (h0 : x.md.snapshotFeature = 0#2) :
    (if x.hdr.ipv4OptionValid then x.tiCheckOption else x) =
      { x with md.snapshotFeature := x.hdr.feature } := by
  unfold tiCheckOption aiCheckOption Headers.feature
  split_ifs
  · rfl
  · rfl
  · rfl
  · rw [← h0]

theorem ciInitializeSS_eq (h0 : x.md.snapshotFeature = 0#2)
    (hport : C.HasPort (x.hdr.unitPort x.ingressPort)) : x.ciInitializeSS = x.classified := by
  rw [ciInitializeSS, tiCheckOption_eq h0]
  by_cases hi : x.hdr.IsInitiation
  · have h2 := x.hdr.feature_eq_two.mpr hi
    simp [tiSetEffectivePort, h2, aiFakeEffectivePort, classified, Headers.unitPort, if_pos hi]
  · rw [Headers.unitPort, if_neg hi] at hport
    rw [classified, Headers.unitPort, if_neg hi]
    have hfeature : x.hdr.feature = 1#2 ∨ x.hdr.feature = 0#2 := by
      rcases x.hdr.feature_cases with h | h | h
      · exact .inr h
      · exact .inl h
      · exact absurd (x.hdr.feature_eq_two.mp h) hi
    rw [tiSetEffectivePort, if_pos ⟨hfeature, hport⟩]
    rfl

/-- The packet `x` went through the ingress unit of port `p` and came out as `y`. -/
structure Stamps (x y : Ingress C) (p : BitVec 9) : Prop where
  effectivePort : y.md.effectivePort = p
  snapshotFeature : y.md.snapshotFeature = x.hdr.feature
  framed : y.hdr.Framed
  header : y.hdr.snapshotHeaderValid = true
  initiation : y.hdr.IsInitiation ↔ x.hdr.IsInitiation
  forwarded : x.hdr.IsInitiation → y.hdr = x.hdr ∧ y.egressSpec = p
  stamped : ¬x.hdr.IsInitiation → y.hdr.snapshotHeader.snapshotId = y.regs.heldId p ∧
    y.hdr.snapshotHeader.portId = p ∧ y.egressSpec = x.egressSpec

/-- The end of ingress for a packet from a host. -/
theorem ciAddHeader_stamps {w : Ingress C} (hf : x.hdr.Framed) (hihl : x.hdr.ipv4.ihl ≠ 3#4)
    (hfeature : x.hdr.feature = 0#2) (hkept : Kept x.classified w) :
    Stamps x (ciForward (ciAddHeader w)) (x.hdr.unitPort x.ingressPort) ∧
      (ciForward (ciAddHeader w)).regs = w.regs ∧
      (ciForward (ciAddHeader w)).md.snapshotRolloverCheck = w.md.snapshotRolloverCheck := by
  have hinit : ¬x.hdr.IsInitiation := by
    rw [← x.hdr.feature_eq_two, hfeature]
    decide
  have hcase : (ciAddHeader w).md.snapshotFeature = 0#2 := hkept.snapshotFeature.trans hfeature
  have hport : w.md.effectivePort = x.hdr.unitPort x.ingressPort := hkept.effectivePort
  have hhdr : w.hdr = x.hdr := hkept.hdr
  have hframed : w.hdr.Framed := by
    rw [hhdr]
    exact hf
  have hnext : w.hdr.ipv4.ihl + 2#4 ≠ 5#4 := by
    rw [hhdr]
    intro he
    apply hihl
    bv_omega
  have hrun : ciForward (ciAddHeader w) = aiSetSnapInfo (ciAddHeader w) := by
    rw [ciForward, hcase, if_neg (by decide)]
  rw [hrun]
  refine ⟨?_, rfl, rfl⟩
  constructor
  · exact hport
  · exact hkept.snapshotFeature
  · constructor
    · exact hframed.ethernet
    · exact hframed.tocpuNotif
    · exact hframed.ipv4
    · exact (if_neg hnext).mpr rfl
    · rfl
  · rfl
  · simp only [hinit, iff_false]
    rintro ⟨-, hoption⟩
    change ipv4OptionSs = ipv4OptionSsCpu at hoption
    exact absurd hoption (by decide)
  · exact fun hi => absurd hi hinit
  · intro _
    refine ⟨?_, hport, hkept.egressSpec⟩
    rw [← hport]
    rfl

/-- The end of ingress for a packet with a snapshot header. -/
theorem ciForward_stamps {z : Ingress C} (hf : x.hdr.Framed)
    (hport : C.HasPort (x.hdr.unitPort x.ingressPort)) (hfeature : x.hdr.feature ≠ 0#2)
    (hkept : Kept x.classified z)
    (hcur : z.md.currentId = z.regs.heldId (x.hdr.unitPort x.ingressPort)) :
    Stamps x z.ciForward (x.hdr.unitPort x.ingressPort) ∧ z.ciForward.regs = z.regs ∧
      z.ciForward.md = z.md := by
  have hheader := hf.header.mpr hfeature
  have hfeature' : z.md.snapshotFeature = x.hdr.feature := hkept.snapshotFeature
  have hhdr : z.hdr = x.hdr := hkept.hdr
  have hport' : z.md.effectivePort = x.hdr.unitPort x.ingressPort := hkept.effectivePort
  rw [ciForward, hfeature']
  by_cases hinit : x.hdr.IsInitiation
  · rw [if_pos (x.hdr.feature_eq_two.mpr hinit), tiForwardInitiation, hport', if_pos hport]
    refine ⟨?_, rfl, rfl⟩
    constructor
    · exact hport'
    · exact hfeature'
    · exact hhdr ▸ hf
    · exact hhdr ▸ hheader
    · rw [hhdr]
    · exact fun _ => ⟨hhdr, rfl⟩
    · exact fun h => absurd hinit h
  · rw [if_neg (fun h => hinit (x.hdr.feature_eq_two.mp h)), aiSetSnapInfo, hhdr]
    refine ⟨?_, rfl, rfl⟩
    constructor
    · exact hport'
    · exact hfeature'
    · exact hf.rewrite hheader x.hdr.ipv4 rfl _
    · exact hheader
    · rfl
    · exact fun h => absurd h hinit
    · exact fun _ => ⟨hcur, hport', hkept.egressSpec⟩

/-- A packet from a host gets the identifier of the unit. -/
theorem ingress_host (hf : x.hdr.Framed) (hihl : x.hdr.ipv4.ihl ≠ 3#4)
    (h0 : x.md.snapshotFeature = 0#2) (hport : C.HasPort (x.hdr.unitPort x.ingressPort))
    (hfeature : x.hdr.feature = 0#2) :
    Stamps x x.ingress (x.hdr.unitPort x.ingressPort) ∧
      x.ingress.regs = x.regs.count (x.hdr.unitPort x.ingressPort)
        (x.regs.heldId (x.hdr.unitPort x.ingressPort)) := by
  have hrun : x.ingress = ciForward (ciAddHeader (tReadAndUpdateCounter x.classified)) := by
    rw [ingress, if_pos hf.ethernet.2, ciHandleIPv4, ciInitializeSS_eq h0 hport]
    exact congrArg ciForward (if_pos hfeature)
  obtain ⟨hstamps, hregs, -⟩ := ciAddHeader_stamps (w := tReadAndUpdateCounter x.classified) hf hihl
    hfeature ⟨rfl, rfl, rfl, rfl, rfl, rfl⟩
  rw [hrun, hregs, Regs.count_heldId]
  exact ⟨hstamps, rfl⟩

/-- A packet with a snapshot header gives the unit its identifier. -/
theorem ingress_header (hf : x.hdr.Framed) (h0 : x.md.snapshotFeature = 0#2)
    (hport : C.HasPort (x.hdr.unitPort x.ingressPort))
    (hid : x.hdr.snapshotHeader.snapshotId.toNat ≤ C.snapshots) (hfeature : x.hdr.feature ≠ 0#2) :
    Stamps x x.ingress (x.hdr.unitPort x.ingressPort) ∧
      x.ingress.regs = x.regs.count (x.hdr.unitPort x.ingressPort)
        x.hdr.snapshotHeader.snapshotId := by
  obtain ⟨z, hz⟩ : ∃ z, z = ciTakeSnapshot (ciSetSnapshotCase (tReadAndUpdateCounter x.classified)) :=
    ⟨_, rfl⟩
  obtain ⟨hkept, hregs, hcur⟩ := snapshot_eq x.classified cpuNewssIngress hport hid hz
  have hrun : x.ingress = ciForward z := by
    rw [ingress, if_pos hf.ethernet.2, ciHandleIPv4, ciInitializeSS_eq h0 hport, hz]
    exact congrArg ciForward (if_neg hfeature)
  obtain ⟨hstamps, hregs', -⟩ := ciForward_stamps hf hport hfeature hkept hcur
  rw [hrun, hregs']
  exact ⟨hstamps, hregs⟩

end Ingress

section Egress

variable {x : Egress C}

/-- The packet `x` went through the egress unit of port `p` and came out as `y`. -/
structure Leaves (x y : Egress C) (p : BitVec 9) : Prop where
  effectivePort : y.md.effectivePort = p
  snapshotFeature : y.md.snapshotFeature = x.md.snapshotFeature
  initiation : x.hdr.IsInitiation → y.dropped = true
  framed : ¬x.hdr.IsInitiation → y.hdr.Framed ∧ y.hdr.snapshotHeaderValid = true ∧
    ¬y.hdr.IsInitiation
  stamped : ¬x.hdr.IsInitiation → y.dropped = false ∧
    y.hdr.snapshotHeader.snapshotId = y.regs.heldId p ∧ y.hdr.snapshotHeader.portId = p

/-- The end of egress. -/
theorem teFinalizePacket_leaves {z : Egress C} (hf : x.hdr.Framed)
    (hheader : x.hdr.snapshotHeaderValid = true) (hd : x.dropped = false)
    (hkept : Kept (x.aeSetEffectivePort x.egressPort) z)
    (hcur : z.md.currentId = z.regs.heldId x.egressPort) :
    Leaves x z.teFinalizePacket x.egressPort ∧ z.teFinalizePacket.regs = z.regs ∧
      z.teFinalizePacket.md = z.md := by
  have hvalid : x.hdr.ipv4OptionValid = true := by
    have hsnap := hf.snapshotHeader
    split_ifs at hsnap with h
    · exact h.1
    · rw [hsnap.1] at hheader
      cases hheader
  have hhdr : z.hdr = x.hdr := hkept.hdr
  have hport' : z.md.effectivePort = x.egressPort := hkept.effectivePort
  rw [teFinalizePacket, hhdr]
  by_cases hinit : x.hdr.IsInitiation
  · rw [if_pos hinit.2]
    refine ⟨?_, rfl, rfl⟩
    constructor
    · exact hport'
    · exact hkept.snapshotFeature
    · exact fun _ => rfl
    · exact fun h => absurd hinit h
    · exact fun h => absurd hinit h
  · rw [if_neg (fun h => hinit ⟨hvalid, h⟩), aeUpdateSnapshotHeader, hhdr]
    refine ⟨?_, rfl, rfl⟩
    constructor
    · exact hport'
    · exact hkept.snapshotFeature
    · exact fun h => absurd h hinit
    · exact fun _ => ⟨hf.rewrite hheader { x.hdr.ipv4 with ttl := x.hdr.ipv4.ttl - 1#8 } rfl _, hheader,
        hinit⟩
    · exact fun _ => ⟨hkept.dropped.trans hd, hcur, hport'⟩

/-- Every packet at egress has a snapshot header and gives the unit its identifier. -/
theorem egress_header (hf : x.hdr.Framed) (hheader : x.hdr.snapshotHeaderValid = true)
    (hport : C.HasPort x.egressPort)
    (hid : x.hdr.snapshotHeader.snapshotId.toNat ≤ C.snapshots) (hd : x.dropped = false) :
    Leaves x x.egress x.egressPort ∧
      x.egress.regs = x.regs.count x.egressPort x.hdr.snapshotHeader.snapshotId := by
  obtain ⟨z, hz⟩ : ∃ z, z = ceTakeSnapshot (ceSetSnapshotCase (tReadAndUpdateCounter
      (x.aeSetEffectivePort x.egressPort))) := ⟨_, rfl⟩
  obtain ⟨hkept, hregs, hcur⟩ :=
    snapshot_eq (x.aeSetEffectivePort x.egressPort) cpuNewssEgress hport hid hz
  have hrun : x.egress = teFinalizePacket z := by
    rw [egress, if_neg hport.ne_cpuPort, if_pos hf.ethernet.2, ceHandleIPv4, teSetEffectivePort,
      if_pos hport, hz]
  obtain ⟨hleaves, hregs', -⟩ := teFinalizePacket_leaves hf hheader hd hkept hcur
  rw [hrun, hregs']
  exact ⟨hleaves, hregs⟩

end Egress

end Pass

end P4Survey.Speedlight
