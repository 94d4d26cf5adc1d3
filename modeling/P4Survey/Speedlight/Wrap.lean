import P4Survey.Speedlight.Counting

/-! # The pipeline with wraparound

The program `Pkt_W.p4` keeps for each channel into a unit the last identifier
that came over it. A smaller one has then wrapped, and which of two identifiers
is ahead is decided from which of them have.
-/

namespace P4Survey.Speedlight
open Lib

/-- The register cell of a channel into an ingress unit. -/
def Config.lastSeenIng (feature : BitVec 2) (port : ℕ) : ℕ :=
  if feature = 2#2 then (port - 1) * 2 else (port - 1) * 2 + 1

/-- The register cell of a channel into an egress unit, with zero for the control plane. -/
def Config.lastSeenEgr (C : Config) (port fromPort : ℕ) : ℕ :=
  if fromPort < port then (port - 1) * C.ports + fromPort else (port - 1) * C.ports + fromPort - 1

namespace Pass

variable {C : Config} {neighbors : ℕ}

section Both

def rUpdateLastSeen (i : ℕ) (x : Pass C neighbors) : Pass C neighbors :=
  { x with
    md.formerLastSeen := x.regs.lastSeen.read i
    regs.lastSeen := x.regs.lastSeen.write i x.hdr.snapshotHeader.snapshotId }

def aCheckRollover (x : Pass C neighbors) : Pass C neighbors :=
  { x with
    md.snapshotChangedCheck := x.hdr.snapshotHeader.snapshotId - x.md.formerLastSeen
    md.snapshotRolloverCheck := satSub x.md.formerLastSeen x.hdr.snapshotHeader.snapshotId }

/-- There is a rule for snapshot packets and one for initiations, in both directions. -/
def tCheckRollover (x : Pass C neighbors) : Pass C neighbors :=
  if x.md.snapshotFeature = 1#2 ∨ x.md.snapshotFeature = 2#2 then x.aCheckRollover else x

def rUpdateSnapshotIdNoRollover (i : ℕ) (x : Pass C neighbors) : Pass C neighbors :=
  { x with
    md.formerId := x.regs.snapshotId.read i
    regs.snapshotId :=
      if x.md.formerLastSeen ≤ x.regs.snapshotId.read i ∧
          x.regs.snapshotId.read i < x.hdr.snapshotHeader.snapshotId then
        x.regs.snapshotId.write i x.hdr.snapshotHeader.snapshotId
      else x.regs.snapshotId }

def rUpdateSnapshotIdRollover (i : ℕ) (x : Pass C neighbors) : Pass C neighbors :=
  { x with
    md.formerId := x.regs.snapshotId.read i
    regs.snapshotId :=
      if x.regs.snapshotId.read i < x.md.formerLastSeen ∧
          x.regs.snapshotId.read i < x.hdr.snapshotHeader.snapshotId then
        x.regs.snapshotId.write i x.hdr.snapshotHeader.snapshotId
      else if x.md.formerLastSeen ≤ x.regs.snapshotId.read i then
        x.regs.snapshotId.write i x.hdr.snapshotHeader.snapshotId
      else x.regs.snapshotId }

def aCheckSnapshotCaseRollover (x : Pass C neighbors) : Pass C neighbors :=
  { x with
    md.switchRolloverCheck := satSub x.md.formerLastSeen x.md.formerId
    md.switchGreater := satSub x.md.formerId x.hdr.snapshotHeader.snapshotId
    md.packetGreater := satSub x.hdr.snapshotHeader.snapshotId x.md.formerId
    md.snapshotChangedCheck := x.hdr.snapshotHeader.snapshotId - x.md.formerLastSeen
    md.currentId := x.md.formerId }

def tSetSnapshotCaseNoRollover (x : Pass C neighbors) : Pass C neighbors :=
  if x.md.switchRolloverCheck = 0#16 ∧ x.md.switchGreater = 0#16 ∧ x.md.packetGreater = 0#16 then
    x.aSetSnapshotCase 0#2
  else if x.md.switchRolloverCheck = 0#16 ∧ x.md.switchGreater = 0#16 then x.aSetSnapshotCase 1#2
  else if x.md.switchRolloverCheck = 0#16 ∧ x.md.packetGreater = 0#16 then x.aSetSnapshotCase 2#2
  else x.aSetSnapshotCase 2#2

def tSetSnapshotCaseRollover (x : Pass C neighbors) : Pass C neighbors :=
  if x.md.switchRolloverCheck = 0#16 then x.aSetSnapshotCase 1#2
  else if x.md.switchGreater = 0#16 ∧ x.md.packetGreater = 0#16 then x.aSetSnapshotCase 0#2
  else if x.md.switchGreater = 0#16 then x.aSetSnapshotCase 1#2
  else if x.md.packetGreater = 0#16 then x.aSetSnapshotCase 2#2
  else x

def cSetSnapshotCaseNoRollover (x : Pass C neighbors) : Pass C neighbors :=
  tSetSnapshotCaseNoRollover (aCheckSnapshotCaseRollover
    (x.rUpdateSnapshotIdNoRollover x.md.effectivePort.toNat))

def cSetSnapshotCaseRollover (x : Pass C neighbors) : Pass C neighbors :=
  tSetSnapshotCaseRollover (aCheckSnapshotCaseRollover
    (x.rUpdateSnapshotIdRollover x.md.effectivePort.toNat))

/-- The branch of both directions. -/
def cSetSnapshotCaseW (x : Pass C neighbors) : Pass C neighbors :=
  if x.md.snapshotRolloverCheck = 0#16 then x.cSetSnapshotCaseNoRollover
  else x.cSetSnapshotCaseRollover

end Both

section IngressTables

/-- The cell that the rules give. Their masks cover eight bits of the port, and of the rules
that match, the one added first applies. -/
def tiLastSeenIndex (C : Config) (port : BitVec 9) (feature : BitVec 2) : Option ℕ :=
  if feature = 2#2 ∨ feature = 1#2 then
    ((List.range' 1 C.ports).find? fun p => p % 256 = port.toNat % 256).map
      (Config.lastSeenIng feature)
  else none

def tiUpdateLastSeen (x : Ingress C) : Ingress C :=
  match tiLastSeenIndex C x.md.effectivePort x.md.snapshotFeature with
  | some i => x.rUpdateLastSeen i
  | none => x

def ciHandleIPv4W (x : Ingress C) : Ingress C :=
  let x := tCheckRollover (tiUpdateLastSeen (tReadAndUpdateCounter x.ciInitializeSS))
  ciForward (if x.md.snapshotFeature = 0#2 then x.ciAddHeader
    else ciTakeSnapshot (cSetSnapshotCaseW x))

def ingressW (x : Ingress C) : Ingress C :=
  if x.hdr.ethernet.etherType = 0x800#16 then x.ciHandleIPv4W else x

end IngressTables

section EgressTables

/-- The cell that the rules give. There is none for a packet that came in by the same port. -/
def teLastSeenIndex (C : Config) (port portId : BitVec 9) (option : BitVec 5) : Option ℕ :=
  if C.HasPort port then
    if C.HasPort portId ∧ portId ≠ port then some (C.lastSeenEgr port.toNat portId.toNat)
    else if option = ipv4OptionSsCpu then some (C.lastSeenEgr port.toNat 0)
    else none
  else none

def teUpdateLastSeen (x : Egress C) : Egress C :=
  match teLastSeenIndex C x.md.effectivePort x.hdr.snapshotHeader.portId x.hdr.ipv4Option.option with
  | some i => x.rUpdateLastSeen i
  | none => x

def ceHandleIPv4W (x : Egress C) : Egress C :=
  let x := tCheckRollover (teUpdateLastSeen (tReadAndUpdateCounter x.teSetEffectivePort))
  teFinalizePacket (ceTakeSnapshot (cSetSnapshotCaseW x))

def egressW (x : Egress C) : Egress C :=
  if x.egressPort = cpuPort then x.aeFormatForCpu
  else if x.hdr.ethernet.etherType = 0x800#16 then x.ceHandleIPv4W
  else x

end EgressTables

section Case

/-- The case of a packet whose identifier has not wrapped since `seen`, the last one of its
channel. -/
def noRolloverCase (seen held packet : ℕ) : BitVec 2 :=
  if held < seen then 2#2 else caseOf held packet

/-- The case of a packet whose identifier has wrapped since. -/
def rolloverCase (seen held packet : ℕ) : BitVec 2 :=
  if held < seen then caseOf held packet else 1#2

/-- The case when the packet itself tells whether it has wrapped. -/
def wrapCase (seen held packet : ℕ) : BitVec 2 :=
  if packet < seen then rolloverCase seen held packet else noRolloverCase seen held packet

theorem wrapCase_eq (l b : BitVec 16) (held : ℕ) :
    (if satSub l b = 0#16 then noRolloverCase l.toNat held b.toNat
      else rolloverCase l.toNat held b.toNat) = wrapCase l.toNat held b.toNat := by
  unfold wrapCase
  simp only [satSub_eq_zero, BitVec.le_def]
  split_ifs with h h' h'
  · omega
  · rfl
  · rfl
  · omega

variable {x : Pass C neighbors}

/-- The identifier moves exactly for a new snapshot. -/
structure Decides (x y : Pass C neighbors) (c : BitVec 2) : Prop where
  kept : Kept x y
  snapshotCase : y.md.snapshotCase = c
  currentId : y.md.currentId = x.regs.heldId x.md.effectivePort
  regs : y.regs = { x.regs with
    snapshotId := if c = 1#2 then
      x.regs.snapshotId.write x.md.effectivePort.toNat x.hdr.snapshotHeader.snapshotId
    else x.regs.snapshotId }

theorem tCheckRollover_kept (x : Pass C neighbors) :
    Kept x (tCheckRollover x) ∧ (tCheckRollover x).regs = x.regs ∧
      (tCheckRollover x).md.formerLastSeen = x.md.formerLastSeen := by
  unfold tCheckRollover
  split_ifs <;> exact ⟨⟨rfl, rfl, rfl, rfl, rfl, rfl⟩, rfl, rfl⟩

theorem tSetSnapshotCaseNoRollover_kept : Kept x (tSetSnapshotCaseNoRollover x) ∧
    (tSetSnapshotCaseNoRollover x).regs = x.regs ∧
    (tSetSnapshotCaseNoRollover x).md.currentId = x.md.currentId := by
  unfold tSetSnapshotCaseNoRollover
  split_ifs <;> exact ⟨⟨rfl, rfl, rfl, rfl, rfl, rfl⟩, rfl, rfl⟩

theorem tSetSnapshotCaseNoRollover_case (l a b : BitVec 16) (hr : x.md.switchRolloverCheck = satSub l a)
    (hs : x.md.switchGreater = satSub a b) (hp : x.md.packetGreater = satSub b a) :
    (tSetSnapshotCaseNoRollover x).md.snapshotCase = noRolloverCase l.toNat a.toNat b.toNat := by
  rw [noRolloverCase, caseOf_eq]
  unfold tSetSnapshotCaseNoRollover
  simp only [hr, hs, hp, satSub_eq_zero, BitVec.le_def]
  by_cases hl : a.toNat < l.toNat
  · rw [if_pos hl, if_neg (by omega), if_neg (by omega), if_neg (by omega)]
    rfl
  · simp only [if_neg hl, Nat.not_lt.mp hl, true_and]
    split_ifs
    · rfl
    · rfl
    · rfl
    · rfl

theorem tSetSnapshotCaseRollover_kept : Kept x (tSetSnapshotCaseRollover x) ∧
    (tSetSnapshotCaseRollover x).regs = x.regs ∧
    (tSetSnapshotCaseRollover x).md.currentId = x.md.currentId := by
  unfold tSetSnapshotCaseRollover
  split_ifs <;> exact ⟨⟨rfl, rfl, rfl, rfl, rfl, rfl⟩, rfl, rfl⟩

theorem tSetSnapshotCaseRollover_case (l a b : BitVec 16) (hr : x.md.switchRolloverCheck = satSub l a)
    (hs : x.md.switchGreater = satSub a b) (hp : x.md.packetGreater = satSub b a) :
    (tSetSnapshotCaseRollover x).md.snapshotCase = rolloverCase l.toNat a.toNat b.toNat := by
  rw [rolloverCase, caseOf_eq]
  unfold tSetSnapshotCaseRollover
  simp only [hr, hs, hp, satSub_eq_zero, BitVec.le_def]
  by_cases hl : a.toNat < l.toNat
  · rw [if_pos hl, if_neg (Nat.not_le.mpr hl)]
    split_ifs with h h' h''
    · rfl
    · rfl
    · rfl
    · omega
  · rw [if_neg hl, if_pos (Nat.not_lt.mp hl)]
    rfl

theorem noRolloverCase_eq_one (l a b : BitVec 16) :
    noRolloverCase l.toNat a.toNat b.toNat = 1#2 ↔ l ≤ a ∧ a < b := by
  unfold noRolloverCase
  rw [BitVec.le_def, BitVec.lt_def]
  split_ifs with hl
  · simp [Nat.not_le.mpr hl]
  · rw [caseOf_eq_one]
    simp [Nat.not_lt.mp hl]

theorem rolloverCase_eq_one (l a b : BitVec 16) :
    rolloverCase l.toNat a.toNat b.toNat = 1#2 ↔ (a < l ∧ a < b) ∨ l ≤ a := by
  unfold rolloverCase
  rw [BitVec.le_def, BitVec.lt_def, BitVec.lt_def]
  split_ifs with hl
  · rw [caseOf_eq_one]
    simp [hl, Nat.not_le.mpr hl]
  · simp [hl, Nat.not_lt.mp hl]

/-- The register comes first, the comparisons follow, and a table sets the case from them. -/
theorem Decides.of_check {w y : Pass C neighbors} {c : BitVec 2} (hw : Kept x w)
    (hformer : w.md.formerId = x.regs.heldId x.md.effectivePort)
    (hregs : w.regs = { x.regs with
      snapshotId := if c = 1#2 then
        x.regs.snapshotId.write x.md.effectivePort.toNat x.hdr.snapshotHeader.snapshotId
      else x.regs.snapshotId })
    (hy : Kept w.aCheckSnapshotCaseRollover y ∧ y.regs = w.regs ∧ y.md.currentId = w.md.formerId)
    (hcase : y.md.snapshotCase = c) : Decides x y c := by
  obtain ⟨hkept, hyregs, hcur⟩ := hy
  have hcheck : Kept w w.aCheckSnapshotCaseRollover := ⟨rfl, rfl, rfl, rfl, rfl, rfl⟩
  exact ⟨hw.trans (hcheck.trans hkept), hcase, hcur.trans hformer, hyregs.trans hregs⟩

theorem noRollover_decides (x : Pass C neighbors) :
    Decides x x.cSetSnapshotCaseNoRollover
      (noRolloverCase x.md.formerLastSeen.toNat (x.regs.heldId x.md.effectivePort).toNat
        x.hdr.snapshotHeader.snapshotId.toNat) := by
  apply Decides.of_check (w := x.rUpdateSnapshotIdNoRollover x.md.effectivePort.toNat)
  · exact ⟨rfl, rfl, rfl, rfl, rfl, rfl⟩
  · rfl
  · rw [if_congr (noRolloverCase_eq_one _ _ _) rfl rfl]
    rfl
  · exact tSetSnapshotCaseNoRollover_kept
  · exact tSetSnapshotCaseNoRollover_case _ _ _ rfl rfl rfl

theorem rollover_decides (x : Pass C neighbors) :
    Decides x x.cSetSnapshotCaseRollover
      (rolloverCase x.md.formerLastSeen.toNat (x.regs.heldId x.md.effectivePort).toNat
        x.hdr.snapshotHeader.snapshotId.toNat) := by
  apply Decides.of_check (w := x.rUpdateSnapshotIdRollover x.md.effectivePort.toNat)
  · exact ⟨rfl, rfl, rfl, rfl, rfl, rfl⟩
  · rfl
  · rw [if_congr (rolloverCase_eq_one _ _ _) rfl rfl, ite_or]
    rfl
  · exact tSetSnapshotCaseRollover_kept
  · exact tSetSnapshotCaseRollover_case _ _ _ rfl rfl rfl

/-- What both branches do. -/
theorem cSetSnapshotCaseW_decides {c : BitVec 2}
    (hc : c = if x.md.snapshotRolloverCheck = 0#16 then
        noRolloverCase x.md.formerLastSeen.toNat (x.regs.heldId x.md.effectivePort).toNat
          x.hdr.snapshotHeader.snapshotId.toNat
      else rolloverCase x.md.formerLastSeen.toNat (x.regs.heldId x.md.effectivePort).toNat
        x.hdr.snapshotHeader.snapshotId.toNat) :
    Decides x (cSetSnapshotCaseW x) c := by
  rw [cSetSnapshotCaseW, hc]
  split_ifs
  · exact noRollover_decides x
  · exact rollover_decides x

/-- The snapshot that follows. -/
theorem snapshotW_eq (messageType : BitVec 8) {y : Pass C neighbors} {c : BitVec 2}
    (hport : C.HasPort x.md.effectivePort)
    (hid : x.hdr.snapshotHeader.snapshotId.toNat ≤ C.snapshots)
    (hc : c = if x.md.snapshotRolloverCheck = 0#16 then
        noRolloverCase x.md.formerLastSeen.toNat (x.regs.heldId x.md.effectivePort).toNat
          x.hdr.snapshotHeader.snapshotId.toNat
      else rolloverCase x.md.formerLastSeen.toNat (x.regs.heldId x.md.effectivePort).toNat
        x.hdr.snapshotHeader.snapshotId.toNat)
    (hy : y = tSendNotification messageType (tTakeSnapshot (cSetSnapshotCaseW x))) :
    Kept x y ∧ y.md.snapshotCase = c ∧ y.regs.lastSeen = x.regs.lastSeen ∧
      y.regs.snapshotId = (if y.md.snapshotCase = 1#2 then
        x.regs.snapshotId.write x.md.effectivePort.toNat x.hdr.snapshotHeader.snapshotId
      else x.regs.snapshotId) ∧
      y.md.currentId = y.regs.heldId x.md.effectivePort := by
  have hdecides := cSetSnapshotCaseW_decides hc
  obtain ⟨w, hw⟩ : ∃ w, w = cSetSnapshotCaseW x := ⟨_, rfl⟩
  rw [← hw] at hdecides hy
  obtain ⟨hkept, hcase, hcur, hregs⟩ := hdecides
  obtain ⟨hsend, hsregs, hsmd⟩ := tSendNotification_kept (tTakeSnapshot w) messageType
  rw [← hy] at hsend hsregs hsmd
  have hlt : x.md.effectivePort.toNat < C.ports + 1 := Nat.lt_succ_of_le hport.2
  by_cases h1 : c = 1#2
  · have htake : tTakeSnapshot w = w.aTakeSnapshot
        (valueIndex C x.hdr.snapshotHeader.snapshotId x.md.effectivePort) := by
      unfold tTakeSnapshot
      rw [hcase, hkept.hdr, hkept.effectivePort, if_pos ⟨h1, hid, hport⟩]
    rw [if_pos h1] at hregs
    rw [htake] at hsregs hsmd hsend
    have hchosen : y.md.snapshotCase = c := by
      rw [hsmd]
      exact hcase
    rw [hchosen, if_pos h1]
    have hstored : Kept w (w.aTakeSnapshot
        (valueIndex C x.hdr.snapshotHeader.snapshotId x.md.effectivePort)) :=
      ⟨rfl, rfl, rfl, rfl, rfl, rfl⟩
    refine ⟨hkept.trans (hstored.trans hsend), rfl, ?_, ?_, ?_⟩
    · rw [hsregs]
      change w.regs.lastSeen = _
      rw [hregs]
    · rw [hsregs]
      change w.regs.snapshotId = _
      rw [hregs]
    · have hheld : y.regs.heldId x.md.effectivePort = x.hdr.snapshotHeader.snapshotId := by
        rw [hsregs]
        change w.regs.snapshotId.read _ = _
        rw [hregs]
        exact Register.read_write_self _ hlt _
      rw [hheld, hsmd]
      exact congrArg (·.snapshotHeader.snapshotId) hkept.hdr
  · have htake : tTakeSnapshot w = w := by
      unfold tTakeSnapshot
      rw [hcase, if_neg fun h => h1 h.1]
    rw [if_neg h1] at hregs
    rw [htake] at hsregs hsmd hsend
    have hchosen : y.md.snapshotCase = c := by
      rw [hsmd]
      exact hcase
    rw [hchosen, if_neg h1]
    refine ⟨hkept.trans hsend, rfl, ?_, ?_, ?_⟩
    · rw [hsregs, hregs]
    · rw [hsregs, hregs]
    · rw [hsmd, hsregs, hregs]
      exact hcur

end Case

section Passes

/-- The registers after a packet over the channel of cell `i`, when the case is `c`. -/
structure Updates (r r' : Regs C neighbors) (i : ℕ) (p : BitVec 9) (packet : BitVec 16)
    (c : BitVec 2) : Prop where
  lastSeen : r'.lastSeen = r.lastSeen.write i packet
  snapshotId : r'.snapshotId =
    if c = 1#2 then r.snapshotId.write p.toNat packet else r.snapshotId

/-- A packet from a host has no channel, so that it is not tested. -/
theorem tCheckRollover_host {x : Ingress C} (hfeature : x.hdr.feature = 0#2) :
    tCheckRollover (tiUpdateLastSeen (tReadAndUpdateCounter x.classified)) =
      tReadAndUpdateCounter x.classified := by
  obtain ⟨w, hw⟩ : ∃ w, w = tReadAndUpdateCounter x.classified := ⟨_, rfl⟩
  have hcase : w.md.snapshotFeature = 0#2 := by
    rw [hw]
    exact hfeature
  have hseen : tiUpdateLastSeen w = w := by
    rw [tiUpdateLastSeen, hcase]
    rfl
  rw [← hw, hseen, tCheckRollover, hcase, if_neg (by decide)]

theorem tCheckRollover_header {x : Ingress C} (hfeature : x.hdr.feature ≠ 0#2) {i : ℕ}
    (hi : tiLastSeenIndex C (x.hdr.unitPort x.ingressPort) x.hdr.feature = some i) :
    tCheckRollover (tiUpdateLastSeen (tReadAndUpdateCounter x.classified)) =
      aCheckRollover (rUpdateLastSeen i (tReadAndUpdateCounter x.classified)) := by
  have hseen : tiUpdateLastSeen (tReadAndUpdateCounter x.classified) =
      rUpdateLastSeen i (tReadAndUpdateCounter x.classified) := by
    unfold tiUpdateLastSeen
    change (match tiLastSeenIndex C (x.hdr.unitPort x.ingressPort) x.hdr.feature with
      | some i => _
      | none => _) = _
    rw [hi]
  have h12 : x.hdr.feature = 1#2 ∨ x.hdr.feature = 2#2 := x.hdr.feature_cases.resolve_left hfeature
  rw [hseen]
  exact if_pos h12

/-- A packet at egress is noted in the cell of its channel if there is one. -/
theorem teUpdateLastSeen_eq {x : Egress C} {o : Option ℕ}
    (ho : teLastSeenIndex C x.egressPort x.hdr.snapshotHeader.portId x.hdr.ipv4Option.option = o) :
    teUpdateLastSeen (tReadAndUpdateCounter (x.aeSetEffectivePort x.egressPort)) =
      o.elim (tReadAndUpdateCounter (x.aeSetEffectivePort x.egressPort)) fun i =>
        rUpdateLastSeen i (tReadAndUpdateCounter (x.aeSetEffectivePort x.egressPort)) := by
  unfold teUpdateLastSeen
  change (match teLastSeenIndex C x.egressPort x.hdr.snapshotHeader.portId
      x.hdr.ipv4Option.option with
    | some i => _
    | none => _) = _
  rw [ho]
  cases o with
  | none => rfl
  | some i => rfl

/-- A packet from a host has no channel. -/
theorem ingressW_host {x : Ingress C} (hf : x.hdr.Framed) (hihl : x.hdr.ipv4.ihl ≠ 3#4)
    (hmd : x.md = default) (hport : C.HasPort (x.hdr.unitPort x.ingressPort))
    (hfeature : x.hdr.feature = 0#2) :
    Stamps x x.ingressW (x.hdr.unitPort x.ingressPort) ∧
      x.ingressW.regs.snapshotId = x.regs.snapshotId ∧
      x.ingressW.regs.lastSeen = x.regs.lastSeen ∧
      x.ingressW.md.snapshotRolloverCheck = 0#16 := by
  obtain ⟨w, hw⟩ : ∃ w, w = tReadAndUpdateCounter x.classified := ⟨_, rfl⟩
  have hcase : w.md.snapshotFeature = 0#2 := by
    rw [hw]
    exact hfeature
  have hrun : x.ingressW = ciForward (ciAddHeader w) := by
    rw [ingressW, if_pos hf.ethernet.2, ciHandleIPv4W, ciInitializeSS_eq (by rw [hmd]; rfl) hport,
      tCheckRollover_host hfeature, ← hw]
    exact congrArg ciForward (if_pos hcase)
  obtain ⟨hstamps, hregs, hroll⟩ := ciAddHeader_stamps (w := w) hf hihl hfeature
    (by rw [hw]; exact ⟨rfl, rfl, rfl, rfl, rfl, rfl⟩)
  rw [hrun, hregs, hroll, hw]
  refine ⟨hw ▸ hstamps, rfl, rfl, ?_⟩
  change x.md.snapshotRolloverCheck = 0#16
  rw [hmd]
  rfl

/-- A packet with a snapshot header is compared with the last one of its channel. -/
theorem ingressW_header {x : Ingress C} (hf : x.hdr.Framed) (hmd : x.md = default)
    (hport : C.HasPort (x.hdr.unitPort x.ingressPort))
    (hid : x.hdr.snapshotHeader.snapshotId.toNat ≤ C.snapshots) (hfeature : x.hdr.feature ≠ 0#2)
    {i : ℕ} (hi : tiLastSeenIndex C (x.hdr.unitPort x.ingressPort) x.hdr.feature = some i) :
    Stamps x x.ingressW (x.hdr.unitPort x.ingressPort) ∧
      x.ingressW.md.snapshotCase = wrapCase (x.regs.lastSeen.read i).toNat
        (x.regs.heldId (x.hdr.unitPort x.ingressPort)).toNat
        x.hdr.snapshotHeader.snapshotId.toNat ∧
      Updates x.regs x.ingressW.regs i (x.hdr.unitPort x.ingressPort)
        x.hdr.snapshotHeader.snapshotId x.ingressW.md.snapshotCase := by
  obtain ⟨w, hw⟩ : ∃ w, w = aCheckRollover (rUpdateLastSeen i (tReadAndUpdateCounter x.classified)) :=
    ⟨_, rfl⟩
  obtain ⟨z, hz⟩ : ∃ z, z = ciTakeSnapshot (cSetSnapshotCaseW w) := ⟨_, rfl⟩
  have hrun : x.ingressW = ciForward z := by
    rw [ingressW, if_pos hf.ethernet.2, ciHandleIPv4W, ciInitializeSS_eq (by rw [hmd]; rfl) hport,
      tCheckRollover_header hfeature hi, ← hw, hz]
    refine congrArg ciForward (if_neg ?_)
    rw [hw]
    exact hfeature
  have hkept : Kept x.classified w := by
    rw [hw]
    exact ⟨rfl, rfl, rfl, rfl, rfl, rfl⟩
  have hport' : w.md.effectivePort = x.hdr.unitPort x.ingressPort := hkept.effectivePort
  have hhdr : w.hdr = x.hdr := hkept.hdr
  obtain ⟨hkept', hcase, hlast, hids, hcur⟩ := snapshotW_eq (x := w) cpuNewssIngress
    (by rw [hport']; exact hport) (by rw [hhdr]; exact hid) rfl hz
  rw [hport'] at hcur
  obtain ⟨hstamps, hregs, hmd'⟩ := ciForward_stamps hf hport hfeature (hkept.trans hkept') hcur
  have hwrap : z.md.snapshotCase = wrapCase (x.regs.lastSeen.read i).toNat
      (x.regs.heldId (x.hdr.unitPort x.ingressPort)).toNat
      x.hdr.snapshotHeader.snapshotId.toNat := by
    rw [hcase, hw]
    exact wrapCase_eq _ _ _
  rw [hrun, hmd', hregs]
  refine ⟨hstamps, hwrap, ?_, ?_⟩
  · rw [hlast, hw]
    rfl
  · rw [hids, hport', hhdr, hw]
    rfl

/-- At egress a packet from a host is not tested for wraparound. -/
theorem egressW_header {x : Egress C} (hf : x.hdr.Framed) (hheader : x.hdr.snapshotHeaderValid = true)
    (hport : C.HasPort x.egressPort) (hd : x.dropped = false)
    (hid : x.hdr.snapshotHeader.snapshotId.toNat ≤ C.snapshots)
    (hfeature : x.md.snapshotFeature = 0#2 ∨ x.md.snapshotFeature = 1#2 ∨ x.md.snapshotFeature = 2#2)
    (hzero : x.md.snapshotFeature = 0#2 → x.md.snapshotRolloverCheck = 0#16) {i : ℕ}
    (hi : teLastSeenIndex C x.egressPort x.hdr.snapshotHeader.portId x.hdr.ipv4Option.option = some i) :
    Leaves x x.egressW x.egressPort ∧
      x.egressW.md.snapshotCase = (if x.md.snapshotFeature = 0#2 then
        noRolloverCase (x.regs.lastSeen.read i).toNat (x.regs.heldId x.egressPort).toNat
          x.hdr.snapshotHeader.snapshotId.toNat
      else wrapCase (x.regs.lastSeen.read i).toNat (x.regs.heldId x.egressPort).toNat
        x.hdr.snapshotHeader.snapshotId.toNat) ∧
      Updates x.regs x.egressW.regs i x.egressPort x.hdr.snapshotHeader.snapshotId
        x.egressW.md.snapshotCase := by
  obtain ⟨v, hv⟩ : ∃ v, v = rUpdateLastSeen i (tReadAndUpdateCounter
      (x.aeSetEffectivePort x.egressPort)) := ⟨_, rfl⟩
  obtain ⟨w, hw⟩ : ∃ w, w = tCheckRollover v := ⟨_, rfl⟩
  obtain ⟨z, hz⟩ : ∃ z, z = ceTakeSnapshot (cSetSnapshotCaseW w) := ⟨_, rfl⟩
  have hseen : teUpdateLastSeen (tReadAndUpdateCounter (x.aeSetEffectivePort x.egressPort)) = v := by
    rw [teUpdateLastSeen_eq hi, hv]
    rfl
  have hrun : x.egressW = teFinalizePacket z := by
    rw [egressW, if_neg hport.ne_cpuPort, if_pos hf.ethernet.2, ceHandleIPv4W, teSetEffectivePort,
      if_pos hport, hseen, ← hw, hz]
  have hfeature' : v.md.snapshotFeature = x.md.snapshotFeature := by
    rw [hv]
    rfl
  have hnoted : Kept (x.aeSetEffectivePort x.egressPort) v := by
    rw [hv]
    exact ⟨rfl, rfl, rfl, rfl, rfl, rfl⟩
  obtain ⟨hchecked, hwregs, hlastSeen⟩ := tCheckRollover_kept v
  rw [← hw] at hchecked hwregs hlastSeen
  have hkept := hnoted.trans hchecked
  have hport' : w.md.effectivePort = x.egressPort := hkept.effectivePort
  have hhdr : w.hdr = x.hdr := hkept.hdr
  obtain ⟨hkept', hcase, hlast, hids, hcur⟩ := snapshotW_eq (x := w) cpuNewssEgress
    (by rw [hport']; exact hport) (by rw [hhdr]; exact hid) rfl hz
  rw [hport'] at hcur
  obtain ⟨hleaves, hregs, hmd'⟩ :=
    teFinalizePacket_leaves hf hheader hd (hkept.trans hkept') hcur
  rw [hlastSeen, hport', hhdr, hwregs] at hcase
  have hchosen : z.md.snapshotCase = if x.md.snapshotFeature = 0#2 then
        noRolloverCase (x.regs.lastSeen.read i).toNat (x.regs.heldId x.egressPort).toNat
          x.hdr.snapshotHeader.snapshotId.toNat
      else wrapCase (x.regs.lastSeen.read i).toNat (x.regs.heldId x.egressPort).toNat
        x.hdr.snapshotHeader.snapshotId.toNat := by
    by_cases h0 : x.md.snapshotFeature = 0#2
    · have hcheck : w.md.snapshotRolloverCheck = 0#16 := by
        rw [hw, tCheckRollover, hfeature', h0, if_neg (by decide), hv]
        exact hzero h0
      rw [hcase, if_pos hcheck, if_pos h0, hv]
      rfl
    · have hcheck : w = aCheckRollover v := by
        rw [hw, tCheckRollover, hfeature', if_pos (hfeature.resolve_left h0)]
      rw [hcase, if_neg h0, ← wrapCase_eq, hcheck, hv]
      rfl
  rw [hrun, hmd', hregs]
  refine ⟨hleaves, hchosen, ?_, ?_⟩
  · rw [hlast, hwregs, hv]
    rfl
  · rw [hids, hport', hhdr, hwregs, hv]
    rfl

end Passes

end Pass

end P4Survey.Speedlight
