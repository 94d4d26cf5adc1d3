import P4Survey.Speedlight.Channels

/-! # The pipeline with channel state

The program `Pkt_WC.p4` adds packets in flight to the value of the snapshot that
is being taken, and tells the control plane about new snapshots and about new
identifiers from a neighbor. Its notifications have more fields than those of the
other variants.
-/

namespace P4Survey.Speedlight
open Lib

/-- The notification of `notify_C.p4`. -/
structure TocpuC where
  messageType : BitVec 8
  currentPort : BitVec 16
  neighborPort : BitVec 16
  formerId : BitVec 16
  currentId : BitVec 16
  formerLastSeen : BitVec 16
  currentLastSeen : BitVec 16
  deriving DecidableEq, Inhabited

/-- A packet in the tables of one direction. The fields of `pass` for the shorter notification
are not used. -/
structure PassC (C : Config) (neighbors : ℕ) where
  pass : Pass C neighbors
  tocpu : TocpuC
  tocpuNotif : Option TocpuC
  clones : List TocpuC

abbrev IngressC (C : Config) : Type := PassC C C.neighborsIng

abbrev EgressC (C : Config) : Type := PassC C C.neighborsEgr

namespace Pass

variable {C : Config} {neighbors : ℕ}

def aUpdateInflight (index : ℕ) (x : Pass C neighbors) : Pass C neighbors :=
  { x with
    regs.snapshotValue :=
      x.regs.snapshotValue.write index (intSucc (x.regs.snapshotValue.read index))
    md.currentId := x.md.formerId }

/-- The rules of both directions in the order of their priority. -/
def tUpdateSnapshotValue (x : Pass C neighbors) : Pass C neighbors :=
  if x.md.snapshotCase = 2#2 ∧ x.md.snapshotFeature = 2#2 then x
  else if x.md.snapshotCase = 1#2 ∧ x.hdr.snapshotHeader.snapshotId.toNat ≤ C.snapshots ∧
      C.HasPort x.md.effectivePort then
    x.aTakeSnapshot (valueIndex C x.hdr.snapshotHeader.snapshotId x.md.effectivePort)
  else if x.md.snapshotCase = 2#2 ∧ x.md.formerId.toNat ≤ C.snapshots ∧
      C.HasPort x.md.effectivePort then
    x.aUpdateInflight (valueIndex C x.md.formerId x.md.effectivePort)
  else x

/-- The snapshot values after a packet of case `c`. -/
def nextValue (x : Pass C neighbors) (c : BitVec 2) : Register 32 (C.snapshots * C.ports) :=
  let packet := x.hdr.snapshotHeader.snapshotId
  let port := x.md.effectivePort
  let held := x.regs.heldId port
  if c = 2#2 ∧ x.md.snapshotFeature = 2#2 then x.regs.snapshotValue
  else if c = 1#2 ∧ packet.toNat ≤ C.snapshots ∧ C.HasPort port then
    x.regs.snapshotValue.write (valueIndex C packet port) x.md.currentReading
  else if c = 2#2 ∧ held.toNat ≤ C.snapshots ∧ C.HasPort port then
    x.regs.snapshotValue.write (valueIndex C held port)
      (intSucc (x.regs.snapshotValue.read (valueIndex C held port)))
  else x.regs.snapshotValue

/-- A packet of case `c` at its unit. -/
structure Takes (x y : Pass C neighbors) (c : BitVec 2) : Prop where
  kept : Kept x y
  snapshotCase : y.md.snapshotCase = c
  changed : y.md.snapshotChangedCheck = x.hdr.snapshotHeader.snapshotId - x.md.formerLastSeen
  rollover : y.md.snapshotRolloverCheck = x.md.snapshotRolloverCheck
  regs : y.regs = { x.regs with
    snapshotId := if c = 1#2 then
      x.regs.snapshotId.write x.md.effectivePort.toNat x.hdr.snapshotHeader.snapshotId
    else x.regs.snapshotId
    snapshotValue := x.nextValue c }

theorem cSetSnapshotCaseW_md (x : Pass C neighbors) :
    (cSetSnapshotCaseW x).md.formerId = x.regs.heldId x.md.effectivePort ∧
      (cSetSnapshotCaseW x).md.snapshotChangedCheck =
        x.hdr.snapshotHeader.snapshotId - x.md.formerLastSeen ∧
      (cSetSnapshotCaseW x).md.currentReading = x.md.currentReading ∧
      (cSetSnapshotCaseW x).md.snapshotRolloverCheck = x.md.snapshotRolloverCheck := by
  unfold cSetSnapshotCaseW cSetSnapshotCaseNoRollover cSetSnapshotCaseRollover
    tSetSnapshotCaseNoRollover tSetSnapshotCaseRollover
  split_ifs <;> exact ⟨rfl, rfl, rfl, rfl⟩

theorem tUpdateSnapshotValue_kept (x : Pass C neighbors) :
    Kept x (tUpdateSnapshotValue x) ∧
      (tUpdateSnapshotValue x).md.snapshotCase = x.md.snapshotCase ∧
      (tUpdateSnapshotValue x).md.snapshotChangedCheck = x.md.snapshotChangedCheck ∧
      (tUpdateSnapshotValue x).md.snapshotRolloverCheck = x.md.snapshotRolloverCheck := by
  unfold tUpdateSnapshotValue
  split_ifs <;> exact ⟨⟨rfl, rfl, rfl, rfl, rfl, rfl⟩, rfl, rfl, rfl⟩

theorem takes_of_case {x : Pass C neighbors} {c : BitVec 2}
    (hc : c = if x.md.snapshotRolloverCheck = 0#16 then
        noRolloverCase x.md.formerLastSeen.toNat (x.regs.heldId x.md.effectivePort).toNat
          x.hdr.snapshotHeader.snapshotId.toNat
      else rolloverCase x.md.formerLastSeen.toNat (x.regs.heldId x.md.effectivePort).toNat
        x.hdr.snapshotHeader.snapshotId.toNat) :
    Takes x (tUpdateSnapshotValue (cSetSnapshotCaseW x)) c := by
  obtain ⟨hkept, hcase, -, hregs⟩ := cSetSnapshotCaseW_decides hc
  obtain ⟨hformer, hchanged, hreading, hroll⟩ := cSetSnapshotCaseW_md x
  obtain ⟨w, hw⟩ : ∃ w, w = cSetSnapshotCaseW x := ⟨_, rfl⟩
  rw [← hw] at hkept hcase hregs hformer hchanged hreading hroll ⊢
  obtain ⟨hkept', hcase', hchanged', hroll'⟩ := tUpdateSnapshotValue_kept w
  refine ⟨hkept.trans hkept', hcase'.trans hcase, hchanged'.trans hchanged, hroll'.trans hroll, ?_⟩
  have hvalue : w.regs.snapshotValue = x.regs.snapshotValue := by rw [hregs]
  unfold tUpdateSnapshotValue aTakeSnapshot aUpdateInflight nextValue
  dsimp only
  rw [hcase, hkept.snapshotFeature, hkept.hdr, hkept.effectivePort, hformer, hreading, hvalue]
  generalize (if c = 1#2 then _ else x.regs.snapshotId) = ids at hregs ⊢
  split_ifs <;> rw [hregs]

end Pass

namespace PassC

variable {C : Config} {neighbors : ℕ}

def aSendNotification (x : PassC C neighbors) (messageType : BitVec 8) : PassC C neighbors :=
  let tocpu : TocpuC :=
    ⟨messageType, x.pass.md.effectivePort.setWidth 16, x.pass.hdr.snapshotHeader.portId.setWidth 16,
      x.pass.md.formerId, x.pass.hdr.snapshotHeader.snapshotId, x.pass.md.formerLastSeen,
      x.pass.hdr.snapshotHeader.snapshotId⟩
  { x with tocpu := tocpu, clones := tocpu :: x.clones }

section IngressTables

def cpuNewssNewnbrIngress : BitVec 8 := 0b110#8

def cpuNewnbrIngress : BitVec 8 := 0b010#8

/-- The flags of the rule that matches. -/
def tiMessageType (changed : BitVec 16) (feature case : BitVec 2) : Option (BitVec 8) :=
  if changed = 0#16 then none
  else if feature = 1#2 ∧ case = 1#2 then some cpuNewssNewnbrIngress
  else if case = 1#2 then some Pass.cpuNewssIngress
  else if feature = 1#2 then some cpuNewnbrIngress
  else none

def tiSendNotificationWithChannelState (x : IngressC C) : IngressC C :=
  (tiMessageType x.pass.md.snapshotChangedCheck x.pass.md.snapshotFeature
    x.pass.md.snapshotCase).elim x x.aSendNotification

def ciTakeSnapshotWithChannelState (x : IngressC C) : IngressC C :=
  tiSendNotificationWithChannelState { x with pass := x.pass.tUpdateSnapshotValue }

def ciHandleIPv4WC (x : IngressC C) : IngressC C :=
  let p := Pass.tCheckRollover (Pass.tiUpdateLastSeen
    (Pass.tReadAndUpdateCounter x.pass.ciInitializeSS))
  let y := if p.md.snapshotFeature = 0#2 then { x with pass := p.ciAddHeader }
    else ciTakeSnapshotWithChannelState { x with pass := p.cSetSnapshotCaseW }
  { y with pass := y.pass.ciForward }

def ingressWC (x : IngressC C) : IngressC C :=
  if x.pass.hdr.ethernet.etherType = 0x800#16 then x.ciHandleIPv4WC else x

end IngressTables

section EgressTables

def cpuNewssNewnbrEgress : BitVec 8 := 0b111#8

def cpuNewnbrEgress : BitVec 8 := 0b011#8

/-- The value that the second and the fourth rule compare with `snapshot_feature`. It is the
option of an initiation and not one of the values that the field has. -/
def teOriginKey : BitVec 8 := 30#8

/-- The flags of the rule that matches, with those of the default. -/
def teMessageType (changed : BitVec 16) (feature case : BitVec 2) : Option (BitVec 8) :=
  if changed = 0#16 then none
  else if feature.setWidth 8 = teOriginKey ∧ case = 1#2 then some Pass.cpuNewssEgress
  else if case = 1#2 then some cpuNewssNewnbrEgress
  else if feature.setWidth 8 = teOriginKey then none
  else some cpuNewnbrEgress

def teSendNotificationWithChannelState (x : EgressC C) : EgressC C :=
  (teMessageType x.pass.md.snapshotChangedCheck x.pass.md.snapshotFeature
    x.pass.md.snapshotCase).elim x x.aSendNotification

def ceTakeSnapshotWithChannelState (x : EgressC C) : EgressC C :=
  teSendNotificationWithChannelState { x with pass := x.pass.tUpdateSnapshotValue }

def ceHandleIPv4WC (x : EgressC C) : EgressC C :=
  let p := Pass.tCheckRollover (Pass.teUpdateLastSeen
    (Pass.tReadAndUpdateCounter x.pass.teSetEffectivePort))
  let y := ceTakeSnapshotWithChannelState { x with pass := p.cSetSnapshotCaseW }
  { y with pass := y.pass.teFinalizePacket }

def aeFormatForCpu (x : EgressC C) : EgressC C :=
  { x with
    pass.hdr.snapshotHeaderValid := false
    pass.hdr.ipv4OptionValid := false
    pass.hdr.ipv4Valid := false
    pass.hdr.ethernet.etherType := 0x88b6#16
    tocpuNotif := some x.tocpu }

def egressWC (x : EgressC C) : EgressC C :=
  if x.pass.egressPort = cpuPort then x.aeFormatForCpu
  else if x.pass.hdr.ethernet.etherType = 0x800#16 then x.ceHandleIPv4WC
  else x

end EgressTables

/-- What the control plane gets. Each clone goes through egress by its port. -/
def notifications (x : PassC C neighbors) : List TocpuC :=
  x.clones.filterMap fun tocpu => (egressWC (C := C) ⟨⟨.zero C _, x.pass.hdr, default, default,
    x.pass.ingressPort, cpuPort, cpuPort, [], false⟩, tocpu, none, []⟩).tocpuNotif

theorem notifications_eq (x : PassC C neighbors) : x.notifications = x.clones := by
  unfold notifications
  induction x.clones with
  | nil => rfl
  | cons tocpu clones ih => exact congrArg (tocpu :: ·) ih

theorem elim_aSendNotification (x : PassC C neighbors) (m : Option (BitVec 8)) :
    (m.elim x x.aSendNotification).pass = x.pass ∧
      (m.elim x x.aSendNotification).clones.map (·.messageType) =
        m.toList ++ x.clones.map (·.messageType) := by
  cases m with
  | none => exact ⟨rfl, rfl⟩
  | some m => exact ⟨rfl, rfl⟩

theorem ciTakeSnapshotWithChannelState_eq (x : IngressC C) :
    x.ciTakeSnapshotWithChannelState.pass = x.pass.tUpdateSnapshotValue ∧
      x.ciTakeSnapshotWithChannelState.clones.map (·.messageType) = (tiMessageType
        x.pass.tUpdateSnapshotValue.md.snapshotChangedCheck
        x.pass.tUpdateSnapshotValue.md.snapshotFeature
        x.pass.tUpdateSnapshotValue.md.snapshotCase).toList ++ x.clones.map (·.messageType) :=
  elim_aSendNotification { x with pass := x.pass.tUpdateSnapshotValue } _

theorem ceTakeSnapshotWithChannelState_eq (x : EgressC C) :
    x.ceTakeSnapshotWithChannelState.pass = x.pass.tUpdateSnapshotValue ∧
      x.ceTakeSnapshotWithChannelState.clones.map (·.messageType) = (teMessageType
        x.pass.tUpdateSnapshotValue.md.snapshotChangedCheck
        x.pass.tUpdateSnapshotValue.md.snapshotFeature
        x.pass.tUpdateSnapshotValue.md.snapshotCase).toList ++ x.clones.map (·.messageType) :=
  elim_aSendNotification { x with pass := x.pass.tUpdateSnapshotValue } _

end PassC

namespace Pass

variable {C : Config}

/-- A packet with an identifier once the last one of its channel is known. -/
def seenAt (x : Ingress C) (i : ℕ) : Ingress C :=
  aCheckRollover (rUpdateLastSeen i (tReadAndUpdateCounter x.classified))

end Pass

section Passes

variable {C : Config}

/-- The packet `x` came over the channel of cell `i` into an ingress unit, had case `c` and went
on as `y`. -/
structure Enters (x y : IngressC C) (i : ℕ) (c : BitVec 2) : Prop where
  forwarded : ∃ z, Pass.Kept x.pass.classified z ∧ y.pass = z.ciForward
  updates : Pass.Updates x.pass.regs y.pass.regs i (x.pass.hdr.unitPort x.pass.ingressPort)
    x.pass.hdr.snapshotHeader.snapshotId c
  counter : y.pass.regs.counter = (x.pass.seenAt i).regs.counter
  snapshotValue : y.pass.regs.snapshotValue = (x.pass.seenAt i).nextValue c
  messages : y.clones.map (·.messageType) = (PassC.tiMessageType
    (x.pass.hdr.snapshotHeader.snapshotId - x.pass.regs.lastSeen.read i) x.pass.hdr.feature
    c).toList ++ x.clones.map (·.messageType)

theorem ciForward_regs (z : Ingress C) : z.ciForward.regs = z.regs := by
  unfold Pass.ciForward Pass.tiForwardInitiation
  split_ifs <;> rfl

/-- A packet with a snapshot header. -/
theorem ingressWC_header {x : IngressC C} {i : ℕ} (hf : x.pass.hdr.Framed) (hmd : x.pass.md = default)
    (hport : C.HasPort (x.pass.hdr.unitPort x.pass.ingressPort)) (hfeature : x.pass.hdr.feature ≠ 0#2)
    (hi : Pass.tiLastSeenIndex C (x.pass.hdr.unitPort x.pass.ingressPort) x.pass.hdr.feature = some i) :
    Enters x x.ingressWC i (Pass.wrapCase (x.pass.regs.lastSeen.read i).toNat
      (x.pass.regs.heldId (x.pass.hdr.unitPort x.pass.ingressPort)).toNat
      x.pass.hdr.snapshotHeader.snapshotId.toNat) := by
  obtain ⟨w, hw⟩ : ∃ w, w = x.pass.seenAt i := ⟨_, rfl⟩
  have hfeature' : w.md.snapshotFeature = x.pass.hdr.feature := by
    rw [hw]
    rfl
  obtain ⟨z, hz⟩ : ∃ z, z = PassC.ciTakeSnapshotWithChannelState
    { x with pass := w.cSetSnapshotCaseW } := ⟨_, rfl⟩
  have hrun : x.ingressWC = { z with pass := z.pass.ciForward } := by
    rw [PassC.ingressWC, if_pos hf.ethernet.2, PassC.ciHandleIPv4WC,
      Pass.ciInitializeSS_eq (by rw [hmd]; rfl) hport, Pass.tCheckRollover_header hfeature hi,
      ← Pass.seenAt, ← hw, hz, if_neg (by rw [hfeature']; exact hfeature)]
  have hcase : Pass.wrapCase (x.pass.regs.lastSeen.read i).toNat
      (x.pass.regs.heldId (x.pass.hdr.unitPort x.pass.ingressPort)).toNat
      x.pass.hdr.snapshotHeader.snapshotId.toNat = if w.md.snapshotRolloverCheck = 0#16 then
        Pass.noRolloverCase w.md.formerLastSeen.toNat (w.regs.heldId w.md.effectivePort).toNat
          w.hdr.snapshotHeader.snapshotId.toNat
      else Pass.rolloverCase w.md.formerLastSeen.toNat (w.regs.heldId w.md.effectivePort).toNat
        w.hdr.snapshotHeader.snapshotId.toNat := by
    rw [hw]
    exact (Pass.wrapCase_eq _ _ _).symm
  have htakes := Pass.takes_of_case hcase
  obtain ⟨hpass, hmessages⟩ :=
    PassC.ciTakeSnapshotWithChannelState_eq { x with pass := w.cSetSnapshotCaseW }
  rw [← hz] at hpass hmessages
  have hkept : Pass.Kept x.pass.classified w := by
    rw [hw]
    exact ⟨rfl, rfl, rfl, rfl, rfl, rfl⟩
  have hregs : x.ingressWC.pass.regs = w.cSetSnapshotCaseW.tUpdateSnapshotValue.regs := by
    rw [hrun, ciForward_regs, hpass]
  rw [htakes.regs] at hregs
  constructor
  · exact ⟨z.pass, by rw [hpass]; exact hkept.trans htakes.kept, by rw [hrun]⟩
  · constructor
    · rw [hregs, hw]
      rfl
    · rw [hregs, hw]
      rfl
  · rw [hregs, hw]
  · rw [hregs, hw]
  · rw [hrun]
    dsimp only
    rw [hmessages, htakes.changed, htakes.snapshotCase, htakes.kept.snapshotFeature, hw]
    rfl

/-- A packet from a host counts and nothing else. -/
theorem ingressWC_host {x : IngressC C} (hf : x.pass.hdr.Framed) (hmd : x.pass.md = default)
    (hport : C.HasPort (x.pass.hdr.unitPort x.pass.ingressPort))
    (hfeature : x.pass.hdr.feature = 0#2) :
    x.ingressWC = { x with
      pass := Pass.ciForward (Pass.ciAddHeader (Pass.tReadAndUpdateCounter x.pass.classified)) } := by
  obtain ⟨w, hw⟩ : ∃ w, w = Pass.tReadAndUpdateCounter x.pass.classified := ⟨_, rfl⟩
  have hcase : w.md.snapshotFeature = 0#2 := by
    rw [hw]
    exact hfeature
  rw [PassC.ingressWC, if_pos hf.ethernet.2, PassC.ciHandleIPv4WC,
    Pass.ciInitializeSS_eq (by rw [hmd]; rfl) hport, Pass.tCheckRollover_host hfeature, ← hw,
    if_pos hcase]

/-- The packet `x` came into an egress unit when `f` was the last identifier in its metadata, had
case `c` and went on as `y`. The channel has the cell `o` if it has one. -/
structure Departs (x y : EgressC C) (o : Option ℕ) (f : BitVec 16) (c : BitVec 2) : Prop where
  lastSeen : y.pass.regs.lastSeen = o.elim x.pass.regs.lastSeen fun i =>
    x.pass.regs.lastSeen.write i x.pass.hdr.snapshotHeader.snapshotId
  snapshotId : y.pass.regs.snapshotId = if c = 1#2 then
      x.pass.regs.snapshotId.write x.pass.egressPort.toNat x.pass.hdr.snapshotHeader.snapshotId
    else x.pass.regs.snapshotId
  messages : y.clones.map (·.messageType) = (PassC.teMessageType
    (x.pass.hdr.snapshotHeader.snapshotId - f) x.pass.md.snapshotFeature c).toList ++
    x.clones.map (·.messageType)

theorem teFinalizePacket_regs (z : Egress C) : z.teFinalizePacket.regs = z.regs := by
  unfold Pass.teFinalizePacket
  split_ifs <;> rfl

/-- The check finds nothing if the identifier is not below the last one. -/
theorem tCheckRollover_unwrapped {v : Egress C}
    (hfeature : v.md.snapshotFeature = 0#2 ∨ v.md.snapshotFeature = 1#2 ∨ v.md.snapshotFeature = 2#2)
    (hzero : v.md.snapshotFeature = 0#2 → v.md.snapshotRolloverCheck = 0#16)
    (hle : v.md.formerLastSeen ≤ v.hdr.snapshotHeader.snapshotId) :
    v.tCheckRollover.md.snapshotRolloverCheck = 0#16 := by
  rw [Pass.tCheckRollover]
  by_cases h0 : v.md.snapshotFeature = 0#2
  · rw [h0, if_neg (by decide)]
    exact hzero h0
  · rw [if_pos (hfeature.resolve_left h0)]
    exact (satSub_eq_zero _ _).mpr hle

/-- A packet whose identifier has not wrapped since the last one in its metadata. -/
theorem egressWC_header {x : EgressC C} {o : Option ℕ} {f : BitVec 16}
    (hether : x.pass.hdr.ethernet.etherType = 0x800#16) (hport : C.HasPort x.pass.egressPort)
    (hzero : x.pass.md.snapshotFeature = 0#2 → x.pass.md.snapshotRolloverCheck = 0#16)
    (hfeature : x.pass.md.snapshotFeature = 0#2 ∨ x.pass.md.snapshotFeature = 1#2 ∨
      x.pass.md.snapshotFeature = 2#2)
    (ho : Pass.teLastSeenIndex C x.pass.egressPort x.pass.hdr.snapshotHeader.portId
      x.pass.hdr.ipv4Option.option = o)
    (hf : f = o.elim x.pass.md.formerLastSeen x.pass.regs.lastSeen.read)
    (hle : f ≤ x.pass.hdr.snapshotHeader.snapshotId) :
    Departs x x.egressWC o f (Pass.noRolloverCase f.toNat
      (x.pass.regs.heldId x.pass.egressPort).toNat x.pass.hdr.snapshotHeader.snapshotId.toNat) := by
  obtain ⟨u, hu⟩ : ∃ u, u = Pass.tReadAndUpdateCounter
    (x.pass.aeSetEffectivePort x.pass.egressPort) := ⟨_, rfl⟩
  obtain ⟨v, hv⟩ : ∃ v, v = o.elim u fun i => u.rUpdateLastSeen i := ⟨_, rfl⟩
  obtain ⟨w, hw⟩ : ∃ w, w = Pass.tCheckRollover v := ⟨_, rfl⟩
  have hseen : Pass.teUpdateLastSeen u = v := by
    rw [hv, hu]
    exact Pass.teUpdateLastSeen_eq ho
  have hstart : Pass.Kept u v ∧ v.md.formerLastSeen = f ∧
      v.md.snapshotRolloverCheck = x.pass.md.snapshotRolloverCheck ∧
      v.regs.snapshotId = x.pass.regs.snapshotId ∧
      v.regs.lastSeen = o.elim x.pass.regs.lastSeen fun i =>
        x.pass.regs.lastSeen.write i x.pass.hdr.snapshotHeader.snapshotId := by
    rw [hv, hf, hu]
    cases o with
    | none => exact ⟨⟨rfl, rfl, rfl, rfl, rfl, rfl⟩, rfl, rfl, rfl, rfl⟩
    | some i => exact ⟨⟨rfl, rfl, rfl, rfl, rfl, rfl⟩, rfl, rfl, rfl, rfl⟩
  obtain ⟨hkept, hformer, hroll, hids, hlast⟩ := hstart
  have hhdr : v.hdr = x.pass.hdr := hkept.hdr.trans (by rw [hu]; rfl)
  have hport' : v.md.effectivePort = x.pass.egressPort := hkept.effectivePort.trans (by rw [hu]; rfl)
  have hfeature' : v.md.snapshotFeature = x.pass.md.snapshotFeature :=
    hkept.snapshotFeature.trans (by rw [hu]; rfl)
  obtain ⟨hkeptw, hregsw, hformerw⟩ := Pass.tCheckRollover_kept v
  rw [← hw] at hkeptw hregsw hformerw
  rw [hformer] at hformerw
  have hcheck : w.md.snapshotRolloverCheck = 0#16 := by
    rw [hw]
    apply tCheckRollover_unwrapped
    · rw [hfeature']
      exact hfeature
    · rw [hfeature', hroll]
      exact hzero
    · rw [hformer, hhdr]
      exact hle
  have hcase : Pass.noRolloverCase f.toNat (x.pass.regs.heldId x.pass.egressPort).toNat
      x.pass.hdr.snapshotHeader.snapshotId.toNat = if w.md.snapshotRolloverCheck = 0#16 then
        Pass.noRolloverCase w.md.formerLastSeen.toNat (w.regs.heldId w.md.effectivePort).toNat
          w.hdr.snapshotHeader.snapshotId.toNat
      else Pass.rolloverCase w.md.formerLastSeen.toNat (w.regs.heldId w.md.effectivePort).toNat
        w.hdr.snapshotHeader.snapshotId.toNat := by
    rw [if_pos hcheck, hformerw, hkeptw.effectivePort, hport', hkeptw.hdr, hhdr, hregsw, Regs.heldId,
      Regs.heldId, hids]
  have htakes := Pass.takes_of_case hcase
  obtain ⟨z, hz⟩ : ∃ z, z = PassC.ceTakeSnapshotWithChannelState
    { x with pass := w.cSetSnapshotCaseW } := ⟨_, rfl⟩
  obtain ⟨hpass, hmessages⟩ :=
    PassC.ceTakeSnapshotWithChannelState_eq { x with pass := w.cSetSnapshotCaseW }
  rw [← hz] at hpass hmessages
  have hrun : x.egressWC = { z with pass := z.pass.teFinalizePacket } := by
    rw [PassC.egressWC, if_neg hport.ne_cpuPort, if_pos hether, PassC.ceHandleIPv4WC,
      Pass.teSetEffectivePort, if_pos hport, ← hu, hseen, ← hw, hz]
  have hregs : x.egressWC.pass.regs = w.cSetSnapshotCaseW.tUpdateSnapshotValue.regs := by
    rw [hrun, teFinalizePacket_regs, hpass]
  rw [htakes.regs] at hregs
  constructor
  · rw [hregs, hregsw]
    exact hlast
  · rw [hregs, hregsw, hkeptw.hdr, hhdr, hkeptw.effectivePort, hport', hids]
  · rw [hrun]
    dsimp only
    rw [hmessages, htakes.changed, htakes.snapshotCase, htakes.kept.snapshotFeature,
      hkeptw.snapshotFeature, hfeature', hkeptw.hdr, hhdr, hformerw]

end Passes

end P4Survey.Speedlight
