import P4Survey.Lib.Register
import P4Survey.Speedlight.Parser

/-! # The pipeline of Speedlight

The program `Pkt.p4` with the rules of `generate_rules.py`. Ingress and egress
have their own registers of the same shape, and the tables of the two directions
that do the same differ in one letter of their name; the definition for both has
the name without that letter.
-/

namespace P4Survey.Speedlight
open Lib

/-- The numbers that `generate_p4vars.py` and `generate_rules.py` are given. -/
structure Config where
  ports : ℕ
  snapshots : ℕ
  deriving DecidableEq

/-- The ports that have rules. Port zero is the one of the control plane. -/
def Config.HasPort (C : Config) (p : BitVec 9) : Prop := 1 ≤ p.toNat ∧ p.toNat ≤ C.ports

instance (C : Config) (p : BitVec 9) : Decidable (C.HasPort p) := inferInstanceAs (Decidable (_ ∧ _))

def cpuPort : BitVec 9 := 0#9

/-- The registers of one direction. -/
structure Regs (C : Config) (neighbors : ℕ) where
  counter : Register 32 (C.ports + 1)
  lastSeen : Register 16 neighbors
  snapshotId : Register 16 (C.ports + 1)
  snapshotValue : Register 32 (C.snapshots * C.ports)

def Regs.zero (C : Config) (neighbors : ℕ) : Regs C neighbors :=
  ⟨.fill _ 0#32, .fill _ 0#16, .fill _ 0#16, .fill _ 0#32⟩

/-- A channel into an ingress unit comes from its link or from the control plane. -/
def Config.neighborsIng (C : Config) : ℕ := C.ports * 2

/-- A channel into an egress unit comes from another port or from the control plane. -/
def Config.neighborsEgr (C : Config) : ℕ := C.ports * C.ports

structure Switch (C : Config) where
  ingress : Regs C C.neighborsIng
  egress : Regs C C.neighborsEgr

def Switch.zero (C : Config) : Switch C := ⟨.zero C _, .zero C _⟩

structure SnapshotMetadata where
  currentId : BitVec 16
  currentReading : BitVec 32
  effectivePort : BitVec 9
  snapshotFeature : BitVec 2
  switchRolloverCheck : BitVec 16
  switchGreater : BitVec 16
  packetGreater : BitVec 16
  snapshotCase : BitVec 2
  tempIhl : BitVec 4
  formerId : BitVec 16
  formerLastSeen : BitVec 16
  snapshotChangedCheck : BitVec 16
  snapshotRolloverCheck : BitVec 16
  deriving DecidableEq, Inhabited

/-- What a packet carries through the tables of one direction, with the registers of that
direction and the notifications cloned to the control plane. -/
structure Pass (C : Config) (neighbors : ℕ) where
  regs : Regs C neighbors
  hdr : Headers
  md : SnapshotMetadata
  tocpu : Tocpu
  ingressPort : BitVec 9
  egressSpec : BitVec 9
  egressPort : BitVec 9
  clones : List Tocpu
  dropped : Bool

abbrev Ingress (C : Config) : Type := Pass C C.neighborsIng

abbrev Egress (C : Config) : Type := Pass C C.neighborsEgr

/-- The difference of two fields whose destination is saturating. -/
def satSub {w : ℕ} (a b : BitVec w) : BitVec w := if a < b then 0#w else a - b

/-- The primitives count with `get<int>() + 1`. From the value `2 ^ 31 - 1` on this addition
overflows, so the cells of a run have a meaning only as long as their counts stay below
`2 ^ 31`. -/
def intSucc (v : BitVec 32) : BitVec 32 := v + 1#32

/-- The index of a snapshot value. -/
def valueIndex (C : Config) (snapshotId : BitVec 16) (port : BitVec 9) : ℕ :=
  snapshotId.toNat * C.ports + port.toNat - 1

namespace Pass

variable {C : Config} {neighbors : ℕ}

section Both

/-- The counter is read before it is incremented. -/
def rReadAndUpdateCounter (i : ℕ) (x : Pass C neighbors) : Pass C neighbors :=
  { x with
    md.currentReading := x.regs.counter.read i
    regs.counter := x.regs.counter.write i (intSucc (x.regs.counter.read i)) }

def tReadAndUpdateCounter (x : Pass C neighbors) : Pass C neighbors :=
  x.rReadAndUpdateCounter x.md.effectivePort.toNat

def rUpdateSnapshotId (i : ℕ) (x : Pass C neighbors) : Pass C neighbors :=
  { x with
    md.formerId := x.regs.snapshotId.read i
    regs.snapshotId :=
      if x.regs.snapshotId.read i < x.hdr.snapshotHeader.snapshotId then
        x.regs.snapshotId.write i x.hdr.snapshotHeader.snapshotId
      else x.regs.snapshotId }

def tUpdateSnapshotId (x : Pass C neighbors) : Pass C neighbors :=
  x.rUpdateSnapshotId x.md.effectivePort.toNat

def aCheckSnapshotCase (x : Pass C neighbors) : Pass C neighbors :=
  { x with
    md.switchGreater := satSub x.md.formerId x.hdr.snapshotHeader.snapshotId
    md.packetGreater := satSub x.hdr.snapshotHeader.snapshotId x.md.formerId
    md.currentId := x.md.formerId }

def aSetSnapshotCase (c : BitVec 2) (x : Pass C neighbors) : Pass C neighbors :=
  { x with md.snapshotCase := c }

/-- The ternary rules in the order of their priority, `0` for forward, `1` for a new snapshot
and `2` for a packet in flight. -/
def tSetSnapshotCase (x : Pass C neighbors) : Pass C neighbors :=
  if x.md.switchGreater = 0#16 ∧ x.md.packetGreater = 0#16 then x.aSetSnapshotCase 0#2
  else if x.md.switchGreater = 0#16 then x.aSetSnapshotCase 1#2
  else if x.md.packetGreater = 0#16 then x.aSetSnapshotCase 2#2
  else x

def aTakeSnapshot (index : ℕ) (x : Pass C neighbors) : Pass C neighbors :=
  { x with
    regs.snapshotValue := x.regs.snapshotValue.write index x.md.currentReading
    md.currentId := x.hdr.snapshotHeader.snapshotId }

/-- There is a rule for each port and each identifier up to the maximum. -/
def tTakeSnapshot (x : Pass C neighbors) : Pass C neighbors :=
  if x.md.snapshotCase = 1#2 ∧ x.hdr.snapshotHeader.snapshotId.toNat ≤ C.snapshots ∧
      C.HasPort x.md.effectivePort then
    x.aTakeSnapshot (valueIndex C x.hdr.snapshotHeader.snapshotId x.md.effectivePort)
  else x

def aSendNotification (messageType : BitVec 8) (x : Pass C neighbors) : Pass C neighbors :=
  let tocpu : Tocpu :=
    ⟨messageType, x.md.effectivePort.setWidth 16, x.hdr.snapshotHeader.snapshotId⟩
  { x with tocpu := tocpu, clones := tocpu :: x.clones }

def tSendNotification (messageType : BitVec 8) (x : Pass C neighbors) : Pass C neighbors :=
  if x.md.snapshotCase = 1#2 then x.aSendNotification messageType else x

end Both

section IngressTables

def aiCheckOption (feature : BitVec 2) (x : Ingress C) : Ingress C :=
  { x with md.snapshotFeature := feature }

def tiCheckOption (x : Ingress C) : Ingress C :=
  if x.hdr.ipv4Option.option = ipv4OptionSs then x.aiCheckOption 1#2
  else if x.hdr.ipv4Option.option = ipv4OptionSsCpu then x.aiCheckOption 2#2
  else x.aiCheckOption 0#2

def aiSetEffectivePort (portIndex : BitVec 9) (x : Ingress C) : Ingress C :=
  { x with md.effectivePort := portIndex }

def aiFakeEffectivePort (x : Ingress C) : Ingress C :=
  { x with md.effectivePort := x.hdr.snapshotHeader.portId }

def tiSetEffectivePort (x : Ingress C) : Ingress C :=
  if (x.md.snapshotFeature = 1#2 ∨ x.md.snapshotFeature = 0#2) ∧ C.HasPort x.ingressPort then
    x.aiSetEffectivePort x.ingressPort
  else if x.md.snapshotFeature = 2#2 then x.aiFakeEffectivePort
  else x

def ciInitializeSS (x : Ingress C) : Ingress C :=
  tiSetEffectivePort (if x.hdr.ipv4OptionValid then x.tiCheckOption else x)

def aiGetSnapshotId (x : Ingress C) : Ingress C :=
  { x with md.currentId := x.regs.snapshotId.read x.md.effectivePort.toNat }

/-- Adding a header that is there already leaves its fields. -/
def aiAddHeader (x : Ingress C) : Ingress C :=
  { x with hdr := { x.hdr with
    ipv4OptionValid := true
    ipv4Option := ⟨1#1, 2#2, ipv4OptionSs, 8#8⟩
    ipv4.totalLen := x.hdr.ipv4.totalLen + 8#16
    ipv4.ihl := x.hdr.ipv4.ihl + 2#4
    snapshotHeaderValid := true
    snapshotHeader := if x.hdr.snapshotHeaderValid then x.hdr.snapshotHeader else default } }

def ciAddHeader (x : Ingress C) : Ingress C := x.aiGetSnapshotId.aiAddHeader

def ciSetSnapshotCase (x : Ingress C) : Ingress C :=
  tSetSnapshotCase (aCheckSnapshotCase (tUpdateSnapshotId x))

/-- The flag of a new snapshot at ingress. -/
def cpuNewssIngress : BitVec 8 := 0b100#8

def ciTakeSnapshot (x : Ingress C) : Ingress C :=
  tSendNotification cpuNewssIngress (tTakeSnapshot x)

def tiForwardInitiation (x : Ingress C) : Ingress C :=
  if C.HasPort x.md.effectivePort then { x with egressSpec := x.md.effectivePort } else x

def aiSetSnapInfo (x : Ingress C) : Ingress C :=
  { x with
    hdr.snapshotHeader.snapshotId := x.md.currentId
    hdr.snapshotHeader.portId := x.md.effectivePort }

/-- The end of ingress, the same in all variants of the program. -/
def ciForward (x : Ingress C) : Ingress C :=
  if x.md.snapshotFeature = 2#2 then x.tiForwardInitiation else x.aiSetSnapInfo

def ciHandleIPv4 (x : Ingress C) : Ingress C :=
  let x := tReadAndUpdateCounter x.ciInitializeSS
  ciForward (if x.md.snapshotFeature = 0#2 then x.ciAddHeader
    else ciTakeSnapshot (ciSetSnapshotCase x))

def ingress (x : Ingress C) : Ingress C :=
  if x.hdr.ethernet.etherType = 0x800#16 then x.ciHandleIPv4 else x

end IngressTables

section EgressTables

def aeFormatForCpu (x : Egress C) : Egress C :=
  { x with hdr := { x.hdr with
    snapshotHeaderValid := false
    ipv4OptionValid := false
    ipv4Valid := false
    tocpuNotifValid := true
    tocpuNotif := x.tocpu
    ethernet.etherType := 0x88b6#16 } }

def aeSetEffectivePort (portIndex : BitVec 9) (x : Egress C) : Egress C :=
  { x with
    md.tempIhl := x.hdr.ipv4.ihl - 2#4
    md.effectivePort := portIndex }

def teSetEffectivePort (x : Egress C) : Egress C :=
  if C.HasPort x.egressPort then x.aeSetEffectivePort x.egressPort else x

def ceSetSnapshotCase (x : Egress C) : Egress C :=
  tSetSnapshotCase (aCheckSnapshotCase (tUpdateSnapshotId x))

/-- The flag of a new snapshot at egress. -/
def cpuNewssEgress : BitVec 8 := 0b101#8

def ceTakeSnapshot (x : Egress C) : Egress C :=
  tSendNotification cpuNewssEgress (tTakeSnapshot x)

def aeDropPacket (x : Egress C) : Egress C := { x with dropped := true }

def aeUpdateSnapshotHeader (x : Egress C) : Egress C :=
  { x with
    hdr.snapshotHeader.snapshotId := x.md.currentId
    hdr.snapshotHeader.portId := x.md.effectivePort
    hdr.ipv4.ttl := x.hdr.ipv4.ttl - 1#8 }

/-- No rule removes the snapshot header: none is generated for the ports of hosts. -/
def teFinalizePacket (x : Egress C) : Egress C :=
  if x.hdr.ipv4Option.option = ipv4OptionSsCpu then x.aeDropPacket else x.aeUpdateSnapshotHeader

def ceHandleIPv4 (x : Egress C) : Egress C :=
  let x := tReadAndUpdateCounter x.teSetEffectivePort
  teFinalizePacket (ceTakeSnapshot (ceSetSnapshotCase x))

def egress (x : Egress C) : Egress C :=
  if x.egressPort = cpuPort then x.aeFormatForCpu
  else if x.hdr.ethernet.etherType = 0x800#16 then x.ceHandleIPv4
  else x

end EgressTables

end Pass

end P4Survey.Speedlight
