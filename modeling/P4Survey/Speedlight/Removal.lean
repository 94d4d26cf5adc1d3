import P4Survey.Speedlight.ChannelState
import P4Survey.Speedlight.Rules

/-! # Adding and removing the snapshot header

A packet of a host gets the snapshot header at the first switch, is parsed again
at every further one, and loses the header at the port of the host that it is for.
The rules for these ports are the operator's: `teFinalizePacket` has an action for
them and `generate_rules.py` none. The switches on the way may run different
variants and have any registers.

A packet without options comes out as it went in. Where it has options, the header
takes the place of the first two bytes of them and does not give them back.
-/

namespace P4Survey.Speedlight
open Lib

namespace Pass

variable {C : Config}

/-- The fields of a header that is not valid are set as well. -/
def aeRemoveSnapshotHeader (x : Egress C) : Egress C :=
  { x with hdr := { x.hdr with
    snapshotHeaderValid := false
    ipv4OptionValid := false
    ipv4.ihl := x.md.tempIhl
    ipv4.totalLen := x.hdr.ipv4.totalLen - 8#16
    ipv4Option := ⟨0#1, 0#2, 0#5, 0#8⟩
    snapshotHeader.snapshotId := 0#16
    snapshotHeader.portId := 0#9
    ipv4.ttl := x.hdr.ipv4.ttl - 1#8 } }

/-- The table with the rules of an operator, who knows the ports of hosts. -/
def teFinalizePacketAt (host : Bool) (x : Egress C) : Egress C :=
  if x.hdr.ipv4Option.option = ipv4OptionSsCpu then x.aeDropPacket
  else if host then x.aeRemoveSnapshotHeader
  else x.aeUpdateSnapshotHeader

end Pass

namespace Variant

variable {C : Config}

def ingress (v : Variant) (x : Ingress C) : Ingress C :=
  match v with
  | pkt => x.ingress
  | pktW => x.ingressW
  | pktWC => (PassC.mk x default none []).ingressWC.pass

/-- What egress does before the last table. -/
def ceTakeSnapshot (v : Variant) (x : Egress C) : Egress C :=
  let y := x.teSetEffectivePort.tReadAndUpdateCounter
  match v with
  | pkt => y.ceSetSnapshotCase.ceTakeSnapshot
  | pktW => y.teUpdateLastSeen.tCheckRollover.cSetSnapshotCaseW.ceTakeSnapshot
  | pktWC =>
    (PassC.ceTakeSnapshotWithChannelState
      ⟨y.teUpdateLastSeen.tCheckRollover.cSetSnapshotCaseW, default, none, []⟩).pass

/-- Egress at a port other than that of the control plane. -/
def egress (v : Variant) (host : Bool) (x : Egress C) : Egress C :=
  if x.hdr.ethernet.etherType = 0x800#16 then (v.ceTakeSnapshot x).teFinalizePacketAt host else x

end Variant

/-- A switch on the way of a packet, in any state, and the ports that the packet takes. -/
structure Hop where
  config : Config
  variant : Variant
  switch : Switch config
  ingressPort : BitVec 9
  egressPort : BitVec 9
  hasPort : config.HasPort egressPort

namespace Hop

variable (n : Hop)

def arriving (h : Headers) : Ingress n.config :=
  ⟨n.switch.ingress, h, default, default, n.ingressPort, n.egressPort, 0#9, [], false⟩

/-- The packet between ingress and egress. -/
def leaving (y : Ingress n.config) : Egress n.config :=
  ⟨n.switch.egress, y.hdr, y.md, y.tocpu, y.ingressPort, y.egressSpec, y.egressSpec, [], false⟩

def process (host : Bool) (h : Headers) : Egress n.config :=
  n.variant.egress host (n.leaving (n.variant.ingress (n.arriving h)))

/-- The packet that leaves the switch. -/
def send (host : Bool) (l : List Bool) : Option (List Bool) :=
  let (h, payload) := parse l
  let z := n.process host h
  if z.dropped then none else some (deparse (ipv4ChksumCalcSnapshot z.hdr) payload)

end Hop

/-- The packet goes through the switches and leaves the last one for a host. -/
def deliver : List Hop → Hop → List Bool → Option (List Bool)
  | [], last, l => last.send true l
  | n :: hops, last, l => (n.send false l).bind (deliver hops last)

/-- A complete IPv4 packet. -/
structure Datagram where
  ethernet : Ethernet
  ipv4 : Ipv4
  options : List Bool
  payload : List Bool
  etherType : ethernet.etherType = 0x800#16
  ihl : 5 ≤ ipv4.ihl.toNat
  options_length : options.length = 32 * (ipv4.ihl.toNat - 5)

namespace Datagram

variable (d : Datagram)

def bits : List Bool := d.ethernet.bits ++ (d.ipv4.bits ++ (d.options ++ d.payload))

/-- The first option, if there is one, is none of those that the parser knows. -/
def NoSnapshotOption : Prop :=
  ∀ x ∈ Ipv4Option.extract d.options,
    x.1.option ≠ ipv4OptionSs ∧ x.1.option ≠ ipv4OptionSsCpu

/-- The same packet but for its time to live and its checksum. -/
def SameBut (l : List Bool) : Prop :=
  ∃ ttl hdrChecksum, l = d.ethernet.bits ++
    (Ipv4.bits { d.ipv4 with ttl := ttl, hdrChecksum := hdrChecksum } ++ (d.options ++ d.payload))

end Datagram

namespace Pass

variable {C : Config} {neighbors : ℕ}

/-- The fields that the tables before the last one leave alone. -/
structure Passes (x y : Pass C neighbors) : Prop where
  hdr : y.hdr = x.hdr
  snapshotFeature : y.md.snapshotFeature = x.md.snapshotFeature
  tempIhl : y.md.tempIhl = x.md.tempIhl
  egressSpec : y.egressSpec = x.egressSpec
  dropped : y.dropped = x.dropped

theorem Passes.trans {x y z : Pass C neighbors} (h : Passes x y) (h' : Passes y z) : Passes x z :=
  ⟨h'.hdr.trans h.hdr, h'.snapshotFeature.trans h.snapshotFeature, h'.tempIhl.trans h.tempIhl,
    h'.egressSpec.trans h.egressSpec, h'.dropped.trans h.dropped⟩

section Tables

variable (x : Pass C neighbors)

theorem tReadAndUpdateCounter_passes : Passes x x.tReadAndUpdateCounter :=
  ⟨rfl, rfl, rfl, rfl, rfl⟩

theorem cSetSnapshotCase_passes :
    Passes x (tSetSnapshotCase (aCheckSnapshotCase (tUpdateSnapshotId x))) := by
  unfold tSetSnapshotCase
  split_ifs <;> exact ⟨rfl, rfl, rfl, rfl, rfl⟩

theorem cTakeSnapshot_passes (messageType : BitVec 8) :
    Passes x (tSendNotification messageType (tTakeSnapshot x)) := by
  unfold tSendNotification tTakeSnapshot
  split_ifs <;> exact ⟨rfl, rfl, rfl, rfl, rfl⟩

theorem tCheckRollover_passes : Passes x x.tCheckRollover := by
  unfold tCheckRollover
  split_ifs <;> exact ⟨rfl, rfl, rfl, rfl, rfl⟩

theorem cSetSnapshotCaseW_passes : Passes x x.cSetSnapshotCaseW := by
  unfold cSetSnapshotCaseW cSetSnapshotCaseNoRollover cSetSnapshotCaseRollover
    tSetSnapshotCaseNoRollover tSetSnapshotCaseRollover
  split_ifs <;> exact ⟨rfl, rfl, rfl, rfl, rfl⟩

theorem tUpdateSnapshotValue_passes : Passes x x.tUpdateSnapshotValue := by
  unfold tUpdateSnapshotValue
  split_ifs <;> exact ⟨rfl, rfl, rfl, rfl, rfl⟩

theorem tiUpdateLastSeen_passes (x : Ingress C) : Passes x x.tiUpdateLastSeen := by
  unfold tiUpdateLastSeen
  cases tiLastSeenIndex C x.md.effectivePort x.md.snapshotFeature <;>
    exact ⟨rfl, rfl, rfl, rfl, rfl⟩

theorem teUpdateLastSeen_passes (x : Egress C) : Passes x x.teUpdateLastSeen := by
  unfold teUpdateLastSeen
  cases teLastSeenIndex C x.md.effectivePort x.hdr.snapshotHeader.portId
    x.hdr.ipv4Option.option <;> exact ⟨rfl, rfl, rfl, rfl, rfl⟩

end Tables

variable {x : Ingress C}

theorem ciInitializeSS_passes (h0 : x.md.snapshotFeature = 0#2) :
    x.ciInitializeSS.hdr = x.hdr ∧ x.ciInitializeSS.md.snapshotFeature = x.hdr.feature ∧
      x.ciInitializeSS.egressSpec = x.egressSpec := by
  rw [ciInitializeSS, tiCheckOption_eq h0, tiSetEffectivePort]
  split_ifs <;> exact ⟨rfl, rfl, rfl⟩

end Pass

namespace Variant

open Pass

variable {C : Config} (v : Variant)

/-- Ingress adds the header to a packet without one, after tables that leave it alone, and
ends with its update. -/
theorem ingress_eq {x : Ingress C} (heth : x.hdr.ethernet.etherType = 0x800#16) :
    ∃ w z, Passes x.ciInitializeSS w ∧ Passes x.ciInitializeSS z ∧
      v.ingress x = ciForward (if w.md.snapshotFeature = 0#2 then w.ciAddHeader else z) := by
  have hseen (y : Ingress C) : Passes y y.tReadAndUpdateCounter.tiUpdateLastSeen.tCheckRollover :=
    (tReadAndUpdateCounter_passes y).trans
      ((tiUpdateLastSeen_passes _).trans (tCheckRollover_passes _))
  cases v with
  | pkt =>
    refine ⟨_, _, tReadAndUpdateCounter_passes _, ?_, if_pos heth⟩
    exact (tReadAndUpdateCounter_passes _).trans
      ((cSetSnapshotCase_passes _).trans (cTakeSnapshot_passes _ _))
  | pktW =>
    refine ⟨_, _, hseen _, ?_, if_pos heth⟩
    exact (hseen _).trans ((cSetSnapshotCaseW_passes _).trans (cTakeSnapshot_passes _ _))
  | pktWC =>
    obtain ⟨w, hw⟩ : ∃ w, w =
        x.ciInitializeSS.tReadAndUpdateCounter.tiUpdateLastSeen.tCheckRollover := ⟨_, rfl⟩
    have hpasses : Passes x.ciInitializeSS w := hw ▸ hseen _
    refine ⟨w, w.cSetSnapshotCaseW.tUpdateSnapshotValue, hpasses,
      hpasses.trans ((cSetSnapshotCaseW_passes _).trans (tUpdateSnapshotValue_passes _)), ?_⟩
    rw [ingress, PassC.ingressWC, if_pos heth, PassC.ciHandleIPv4WC]
    dsimp only
    rw [← hw, apply_ite PassC.pass, (PassC.ciTakeSnapshotWithChannelState_eq _).1]

theorem ceTakeSnapshot_passes (x : Egress C) : Passes x.teSetEffectivePort (v.ceTakeSnapshot x) := by
  have hseen (y : Egress C) : Passes y y.tReadAndUpdateCounter.teUpdateLastSeen.tCheckRollover :=
    (tReadAndUpdateCounter_passes y).trans
      ((teUpdateLastSeen_passes _).trans (tCheckRollover_passes _))
  unfold ceTakeSnapshot
  cases v with
  | pkt =>
    exact (tReadAndUpdateCounter_passes _).trans
      ((cSetSnapshotCase_passes _).trans (cTakeSnapshot_passes _ _))
  | pktW => exact (hseen _).trans ((cSetSnapshotCaseW_passes _).trans (cTakeSnapshot_passes _ _))
  | pktWC =>
    dsimp only
    rw [(PassC.ceTakeSnapshotWithChannelState_eq _).1]
    exact (hseen _).trans ((cSetSnapshotCaseW_passes _).trans (tUpdateSnapshotValue_passes _))

end Variant

namespace Headers

/-- The headers of a host's packet on its way, given those it came in with. -/
def inFlight (h : Headers) (ttl : BitVec 8) (hdrChecksum : BitVec 16) (snap : SnapshotHeader) :
    Headers :=
  { h with
    ipv4 := { h.ipv4 with
      ihl := h.ipv4.ihl + 2#4
      totalLen := h.ipv4.totalLen + 8#16
      ttl := ttl
      hdrChecksum := hdrChecksum }
    ipv4OptionValid := true
    ipv4Option := ⟨1#1, 2#2, ipv4OptionSs, 8#8⟩
    snapshotHeaderValid := true
    snapshotHeader := snap }

variable {h : Headers} {ttl : BitVec 8} {hdrChecksum : BitVec 16} {snap : SnapshotHeader}

@[simp] theorem feature_inFlight : (h.inFlight ttl hdrChecksum snap).feature = 1#2 := rfl

theorem Framed.inFlight (hf : h.Framed) (hihl : 5 ≤ h.ipv4.ihl.toNat) :
    (h.inFlight ttl hdrChecksum snap).Framed := by
  have hnext : h.ipv4.ihl + 2#4 ≠ 5#4 := by
    intro he
    have : h.ipv4.ihl = 3#4 := by bv_omega
    rw [this] at hihl
    exact absurd hihl (by decide)
  constructor
  · exact hf.ethernet
  · exact hf.tocpuNotif
  · exact hf.ipv4
  · exact (if_neg hnext).mpr rfl
  · rfl

-- the checksum stays a variable, as it does in the statement it comes from
theorem chksum_checksum (h : Headers) : ∃ c, ipv4ChksumCalcSnapshot h =
    { h with ipv4 := { h.ipv4 with hdrChecksum := c } } := ⟨_, rfl⟩

theorem chksum_inFlight (h : Headers) (ttl : BitVec 8) (hdrChecksum : BitVec 16)
    (snap : SnapshotHeader) :
    ∃ c, ipv4ChksumCalcSnapshot (h.inFlight ttl hdrChecksum snap) = h.inFlight ttl c snap := by
  obtain ⟨c, hc⟩ := (h.inFlight ttl hdrChecksum snap).chksum_checksum
  exact ⟨c, hc⟩

end Headers

namespace Variant

open Pass

variable {C : Config} (v : Variant)

section Ingress

variable {x : Ingress C}

/-- A packet of a host gets the header. -/
theorem ingress_adds (hf : x.hdr.Framed) (h0 : x.md.snapshotFeature = 0#2)
    (hfeature : x.hdr.feature = 0#2) :
    (v.ingress x).egressSpec = x.egressSpec ∧
      ∃ snap, (v.ingress x).hdr = x.hdr.inFlight x.hdr.ipv4.ttl x.hdr.ipv4.hdrChecksum snap := by
  obtain ⟨hhdr, hfeature', hspec⟩ := ciInitializeSS_passes h0
  obtain ⟨w, z, hw, -, hrun⟩ := v.ingress_eq hf.ethernet.2
  have hcase : w.md.snapshotFeature = 0#2 := by rw [hw.snapshotFeature, hfeature', hfeature]
  have hcase' : w.ciAddHeader.md.snapshotFeature ≠ 2#2 := by
    change w.md.snapshotFeature ≠ 2#2
    rw [hcase]
    decide
  have hwx : w.hdr = x.hdr := hw.hdr.trans hhdr
  rw [hrun, if_pos hcase, ciForward, if_neg hcase']
  refine ⟨hw.egressSpec.trans hspec, ?_⟩
  rw [← hwx]
  exact ⟨_, rfl⟩

/-- A packet of another switch keeps it. -/
theorem ingress_keeps {h : Headers} {ttl : BitVec 8} {c : BitVec 16} {snap : SnapshotHeader}
    (hf : x.hdr.Framed) (h0 : x.md.snapshotFeature = 0#2) (hx : x.hdr = h.inFlight ttl c snap) :
    (v.ingress x).egressSpec = x.egressSpec ∧ ∃ snap, (v.ingress x).hdr = h.inFlight ttl c snap := by
  obtain ⟨hhdr, hfeature', hspec⟩ := ciInitializeSS_passes h0
  obtain ⟨w, z, hw, hz, hrun⟩ := v.ingress_eq hf.ethernet.2
  have hfeature : x.hdr.feature = 1#2 := by rw [hx, Headers.feature_inFlight]
  have hcase : w.md.snapshotFeature ≠ 0#2 := by
    rw [hw.snapshotFeature, hfeature', hfeature]
    decide
  have hcase' : z.md.snapshotFeature ≠ 2#2 := by
    rw [hz.snapshotFeature, hfeature', hfeature]
    decide
  have hzx : z.hdr = h.inFlight ttl c snap := (hz.hdr.trans hhdr).trans hx
  rw [hrun, if_neg hcase, ciForward, if_neg hcase', aiSetSnapInfo, hzx]
  exact ⟨hz.egressSpec.trans hspec, _, rfl⟩

end Ingress

section Egress

variable {x : Egress C} {h : Headers} {ttl : BitVec 8} {c : BitVec 16} {snap : SnapshotHeader}

theorem egress_eq (heth : h.ethernet.etherType = 0x800#16) (hx : x.hdr = h.inFlight ttl c snap)
    (hport : C.HasPort x.egressPort) (host : Bool) :
    ∃ z : Egress C, z.hdr = h.inFlight ttl c snap ∧ z.md.tempIhl = h.ipv4.ihl ∧
      z.dropped = x.dropped ∧
      v.egress host x = if host then z.aeRemoveSnapshotHeader else z.aeUpdateSnapshotHeader := by
  have hpasses := v.ceTakeSnapshot_passes x
  rw [teSetEffectivePort, if_pos hport] at hpasses
  have hz : (v.ceTakeSnapshot x).hdr = h.inFlight ttl c snap := hpasses.hdr.trans hx
  refine ⟨v.ceTakeSnapshot x, hz, ?_, hpasses.dropped, ?_⟩
  · rw [hpasses.tempIhl]
    change x.hdr.ipv4.ihl - 2#4 = _
    rw [hx]
    change h.ipv4.ihl + 2#4 - 2#4 = _
    bv_omega
  · have heth' : x.hdr.ethernet.etherType = 0x800#16 := by
      rw [hx]
      exact heth
    have hoption : ¬(v.ceTakeSnapshot x).hdr.ipv4Option.option = ipv4OptionSsCpu := by
      rw [hz]
      change ¬ipv4OptionSs = ipv4OptionSsCpu
      decide
    rw [egress, if_pos heth', teFinalizePacketAt, if_neg hoption]

end Egress

end Variant

/-- The headers of a host's packet at a switch, at the first one or at a further one. -/
def Headers.Arrives (h : Headers) (ttl : BitVec 8) (h' : Headers) : Prop :=
  (h' = h ∧ h.feature = 0#2 ∧ ttl = h.ipv4.ttl) ∨ ∃ c snap, h' = h.inFlight ttl c snap

namespace Hop

variable (n : Hop) {h h' : Headers} {ttl : BitVec 8}

theorem ingress_arriving (hf : h.Framed) (hihl : 5 ≤ h.ipv4.ihl.toNat) (ha : h.Arrives ttl h') :
    (n.variant.ingress (n.arriving h')).egressSpec = n.egressPort ∧
      ∃ c snap, (n.variant.ingress (n.arriving h')).hdr = h.inFlight ttl c snap := by
  rcases ha with ⟨rfl, hfeature, rfl⟩ | ⟨c, snap, rfl⟩
  · obtain ⟨hspec, snap, hhdr⟩ := n.variant.ingress_adds (x := n.arriving h') hf rfl hfeature
    exact ⟨hspec, _, snap, hhdr⟩
  · obtain ⟨hspec, snap', hhdr⟩ := n.variant.ingress_keeps
      (x := n.arriving (h.inFlight ttl c snap)) (hf.inFlight hihl) rfl rfl
    exact ⟨hspec, c, snap', hhdr⟩

/-- The packet before the last table of egress. -/
theorem process_eq (hf : h.Framed) (hihl : 5 ≤ h.ipv4.ihl.toNat) (ha : h.Arrives ttl h')
    (host : Bool) :
    ∃ (c : BitVec 16) (snap : SnapshotHeader) (z : Egress n.config),
      z.hdr = h.inFlight ttl c snap ∧ z.md.tempIhl = h.ipv4.ihl ∧ z.dropped = false ∧
      n.process host h' = if host then z.aeRemoveSnapshotHeader else z.aeUpdateSnapshotHeader := by
  obtain ⟨hspec, c, snap, hhdr⟩ := n.ingress_arriving hf hihl ha
  have hport : n.config.HasPort (n.leaving (n.variant.ingress (n.arriving h'))).egressPort := by
    change n.config.HasPort (n.variant.ingress (n.arriving h')).egressSpec
    rw [hspec]
    exact n.hasPort
  obtain ⟨z, hz⟩ := n.variant.egress_eq hf.ethernet.2 hhdr hport host
  exact ⟨c, snap, z, hz⟩

theorem process_switch (hf : h.Framed) (hihl : 5 ≤ h.ipv4.ihl.toNat) (ha : h.Arrives ttl h') :
    (n.process false h').dropped = false ∧
      ∃ c snap, (n.process false h').hdr = h.inFlight (ttl - 1#8) c snap := by
  obtain ⟨c, snap, z, hz, -, hd, hprocess⟩ := n.process_eq hf hihl ha false
  rw [hprocess, if_neg (by decide), Pass.aeUpdateSnapshotHeader, hz]
  exact ⟨hd, c, _, rfl⟩

theorem process_host (hf : h.Framed) (hihl : 5 ≤ h.ipv4.ihl.toNat) (ha : h.Arrives ttl h') :
    (n.process true h').dropped = false ∧
      ∃ c opt snap, (n.process true h').hdr =
        { h with
          ipv4 := { h.ipv4 with ttl := ttl - 1#8, hdrChecksum := c }
          ipv4OptionValid := false
          ipv4Option := opt
          snapshotHeaderValid := false
          snapshotHeader := snap } := by
  obtain ⟨c, snap, z, hz, htemp, hd, hprocess⟩ := n.process_eq hf hihl ha true
  have hlen : h.ipv4.totalLen + 8#16 - 8#16 = h.ipv4.totalLen := by bv_omega
  rw [hprocess, if_pos rfl, Pass.aeRemoveSnapshotHeader, hz, htemp]
  refine ⟨hd, c, ⟨0#1, 0#2, 0#5, 0#8⟩, { snap with snapshotId := 0#16, portId := 0#9 }, ?_⟩
  simp only [Headers.inFlight, hlen]

variable {l rest : List Bool}

theorem send_eq (hl : parse l = (h', rest)) {host : Bool} (hd : (n.process host h').dropped = false) :
    n.send host l = some (deparse (ipv4ChksumCalcSnapshot (n.process host h').hdr) rest) := by
  rw [send, hl]
  dsimp only
  rw [hd, if_neg (by decide)]

/-- A further switch gets the packet with the header. -/
theorem send_switch (hf : h.Framed) (hihl : 5 ≤ h.ipv4.ihl.toNat) (hl : parse l = (h', rest))
    (ha : h.Arrives ttl h') :
    ∃ l' h'', n.send false l = some l' ∧ parse l' = (h'', rest) ∧ h.Arrives (ttl - 1#8) h'' := by
  obtain ⟨hd, c, snap, hhdr⟩ := n.process_switch hf hihl ha
  obtain ⟨c', hc'⟩ := Headers.chksum_inFlight h (ttl - 1#8) c snap
  refine ⟨deparse (h.inFlight (ttl - 1#8) c' snap) rest, _, ?_,
    parse_deparse (hf.inFlight hihl) rest, .inr ⟨c', snap, rfl⟩⟩
  rw [n.send_eq hl hd, hhdr, hc']

/-- A host gets the packet without the header. -/
theorem send_host (hf : h.Framed) (hihl : 5 ≤ h.ipv4.ihl.toNat) (hl : parse l = (h', rest))
    (ha : h.Arrives ttl h') :
    ∃ c, n.send true l = some (h.ethernet.bits ++
      (Ipv4.bits { h.ipv4 with ttl := ttl - 1#8, hdrChecksum := c } ++ rest)) := by
  obtain ⟨hd, c, opt, snap, hhdr⟩ := n.process_host hf hihl ha
  obtain ⟨c', hc'⟩ := (n.process true h').hdr.chksum_checksum
  refine ⟨c', ?_⟩
  rw [n.send_eq hl hd, hc', hhdr, deparse]
  dsimp only
  rw [hf.ethernet.1, hf.tocpuNotif.1, hf.ipv4, if_pos rfl, if_neg (by decide), if_pos rfl,
    if_neg (by decide), if_neg (by decide), List.nil_append, List.nil_append, List.nil_append]

end Hop

/-- The packet that the host gets, after any number of switches. -/
theorem deliver_eq {h : Headers} (hf : h.Framed) (hihl : 5 ≤ h.ipv4.ihl.toNat) (hops : List Hop)
    (last : Hop) {l rest : List Bool} {h' : Headers} {ttl : BitVec 8} (hl : parse l = (h', rest))
    (ha : h.Arrives ttl h') :
    ∃ ttl c, deliver hops last l = some (h.ethernet.bits ++
      (Ipv4.bits { h.ipv4 with ttl := ttl, hdrChecksum := c } ++ rest)) := by
  induction hops generalizing l h' ttl with
  | nil => exact ⟨_, last.send_host hf hihl hl ha⟩
  | cons n hops ih =>
    obtain ⟨l', h'', hsend, hl', ha'⟩ := n.send_switch hf hihl hl ha
    rw [deliver, hsend]
    exact ih hl' ha'

namespace Datagram

variable {d : Datagram}

/-- Where there are options, the parser takes the first two bytes of them. -/
theorem exists_option (h : d.ipv4.ihl ≠ 5#4) : ∃ o rest, d.options = Ipv4Option.bits o ++ rest := by
  have hihl := d.ihl
  have hne : d.ipv4.ihl.toNat ≠ 5 := fun he => h (BitVec.eq_of_toNat_eq he)
  have hlen : 16 ≤ d.options.length := by
    rw [d.options_length]
    omega
  obtain ⟨copyFlag, l₁, h₁, hl₁⟩ := exists_bits_append (w := 1) (l := d.options) (by omega)
  obtain ⟨optClass, l₂, h₂, hl₂⟩ := exists_bits_append (w := 2) (l := l₁) (by omega)
  obtain ⟨option, l₃, h₃, hl₃⟩ := exists_bits_append (w := 5) (l := l₂) (by omega)
  obtain ⟨optionLength, l₄, h₄, -⟩ := exists_bits_append (w := 8) (l := l₃) (by omega)
  refine ⟨⟨copyFlag, optClass, option, optionLength⟩, l₄, ?_⟩
  rw [h₁, h₂, h₃, h₄, Ipv4Option.bits, List.append_assoc, List.append_assoc, List.append_assoc]

/-- What the parser makes of the packet, and how much of it is left. -/
theorem parse_bits (hno : d.NoSnapshotOption) :
    ∃ h rest, parse d.bits = (h, rest) ∧ h.Framed ∧ h.feature = 0#2 ∧ h.ethernet = d.ethernet ∧
      h.ipv4 = d.ipv4 ∧ (d.ipv4.ihl = 5#4 → rest = d.options ++ d.payload) ∧
      (d.ipv4.ihl ≠ 5#4 → rest.length < (d.options ++ d.payload).length) := by
  by_cases hihl : d.ipv4.ihl = 5#4
  · let h : Headers :=
      { (default : Headers) with
        ethernetValid := true, ethernet := d.ethernet, ipv4Valid := true, ipv4 := d.ipv4 }
    have hf : h.Framed :=
      ⟨⟨rfl, d.etherType⟩, ⟨rfl, rfl⟩, rfl, (if_pos hihl).mpr ⟨rfl, rfl⟩, ⟨rfl, rfl⟩⟩
    refine ⟨h, d.options ++ d.payload, parse_deparse hf (d.options ++ d.payload), hf, rfl, rfl, rfl,
      fun _ => rfl, fun hne => absurd hihl hne⟩
  · obtain ⟨o, rest, ho⟩ := exists_option hihl
    have hoption := hno (o, rest) (by rw [ho, Ipv4Option.extract_bits]; rfl)
    let h : Headers :=
      { (default : Headers) with
        ethernetValid := true, ethernet := d.ethernet, ipv4Valid := true, ipv4 := d.ipv4,
        ipv4OptionValid := true, ipv4Option := o }
    have hf : h.Framed :=
      ⟨⟨rfl, d.etherType⟩, ⟨rfl, rfl⟩, rfl, (if_neg hihl).mpr rfl,
        (if_neg fun hs => hs.2.elim hoption.1 hoption.2).mpr ⟨rfl, rfl⟩⟩
    have hbits : d.bits = deparse h (rest ++ d.payload) := by
      rw [bits, ho, List.append_assoc]
      rfl
    have hfeature : h.feature = 0#2 := by
      rw [Headers.feature, if_pos rfl, if_neg hoption.1, if_neg hoption.2]
    refine ⟨h, rest ++ d.payload, ?_, hf, hfeature, rfl, rfl, fun he => absurd he hihl, fun _ => ?_⟩
    · rw [hbits, parse_deparse hf]
    · have hlen : o.bits.length = 16 := by simp [Ipv4Option.bits]
      rw [ho, List.append_assoc]
      simp only [List.length_append, hlen]
      omega

/-- A packet with options comes out shorter. -/
theorem not_sameBut_deliver (hno : d.NoSnapshotOption) (hihl : d.ipv4.ihl ≠ 5#4) (hops : List Hop)
    (last : Hop) : ¬∃ l ∈ deliver hops last d.bits, d.SameBut l := by
  rintro ⟨l, hl, ttl, c, hsame⟩
  obtain ⟨h, rest, hparse, hf, hfeature, heth, hip, -, hshort⟩ := parse_bits hno
  have hmin : 5 ≤ h.ipv4.ihl.toNat := hip ▸ d.ihl
  obtain ⟨ttl', c', hdeliver⟩ := deliver_eq hf hmin hops last hparse (.inl ⟨rfl, hfeature, rfl⟩)
  rw [hdeliver] at hl
  have hlen := congrArg List.length ((Option.some.inj hl).trans hsame)
  rw [heth, List.length_append, List.length_append, List.length_append, List.length_append,
    Ipv4.bits_length, Ipv4.bits_length] at hlen
  have := hshort hihl
  omega

end Datagram

/-- A packet of a host reaches another host unchanged, but for its time to live and its
checksum, if and only if it has no options. -/
theorem deliver_lossless_iff (d : Datagram) (hno : d.NoSnapshotOption) (hops : List Hop)
    (last : Hop) : (∃ l ∈ deliver hops last d.bits, d.SameBut l) ↔ d.ipv4.ihl = 5#4 := by
  constructor
  · intro hsame
    by_contra hihl
    exact Datagram.not_sameBut_deliver hno hihl hops last hsame
  · intro hihl
    obtain ⟨h, rest, hparse, hf, hfeature, heth, hip, hrest, -⟩ := Datagram.parse_bits hno
    have hmin : 5 ≤ h.ipv4.ihl.toNat := hip ▸ d.ihl
    obtain ⟨ttl, c, hdeliver⟩ := deliver_eq hf hmin hops last hparse (.inl ⟨rfl, hfeature, rfl⟩)
    refine ⟨_, hdeliver, ttl, c, ?_⟩
    rw [heth, hip, hrest hihl]

/-- A switch with two ports before any packet, from port 1 to port 2. -/
def labHop (v : Variant) : Hop :=
  ⟨⟨2, 4⟩, v, .zero _, 1#9, 2#9, by decide⟩

theorem labEthernet_etherType :
    (⟨2#48, 1#48, 0x800#16⟩ : Ethernet).etherType = 0x800#16 := rfl

/-- A packet with a payload of one byte. -/
def labDatagram (ihl : BitVec 4) (options : List Bool) (hihl : 5 ≤ ihl.toNat)
    (hlen : options.length = 32 * (ihl.toNat - 5)) : Datagram where
  ethernet := ⟨2#48, 1#48, 0x800#16⟩
  ipv4 := { (default : Ipv4) with version := 4#4, ihl := ihl, ttl := 64#8 }
  options := options
  payload := [false, true, false, true, false, true, false, true]
  etherType := labEthernet_etherType
  ihl := hihl
  options_length := hlen

theorem deliver_lossless_three :
    ∃ l ∈ deliver [labHop .pkt, labHop .pktW] (labHop .pktWC)
        (labDatagram 5#4 [] (by decide) rfl).bits,
      (labDatagram 5#4 [] (by decide) rfl).SameBut l :=
  (deliver_lossless_iff (labDatagram 5#4 [] (by decide) rfl) (by rintro x hx; cases hx)
    [labHop .pkt, labHop .pktW] (labHop .pktWC)).mpr rfl

/-- The packet has an option of four bytes, a router alert. -/
theorem deliver_loses_option :
    ¬∀ (d : Datagram) (hops : List Hop) (last : Hop), d.ipv4.ihl.toNat ≤ 13 → d.NoSnapshotOption →
      ∃ l ∈ deliver hops last d.bits, d.SameBut l := by
  intro h
  obtain ⟨d, hd⟩ : ∃ d, d = labDatagram 6#4
      (Ipv4Option.bits ⟨1#1, 0#2, 20#5, 4#8⟩ ++ Lib.bits (0#16)) (by decide) (by decide) := ⟨_, rfl⟩
  have hno : d.NoSnapshotOption := by
    rw [hd, Datagram.NoSnapshotOption]
    change ∀ x ∈ Ipv4Option.extract (Ipv4Option.bits ⟨1#1, 0#2, 20#5, 4#8⟩ ++ Lib.bits (0#16)), _
    rw [Ipv4Option.extract_bits]
    rintro x ⟨⟩
    decide
  have hihl : d.ipv4.ihl = 6#4 := by rw [hd]; rfl
  refine Datagram.not_sameBut_deliver hno ?_ [] (labHop .pkt) (h d [] (labHop .pkt) ?_ hno)
  · rw [hihl]
    decide
  · rw [hihl]
    decide

end P4Survey.Speedlight
