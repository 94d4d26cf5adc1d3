import P4Survey.Lib.System
import P4Survey.LinearRoad.Alerts
import P4Survey.LinearRoad.TravelEstimate

/-! # Tolls and accounts of Linear Road

Position reports and balance requests from ingress to the packets they lead to. A
toll is added to the account of its vehicle at ingress; egress clones the report,
and the clone comes back as the notification. An alert and the answer to a request
are made in the same way. A second clone of one pass would replace the first one,
but a report never leads to both a toll and an alert.

The tables have the entries of `commands.txt`; those that forward and send frames
have any entries.
-/

namespace P4Survey.LinearRoad
open Lib

structure AccntBalReq where
  time : BitVec 16
  vid : BitVec 32
  qid : BitVec 32
  deriving DecidableEq, Inhabited

structure AccntBal where
  time : BitVec 16
  vid : BitVec 32
  emit : BitVec 16
  qid : BitVec 32
  bal : BitVec 32
  deriving DecidableEq, Inhabited

structure TollNotification where
  time : BitVec 16
  vid : BitVec 32
  emit : BitVec 16
  spd : BitVec 8
  toll : BitVec 16
  deriving DecidableEq, Inhabited

structure AccidentAlert where
  time : BitVec 16
  vid : BitVec 32
  emit : BitVec 16
  seg : BitVec 8
  deriving DecidableEq, Inhabited

/-- The headers of a packet with one of these messages. -/
structure TollHeaders where
  ethernet : Ethernet
  ipv4 : Ipv4
  udp : Udp
  msgType : BitVec 8
  posReport : Option PosReport
  accntBalReq : Option AccntBalReq
  tollNotification : Option TollNotification
  accidentAlert : Option AccidentAlert
  accntBal : Option AccntBal
  deriving DecidableEq, Inhabited

inductive Lpm where
  | setNhop (nhop : BitVec 32) (port : BitVec 9)
  | drop
  | miss
  deriving DecidableEq

inductive Forward where
  | setDmac (dmac : BitVec 48)
  | drop
  | miss
  deriving DecidableEq

inductive Frame where
  | rewriteMac (smac : BitVec 48)
  | drop
  | miss
  deriving DecidableEq

structure TollTables where
  ipv4Lpm : BitVec 32 → Lpm
  forward : BitVec 32 → Forward
  sendFrame : BitVec 9 → Frame

/-- The metadata that egress reads. -/
structure TollEgressMeta where
  accidentMeta : AccidentMeta
  accidentRecirculate : BitVec 1
  tollMeta : TollMetadata
  tollRecirculate : BitVec 1
  accntBalRecirculate : BitVec 1
  segMeta : SegMetadata
  deriving DecidableEq, Inhabited

/-- A packet in egress, with the session of its clone and what the clone keeps. -/
structure TollPass where
  hdr : TollHeaders
  metadata : TollEgressMeta
  egressPort : BitVec 9
  clone : Option (BitVec 32 × TollEgressMeta)
  dropped : Bool
  deriving DecidableEq

def TollHeaders.enter (hdr : TollHeaders) (metadata : TollEgressMeta) (port : BitVec 9) : TollPass :=
  ⟨hdr, metadata, port, none, false⟩

namespace TollPass

variable (T : TollTables) (x : TollPass)

/-- The clone keeps `accident_meta` and `accident_egress_meta`. -/
def accidentAlertE2e (mirSes : BitVec 32) : TollPass :=
  { x with
    metadata.accidentRecirculate := 1#1
    clone := some (mirSes, { (default : TollEgressMeta) with
      accidentMeta := x.metadata.accidentMeta, accidentRecirculate := 1#1 }) }

def makeAccidentAlert : TollPass :=
  let report := x.hdr.posReport.getD default
  { x with hdr := { x.hdr with
    msgType := 11#8
    accidentAlert := some ⟨report.time, report.vid, 0#16, x.metadata.accidentMeta.accidentSeg⟩
    posReport := none
    ipv4.totalLen := 38#16
    udp.len := 18#16
    udp.checksum := 0#16 } }

def sendAccidentAlert : TollPass :=
  if x.metadata.accidentMeta.hasAccidentAhead = 1#1 then
    if x.metadata.accidentRecirculate = 0#1 then x.accidentAlertE2e 1#32 else x.makeAccidentAlert
  else x

/-- The clone keeps `toll_meta`, `toll_egress_meta` and `seg_meta`. -/
def tollNotificationE2e (mirSes : BitVec 32) : TollPass :=
  { x with
    metadata.tollRecirculate := 1#1
    clone := some (mirSes, { (default : TollEgressMeta) with
      tollMeta := x.metadata.tollMeta, tollRecirculate := 1#1, segMeta := x.metadata.segMeta }) }

def makeTollNotification : TollPass :=
  let report := x.hdr.posReport.getD default
  { x with hdr := { x.hdr with
    msgType := 10#8
    tollNotification := some ⟨report.time, report.vid, 0#16, x.metadata.segMeta.ewmaSpd.setWidth 8,
      x.metadata.tollMeta.toll⟩
    posReport := none
    ipv4.totalLen := 40#16
    udp.len := 20#16
    udp.checksum := 0#16 } }

def sendTollNotification : TollPass :=
  if x.metadata.tollMeta.hasToll = 1#1 then
    if x.metadata.tollRecirculate = 0#1 then x.tollNotificationE2e 1#32 else x.makeTollNotification
  else x

/-- The clone keeps `toll_meta` and `accnt_bal_egress_meta`. -/
def accntBalE2e (mirSes : BitVec 32) : TollPass :=
  { x with
    metadata.accntBalRecirculate := 1#1
    clone := some (mirSes, { (default : TollEgressMeta) with
      tollMeta := x.metadata.tollMeta, accntBalRecirculate := 1#1 }) }

def makeAccntBal : TollPass :=
  let req := x.hdr.accntBalReq.getD default
  { x with hdr := { x.hdr with
    msgType := 12#8
    accntBal := some ⟨req.time, req.vid, 0#16, req.qid, x.metadata.tollMeta.bal⟩
    accntBalReq := none
    ipv4.totalLen := 45#16
    udp.len := 25#16
    udp.checksum := 0#16 } }

def sendAccntBal : TollPass :=
  if x.metadata.accntBalRecirculate = 0#1 then x.accntBalE2e 1#32 else x.makeAccntBal

def sendFrame : TollPass :=
  match T.sendFrame x.egressPort with
  | .rewriteMac smac => { x with hdr.ethernet.srcAddr := smac }
  | .drop => { x with dropped := true }
  | .miss => x

/-- Egress for packets with a report or a request, up to the last table. -/
def messages : TollPass :=
  if x.hdr.posReport.isSome then x.sendAccidentAlert.sendTollNotification
  else if x.hdr.accntBalReq.isSome then x.sendAccntBal
  else x

def egress : TollPass := sendFrame T x.messages

/-- The clone enters egress with the headers as they left it. -/
def cloned : Option TollPass :=
  x.clone.bind fun s => (EstimatePass.mirroring s.1).map (x.hdr.enter s.2)

def sent : Option TollHeaders := if x.dropped then none else some x.hdr

/-- What comes of each pass, if there is none left after `fuel` of them. -/
def loop : ℕ → TollPass → Option (List (Option TollHeaders))
  | 0, _ => none
  | fuel + 1, x =>
    let y := x.egress T
    match y.cloned with
    | none => some [y.sent]
    | some z => (loop fuel z).map (y.sent :: ·)

end TollPass

/-- The metadata after the part of ingress for these messages, and the registers. -/
def Regs.handle (regs : Regs) (hdr : TollHeaders) : Regs × TollEgressMeta :=
  match hdr.posReport, hdr.accntBalReq with
  | some report, _ =>
    let x := (report.arrive regs).ingress
    (x.regs, ⟨x.accidentMeta, 0#1, x.tollMeta, 0#1, 0#1, x.segMeta⟩)
  | none, some req =>
    (regs, { (default : TollEgressMeta) with tollMeta.bal := regs.vAccntBal.read req.vid.toNat })
  | none, none => (regs, default)

/-- The tables `ipv4_lpm` and `forward`: the headers and the egress port. -/
def TollTables.route (T : TollTables) (hdr : TollHeaders) : TollHeaders × BitVec 9 :=
  let (hdr, spec) := match T.ipv4Lpm hdr.ipv4.dstAddr with
    | .setNhop nhop port => ({ hdr with ipv4.dstAddr := nhop }, port)
    | .drop => (hdr, dropPort)
    | .miss => (hdr, 0#9)
  match T.forward hdr.ipv4.dstAddr with
  | .setDmac dmac => ({ hdr with ethernet.dstAddr := dmac }, spec)
  | .drop => (hdr, dropPort)
  | .miss => (hdr, spec)

/-- One packet through the switch: the registers and the packets sent. -/
def TollTables.switch (T : TollTables) (fuel : ℕ) (regs : Regs) (hdr : TollHeaders) :
    Option (Regs × List TollHeaders) :=
  let r := regs.handle hdr
  let (hdr, port) := T.route hdr
  if port = dropPort then some (r.1, [])
  else (TollPass.loop T fuel (hdr.enter r.2 port)).map fun l => (r.1, l.reduceOption)

section Charge

/-- The tables before that of the tolls leave the account and the toll metadata alone. -/
structure Unbilled (x y : Pass) : Prop where
  report : y.report = x.report
  toll : y.tollMeta = x.tollMeta
  bal : y.regs.vAccntBal = x.regs.vAccntBal

theorem Unbilled.trans {x y z : Pass} (h : Unbilled x y) (h' : Unbilled y z) : Unbilled x z :=
  ⟨h'.report.trans h.report, h'.toll.trans h.toll, h'.bal.trans h.bal⟩

/-- Nor do those of the stops and of the accidents change what the toll depends on. -/
structure Unpriced (x y : Pass) : Prop extends Unbilled x y where
  newSeg : y.vState.newSeg = x.vState.newSeg
  segMeta : y.segMeta = x.segMeta

theorem Unpriced.trans {x y z : Pass} (h : Unpriced x y) (h' : Unpriced y z) : Unpriced x z :=
  ⟨h.toUnbilled.trans h'.toUnbilled, h'.newSeg.trans h.newSeg, h'.segMeta.trans h.segMeta⟩

namespace Pass

variable (x : Pass)

theorem updateNewSeg_unbilled : Unbilled x x.updateNewSeg := by
  unfold updateNewSeg
  split_ifs <;> exact ⟨rfl, rfl, rfl⟩

theorem updateVolState_unbilled : Unbilled x x.updateVolState := by
  unfold updateVolState
  split_ifs <;> exact ⟨rfl, rfl, rfl⟩

theorem updateEwmaSpd_unbilled : Unbilled x x.updateEwmaSpd := by
  unfold updateEwmaSpd
  split_ifs <;> exact ⟨rfl, rfl, rfl⟩

theorem updateLoc_unpriced : Unpriced x x.updateLoc := by
  unfold updateLoc
  split_ifs <;> exact ⟨⟨rfl, rfl, rfl⟩, rfl, rfl⟩

theorem decPrevStopped_unpriced : Unpriced x x.decPrevStopped := by
  unfold decPrevStopped
  split_ifs <;> exact ⟨⟨rfl, rfl, rfl⟩, rfl, rfl⟩

theorem incStopped_unpriced : Unpriced x x.incStopped := by
  unfold incStopped
  split_ifs <;> exact ⟨⟨rfl, rfl, rfl⟩, rfl, rfl⟩

theorem checkAccidents_unpriced : Unpriced x x.doLoadStoppedAhead.checkAccidents := by
  unfold checkAccidents
  split <;> exact ⟨⟨rfl, rfl, rfl⟩, rfl, rfl⟩

end Pass

/-- The vehicle comes into its segment with the report. -/
def Regs.Enters (regs : Regs) (r : PosReport) : Prop :=
  regs.vValid.read r.vid.toNat = 0#1 ∨ regs.vSeg.read r.vid.toNat ≠ r.seg

/-- The vehicles in the segment of the report, as their register has it, and the one that reports. -/
def Regs.cars (regs : Regs) (r : PosReport) : ℕ :=
  (regs.segVol.read (dirsegIdx r.xway r.seg r.dir)).toNat + 1

/-- The average speed in a segment with other vehicles: a quarter of it is the speed reported. -/
def Regs.averageSpd (regs : Regs) (r : PosReport) : ℕ :=
  ((regs.segEwmaSpd.read (dirsegIdx r.xway r.seg r.dir)).toNat * 96 + r.spd.toNat * 32) / 128

/-- The report is to be charged: the vehicle comes into a slow and crowded segment, and none of
the next five segments looks blocked. -/
structure Regs.Charges (regs : Regs) (r : PosReport) : Prop where
  enters : regs.Enters r
  slow : regs.averageSpd r ≤ 39
  crowded : 51 ≤ regs.cars r ∧ regs.cars r ≤ 255
  clear : ∀ k < 5, ¬(regs.process r).Blocked r.xway r.dir (r.seg + .ofNat 8 k)

/-- The notification of the toll: the square of the vehicles above fifty. -/
def Regs.notification (regs : Regs) (r : PosReport) : TollNotification :=
  ⟨r.time, r.vid, 0#16, .ofNat 8 (regs.averageSpd r), .ofNat 16 ((regs.cars r - 50) ^ 2)⟩

/-- What the tables of the volume and of the average speed leave for that of the tolls. -/
structure Pass.Priced (x : Pass) (regs : Regs) (r : PosReport) : Prop where
  newSeg : x.vState.newSeg = 1#1 ↔ regs.Enters r
  vol : regs.Enters r →
    x.segMeta.vol = regs.segVol.read (dirsegIdx r.xway r.seg r.dir) + 1#8
  ewmaSpd : x.segMeta.vol ≠ 1#8 → x.segMeta.ewmaSpd.toNat = regs.averageSpd r

theorem Unpriced.priced {x y : Pass} (h : Unpriced x y) {regs : Regs} {r : PosReport}
    (hx : x.Priced regs r) : y.Priced regs r := by
  constructor
  · rw [h.newSeg]
    exact hx.newSeg
  · rw [h.segMeta]
    exact hx.vol
  · rw [h.segMeta]
    exact hx.ewmaSpd

/-- What `check_toll` finds. -/
structure Pass.Checks (x : Pass) (regs : Regs) (r : PosReport) : Prop extends x.Priced regs r where
  accident : x.accidentMeta.hasAccidentAhead = 0#1 ↔
    ∀ k < 5, ¬(regs.process r).Blocked r.xway r.dir (r.seg + .ofNat 8 k)

namespace Pass

theorem updateVolState_vol {x : Pass} (h : x.vState.newSeg = 1#1) :
    x.updateVolState.segMeta.vol =
      x.regs.segVol.read (dirsegIdx x.report.xway x.report.seg x.report.dir) + 1#8 := by
  have hbit : ∀ b : BitVec 1, b = 0#1 ∨ b = 1#1 := by decide
  rw [updateVolState, h]
  rcases hbit x.vState.new with hnew | hnew
  · rw [hnew, if_neg (by decide), if_neg (by decide), if_pos ⟨rfl, rfl⟩]
    rfl
  · rw [hnew, if_neg (by decide), if_pos ⟨rfl, rfl⟩]
    rfl

theorem updateEwmaSpd_vol (x : Pass) : x.updateEwmaSpd.segMeta.vol = x.segMeta.vol := by
  unfold updateEwmaSpd
  split_ifs <;> rfl

/-- Neither the products nor the sum reach the width of their fields. -/
theorem updateEwmaSpd_spd {x : Pass} (h : x.segMeta.vol ≠ 1#8) :
    x.updateEwmaSpd.segMeta.ewmaSpd.toNat = x.regs.averageSpd x.report := by
  rw [updateEwmaSpd, if_neg h, calcEwmaSpd, Regs.averageSpd]
  generalize x.regs.segEwmaSpd.read _ = spd
  have hspd := spd.isLt
  have hnew := x.report.spd.isLt
  simp only [BitVec.toNat_setWidth, BitVec.toNat_ushiftRight, BitVec.toNat_add, BitVec.toNat_mul,
    BitVec.toNat_ofNat, Nat.shiftRight_eq_div_pow]
  omega

theorem located_newSeg (regs : Regs) (r : PosReport) :
    (located regs r).vState.newSeg = 1#1 ↔ regs.Enters r := by
  rw [located_eq]
  dsimp only
  rw [Regs.Enters]
  split_ifs with h
  · exact iff_of_true rfl h
  · exact iff_of_false (by decide) h

theorem priced (regs : Regs) (r : PosReport) :
    (located regs r).updateVolState.updateEwmaSpd.Priced regs r := by
  obtain ⟨hstate, hreport, -, hregs⟩ := updateVolState_same (located regs r)
  obtain ⟨-, -, hstate', -⟩ := updateEwmaSpd_same (located regs r).updateVolState
  constructor
  · rw [hstate', hstate]
    exact located_newSeg regs r
  · intro henters
    rw [updateEwmaSpd_vol, updateVolState_vol ((located_newSeg regs r).mpr henters), located_eq]
    rfl
  · intro hvol
    rw [updateEwmaSpd_vol] at hvol
    rw [updateEwmaSpd_spd hvol, hreport, hregs, located_eq]
    rfl

theorem Checks.charges_iff {x : Pass} {regs : Regs} {r : PosReport} (h : x.Checks regs r) :
    (x.vState.newSeg = 1#1 ∧ x.segMeta.ewmaSpd ≤ 39#16 ∧ 51#8 ≤ x.segMeta.vol ∧
      x.accidentMeta.hasAccidentAhead = 0#1) ↔ regs.Charges r := by
  have hone : 51#8 ≤ x.segMeta.vol → x.segMeta.vol ≠ 1#8 := by
    intro hvol heq
    rw [heq] at hvol
    exact absurd hvol (by decide)
  have hcars (henters : regs.Enters r) :
      51#8 ≤ x.segMeta.vol ↔ 51 ≤ regs.cars r ∧ regs.cars r ≤ 255 := by
    rw [BitVec.le_def, h.vol henters, Regs.cars, BitVec.toNat_add]
    simp only [BitVec.toNat_ofNat]
    have hlt := (regs.segVol.read (dirsegIdx r.xway r.seg r.dir)).isLt
    omega
  constructor
  · rintro ⟨hnew, hslow, hvol, hacc⟩
    refine ⟨h.newSeg.mp hnew, ?_, (hcars (h.newSeg.mp hnew)).mp hvol, h.accident.mp hacc⟩
    rw [← h.ewmaSpd (hone hvol)]
    exact hslow
  · rintro ⟨henters, hslow, hcrowded, hclear⟩
    have hvol := (hcars henters).mpr hcrowded
    refine ⟨h.newSeg.mpr henters, ?_, hvol, h.accident.mpr hclear⟩
    rw [← h.ewmaSpd (hone hvol)] at hslow
    exact hslow

end Pass

theorem before_toll (regs : Regs) (r : PosReport) :
    ∃ x : Pass, Unbilled (r.arrive regs) x ∧ x.Checks regs r ∧
      (r.arrive regs).ingress = x.checkToll := by
  obtain ⟨x, hx⟩ : ∃ x, x = (Pass.located regs r).updateVolState.updateEwmaSpd := ⟨_, rfl⟩
  have hrun : (r.arrive regs).ingress =
      x.updateLoc.decPrevStopped.incStopped.doLoadStoppedAhead.checkAccidents.checkToll := by
    rw [hx]
    rfl
  have hfirst : Unbilled (r.arrive regs) x := by
    have hposition : Unbilled (r.arrive regs) (r.arrive regs).doUpdatePosState := ⟨rfl, rfl, rfl⟩
    rw [hx]
    exact hposition.trans ((Pass.updateNewSeg_unbilled _).trans
      ((Pass.updateVolState_unbilled _).trans (Pass.updateEwmaSpd_unbilled _)))
  have hpriced : x.Priced regs r := hx ▸ Pass.priced regs r
  have hlater : Unpriced x
      x.updateLoc.decPrevStopped.incStopped.doLoadStoppedAhead.checkAccidents :=
    (Pass.updateLoc_unpriced _).trans ((Pass.decPrevStopped_unpriced _).trans
      ((Pass.incStopped_unpriced _).trans (Pass.checkAccidents_unpriced _)))
  refine ⟨_, hfirst.trans hlater.toUnbilled, ⟨hlater.priced hpriced, ?_⟩, hrun⟩
  rw [← (checkToll_same _).2.1, ← hrun]
  obtain ⟨-, ⟨k, hk, hblocked, -, hflag, -⟩ | ⟨hfree, hflag⟩⟩ := alert_cases regs r
  · refine iff_of_false ?_ fun hfree => hfree k hk hblocked
    rw [hflag]
    decide
  · exact iff_of_true hflag hfree

/-- The square of more than fifty and at most 255 vehicles fits into the toll. -/
theorem toll_eq {vol : BitVec 8} (h : 51#8 ≤ vol) :
    1#16 * (vol.setWidth 16 - 50#16) * (vol.setWidth 16 - 50#16) =
      .ofNat 16 ((vol.toNat - 50) ^ 2) := by
  have hle : 51 ≤ vol.toNat := h
  have hlt := vol.isLt
  have hsub : vol.setWidth 16 - 50#16 = .ofNat 16 (vol.toNat - 50) := by
    apply BitVec.eq_of_toNat_eq
    rw [BitVec.toNat_sub, BitVec.toNat_setWidth, BitVec.toNat_ofNat, BitVec.toNat_ofNat]
    omega
  rw [BitVec.one_mul, hsub, ← BitVec.ofNat_mul, Nat.pow_two]

/-- What a report does to its account: nothing, or the toll of a crowded segment is added. -/
theorem ingress_toll (regs : Regs) (r : PosReport) :
    let y := (r.arrive regs).ingress
    (¬regs.Charges r ∧ y.tollMeta = default ∧ y.regs.vAccntBal = regs.vAccntBal) ∨
      (regs.Charges r ∧ y.accidentMeta.hasAccidentAhead = 0#1 ∧ y.tollMeta.hasToll = 1#1 ∧
        y.segMeta.ewmaSpd.setWidth 8 = (regs.notification r).spd ∧
        y.tollMeta.toll = (regs.notification r).toll ∧
        y.regs.vAccntBal = regs.vAccntBal.write r.vid.toNat
          (regs.vAccntBal.read r.vid.toNat + (regs.notification r).toll.setWidth 32)) := by
  obtain ⟨x, hx, hchecks, he⟩ := before_toll regs r
  rw [he, Pass.checkToll]
  dsimp only
  split_ifs with hc
  · right
    have hcharges := hchecks.charges_iff.mp hc
    obtain ⟨-, hslow, hvol, hacc⟩ := hc
    have hcars : x.segMeta.vol.toNat = regs.cars r := by
      have hcrowded := hcharges.crowded.2
      rw [Regs.cars] at hcrowded
      rw [hchecks.vol hcharges.enters, Regs.cars, BitVec.toNat_add]
      exact Nat.mod_eq_of_lt (by simpa using Nat.lt_succ_of_le hcrowded)
    have htoll : (x.issueToll 1#16).tollMeta.toll = (regs.notification r).toll := by
      rw [Regs.notification, ← hcars, ← toll_eq hvol]
      rfl
    refine ⟨hcharges, hacc, rfl, ?_, htoll, ?_⟩
    · have hne : x.segMeta.vol ≠ 1#8 := by
        intro hone
        rw [hone] at hvol
        exact absurd hvol (by decide)
      change x.segMeta.ewmaSpd.setWidth 8 = .ofNat 8 (regs.averageSpd r)
      rw [← hchecks.ewmaSpd hne]
      rfl
    · have hbal : x.regs.vAccntBal = regs.vAccntBal := hx.bal
      have hreport : x.report = r := hx.report
      rw [← htoll, ← hbal, ← hreport]
      rfl
  · exact .inl ⟨fun h => hc (hchecks.charges_iff.mpr h), hx.toll, hx.bal⟩

end Charge

section Egress

variable {T : TollTables} {x : TollPass}

/-- No packet is routed to the drop port, and no frame is dropped. -/
structure TollTables.NoDrops (T : TollTables) : Prop where
  route : ∀ hdr, (T.route hdr).2 ≠ dropPort
  frame : ∀ port, T.sendFrame port ≠ .drop

theorem TollTables.route_same (T : TollTables) (hdr : TollHeaders) :
    ∃ ethernet ipv4, (T.route hdr).1 = { hdr with ethernet := ethernet, ipv4 := ipv4 } := by
  unfold route
  dsimp only
  split <;> split <;> exact ⟨_, _, rfl⟩

/-- The parts of a packet that settle accounts. -/
def TollHeaders.news (hdr : TollHeaders) : Option TollNotification × Option AccntBal :=
  (hdr.tollNotification, hdr.accntBal)

namespace TollPass

theorem egress_eq (hT : T.NoDrops) (x : TollPass) :
    ∃ ethernet, x.egress T = { x.messages with hdr.ethernet := ethernet } := by
  unfold egress sendFrame
  split
  · exact ⟨_, rfl⟩
  · next h => exact absurd h (hT.frame _)
  · exact ⟨x.messages.hdr.ethernet, rfl⟩

theorem egress_news (hT : T.NoDrops) (x : TollPass) :
    (x.egress T).hdr.news = x.messages.hdr.news := by
  obtain ⟨ethernet, he⟩ := egress_eq hT x
  rw [he]
  rfl

/-- A pass that asks for no clone is the last one. -/
theorem loop_last (hT : T.NoDrops) (fuel : ℕ) (hc : x.messages.clone = none)
    (hd : x.messages.dropped = false) : loop T (fuel + 1) x = some [some (x.egress T).hdr] := by
  obtain ⟨ethernet, he⟩ := egress_eq hT x
  rw [loop, he]
  simp only [cloned, hc, Option.bind_none, sent, hd, Bool.false_eq_true, if_false]

/-- After a pass that asks for a clone in session 1, the clone makes a pass. -/
theorem loop_clone (hT : T.NoDrops) (fuel : ℕ) (metadata : TollEgressMeta)
    (hc : x.messages.clone = some (1#32, metadata)) (hd : x.messages.dropped = false) :
    loop T (fuel + 1) x = (loop T fuel ((x.egress T).hdr.enter metadata 1#9)).map
      (some (x.egress T).hdr :: ·) := by
  obtain ⟨ethernet, he⟩ := egress_eq hT x
  have hm : EstimatePass.mirroring 1#32 = some 1#9 := rfl
  rw [loop, he]
  simp only [cloned, hc, Option.bind_some, hm, Option.map_some, sent, hd, Bool.false_eq_true,
    if_false]

section Messages

variable (hx : x.hdr.posReport.isSome = true)

include hx

theorem messages_alert (hacc : x.metadata.accidentMeta.hasAccidentAhead = 1#1)
    (hrec : x.metadata.accidentRecirculate = 0#1) (htoll : x.metadata.tollMeta.hasToll ≠ 1#1) :
    x.messages = x.accidentAlertE2e 1#32 := by
  have hfirst : x.sendAccidentAlert = x.accidentAlertE2e 1#32 := by
    rw [sendAccidentAlert, if_pos hacc, if_pos hrec]
  rw [messages, if_pos hx, hfirst]
  exact if_neg htoll

theorem messages_makeAlert (hacc : x.metadata.accidentMeta.hasAccidentAhead = 1#1)
    (hrec : x.metadata.accidentRecirculate ≠ 0#1) (htoll : x.metadata.tollMeta.hasToll ≠ 1#1) :
    x.messages = x.makeAccidentAlert := by
  have hfirst : x.sendAccidentAlert = x.makeAccidentAlert := by
    rw [sendAccidentAlert, if_pos hacc, if_neg hrec]
  rw [messages, if_pos hx, hfirst]
  exact if_neg htoll

theorem messages_of_no_accident (hacc : x.metadata.accidentMeta.hasAccidentAhead ≠ 1#1) :
    x.messages = x.sendTollNotification := by
  rw [messages, if_pos hx, sendAccidentAlert, if_neg hacc]

end Messages

theorem messages_of_neither (hx : x.hdr.posReport = none) (hreq : x.hdr.accntBalReq = none) :
    x.messages = x := by
  rw [messages, hx, hreq]
  rfl

theorem messages_of_request (hx : x.hdr.posReport = none) (hreq : x.hdr.accntBalReq.isSome = true) :
    x.messages = x.sendAccntBal := by
  rw [messages, hx, if_pos hreq]
  rfl

end TollPass

/-- What settles accounts among the packets sent for a message, whatever the fuel from two on. -/
def TollPass.Yields (T : TollTables) (x : TollPass)
    (l : List (Option TollNotification × Option AccntBal)) : Prop :=
  ∃ hdrs : List TollHeaders, hdrs.map TollHeaders.news = l ∧
    ∀ fuel, TollPass.loop T (fuel + 2) x = some (hdrs.map some)

theorem TollPass.yields_last (hT : T.NoDrops) (hc : x.messages.clone = none)
    (hd : x.messages.dropped = false) : x.Yields T [x.messages.hdr.news] := by
  refine ⟨[(x.egress T).hdr], ?_, fun fuel => loop_last hT (fuel + 1) hc hd⟩
  rw [List.map_singleton, egress_news hT]

/-- What the pass of the clone makes of the headers, whatever their frame. -/
def TollHeaders.Remade (hdr : TollHeaders) (metadata : TollEgressMeta)
    (n : Option TollNotification × Option AccntBal) : Prop :=
  ∀ ethernet, ∃ y, (TollHeaders.enter { hdr with ethernet := ethernet } metadata 1#9).messages = y ∧
    y.clone = none ∧ y.dropped = false ∧ y.hdr.news = n

theorem TollPass.yields_clone (hT : T.NoDrops) {kept metadata : TollEgressMeta}
    (hm : x.messages = { x with metadata := kept, clone := some (1#32, metadata) })
    (hd : x.dropped = false) {n : Option TollNotification × Option AccntBal}
    (hn : x.hdr.Remade metadata n) : x.Yields T [x.hdr.news, n] := by
  obtain ⟨ethernet, he⟩ := egress_eq hT x
  rw [hm] at he
  have hhdr : (x.egress T).hdr = { x.hdr with ethernet := ethernet } := by rw [he]
  obtain ⟨y, hy, hc', hd', hnews⟩ := hn ethernet
  rw [← hhdr] at hy
  refine ⟨[(x.egress T).hdr, (((x.egress T).hdr.enter metadata 1#9).egress T).hdr], ?_,
    fun fuel => ?_⟩
  · rw [List.map_cons, List.map_singleton, egress_news hT, egress_news hT, hy, hnews, hm]
  · rw [loop_clone hT (fuel + 1) metadata (by rw [hm]) (by rw [hm]; exact hd),
      loop_last hT fuel (by rw [hy]; exact hc') (by rw [hy]; exact hd')]
    rfl

variable {hdr : TollHeaders} {metadata : TollEgressMeta} {port : BitVec 9}

/-- A packet that asks for nothing is sent as it is. -/
theorem yields_neither (hT : T.NoDrops) (hr : hdr.posReport = none)
    (hreq : hdr.accntBalReq = none) : (hdr.enter metadata port).Yields T [hdr.news] := by
  have hm : (hdr.enter metadata port).messages = hdr.enter metadata port :=
    TollPass.messages_of_neither hr hreq
  have hyields := TollPass.yields_last (x := hdr.enter metadata port) hT (by rw [hm]; rfl)
    (by rw [hm]; rfl)
  rw [hm] at hyields
  exact hyields

/-- A report without a toll leads to no notification. -/
theorem yields_untolled (hT : T.NoDrops) (hr : hdr.posReport.isSome = true)
    (hrec : metadata.accidentRecirculate = 0#1) (htoll : metadata.tollMeta.hasToll ≠ 1#1) :
    ∃ l, (∀ n ∈ l, n = hdr.news) ∧ ∀ port, (hdr.enter metadata port).Yields T l := by
  have hone : (1#1 : BitVec 1) ≠ 0#1 := by decide
  have huntolled : (default : TollEgressMeta).tollMeta.hasToll ≠ 1#1 := by decide
  by_cases hacc : metadata.accidentMeta.hasAccidentAhead = 1#1
  · refine ⟨[hdr.news, hdr.news], by simp, fun port => ?_⟩
    apply TollPass.yields_clone hT (TollPass.messages_alert hr hacc hrec htoll) rfl
    intro ethernet
    exact ⟨_, TollPass.messages_makeAlert hr hacc hone huntolled, rfl, rfl, rfl⟩
  · refine ⟨[hdr.news], by simp, fun port => ?_⟩
    have hm : (hdr.enter metadata port).messages = hdr.enter metadata port :=
      (TollPass.messages_of_no_accident hr hacc).trans (if_neg htoll)
    have hyields := TollPass.yields_last (x := hdr.enter metadata port) hT (by rw [hm]; rfl)
      (by rw [hm]; rfl)
    rw [hm] at hyields
    exact hyields

/-- A toll leads to one notification of it. -/
theorem yields_tolled (hT : T.NoDrops) {r : PosReport} (hr : hdr.posReport = some r)
    (hacc : metadata.accidentMeta.hasAccidentAhead ≠ 1#1) (hrec : metadata.tollRecirculate = 0#1)
    (htoll : metadata.tollMeta.hasToll = 1#1) :
    (hdr.enter metadata port).Yields T [hdr.news,
      (some ⟨r.time, r.vid, 0#16, metadata.segMeta.ewmaSpd.setWidth 8, metadata.tollMeta.toll⟩,
        hdr.accntBal)] := by
  have hsome : hdr.posReport.isSome = true := by
    rw [hr]
    rfl
  have hone : (1#1 : BitVec 1) ≠ 0#1 := by decide
  have hclear : (default : TollEgressMeta).accidentMeta.hasAccidentAhead ≠ 1#1 := by decide
  have hm : (hdr.enter metadata port).messages =
      (hdr.enter metadata port).tollNotificationE2e 1#32 :=
    (TollPass.messages_of_no_accident hsome hacc).trans ((if_pos htoll).trans (if_pos hrec))
  apply TollPass.yields_clone hT hm rfl
  intro ethernet
  refine ⟨_, (TollPass.messages_of_no_accident hsome hclear).trans
    ((if_pos htoll).trans (if_neg hone)), rfl, rfl, ?_⟩
  change (some (TollNotification.mk (hdr.posReport.getD default).time
    (hdr.posReport.getD default).vid 0#16 _ _), _) = _
  rw [hr]
  rfl

/-- A request leads to one answer, with the balance that ingress has read. -/
theorem yields_request (hT : T.NoDrops) {req : AccntBalReq} (hr : hdr.posReport = none)
    (hreq : hdr.accntBalReq = some req) (hrec : metadata.accntBalRecirculate = 0#1) :
    (hdr.enter metadata port).Yields T [hdr.news,
      (hdr.tollNotification, some ⟨req.time, req.vid, 0#16, req.qid, metadata.tollMeta.bal⟩)] := by
  have hsome : hdr.accntBalReq.isSome = true := by
    rw [hreq]
    rfl
  have hone : (1#1 : BitVec 1) ≠ 0#1 := by decide
  have hm : (hdr.enter metadata port).messages = (hdr.enter metadata port).accntBalE2e 1#32 :=
    (TollPass.messages_of_request hr hsome).trans (if_pos hrec)
  apply TollPass.yields_clone hT hm rfl
  intro ethernet
  refine ⟨_, (TollPass.messages_of_request hr hsome).trans (if_neg hone), rfl, rfl, ?_⟩
  change (_, some (AccntBal.mk (hdr.accntBalReq.getD default).time
    (hdr.accntBalReq.getD default).vid 0#16 (hdr.accntBalReq.getD default).qid _)) = _
  rw [hreq]
  rfl

end Egress

section Accounts

/-- A message to the switch: it has at most one of a report and a request, and is neither a
notification nor an answer. -/
structure TollHeaders.Incoming (hdr : TollHeaders) : Prop where
  one : hdr.posReport = none ∨ hdr.accntBalReq = none
  toll : hdr.tollNotification = none
  bal : hdr.accntBal = none

instance (hdr : TollHeaders) : Decidable hdr.Incoming :=
  decidable_of_iff ((hdr.posReport = none ∨ hdr.accntBalReq = none) ∧ hdr.tollNotification = none ∧
    hdr.accntBal = none) ⟨fun h => ⟨h.1, h.2.1, h.2.2⟩, fun h => ⟨h.one, h.toll, h.bal⟩⟩

/-- A message and the packets sent for it. -/
structure Handled where
  message : TollHeaders
  sent : List TollHeaders

namespace Handled

variable (h : Handled)

def tolls : List TollNotification := h.sent.filterMap (·.tollNotification)

def answers : List AccntBal := h.sent.filterMap (·.accntBal)

theorem tolls_eq : h.tolls = (h.sent.map TollHeaders.news).filterMap Prod.fst := by
  rw [List.filterMap_map]
  rfl

theorem answers_eq : h.answers = (h.sent.map TollHeaders.news).filterMap Prod.snd := by
  rw [List.filterMap_map]
  rfl

end Handled

/-- The registers, and the messages that have been handled, the last one first. -/
structure Tolling where
  regs : Regs
  log : List Handled

/-- Packets go through the switch one after another. Each of them makes at most two passes. -/
def TollTables.tolling (T : TollTables) (start : Regs) : System Tolling TollHeaders where
  init s := s = ⟨start, []⟩
  enabled _ hdr := hdr.Incoming
  next s hdr := match T.switch 2 s.regs hdr with
    | none => s
    | some (regs, sent) => ⟨regs, ⟨hdr, sent⟩ :: s.log⟩

/-- The registers after these messages, the last one first. -/
def Regs.after (start : Regs) (log : List Handled) : Regs :=
  log.foldr (fun h regs => (regs.handle h.message).1) start

/-- What the notifications have charged a vehicle with. -/
def billed (v : BitVec 32) (log : List Handled) : ℕ :=
  (((log.flatMap Handled.tolls).filter (·.vid = v)).map (·.toll.toNat)).sum

/-- What a message does to the accounts, with what settles accounts among the packets sent. -/
inductive Settles (regs : Regs) (hdr : TollHeaders) :
    Regs → List (Option TollNotification × Option AccntBal) → Prop
  | quiet {regs' : Regs} {l : List (Option TollNotification × Option AccntBal)}
      (hfree : ∀ r, hdr.posReport = some r → ¬regs.Charges r) (hreq : hdr.accntBalReq = none)
      (hbal : regs'.vAccntBal = regs.vAccntBal) (hl : ∀ n ∈ l, n = (none, none)) :
      Settles regs hdr regs' l
  | toll {regs' : Regs} {r : PosReport} (hr : hdr.posReport = some r)
      (hreq : hdr.accntBalReq = none) (hcharges : regs.Charges r)
      (hbal : regs'.vAccntBal = regs.vAccntBal.write r.vid.toNat
        (regs.vAccntBal.read r.vid.toNat + (regs.notification r).toll.setWidth 32)) :
      Settles regs hdr regs' [(none, none), (some (regs.notification r), none)]
  | answer {req : AccntBalReq} (hr : hdr.posReport = none) (hreq : hdr.accntBalReq = some req) :
      Settles regs hdr regs [(none, none), (none, some ⟨req.time, req.vid, 0#16, req.qid,
        regs.vAccntBal.read req.vid.toNat⟩)]

variable {T : TollTables}

/-- What the switch makes of a message, whichever of its tables apply. -/
def TollTables.Handles (T : TollTables) (regs : Regs) (hdr : TollHeaders) : Prop :=
  ∃ sent, T.switch 2 regs hdr = some ((regs.handle hdr).1, sent) ∧
    Settles regs hdr (regs.handle hdr).1 (sent.map TollHeaders.news)

/-- The switch after the part of ingress for these messages. -/
theorem switch_yields (hT : T.NoDrops) {regs regs' : Regs} {hdr : TollHeaders}
    {metadata : TollEgressMeta} (hhandle : regs.handle hdr = (regs', metadata))
    {l : List (Option TollNotification × Option AccntBal)}
    (hl : ∀ port, ((T.route hdr).1.enter metadata port).Yields T l)
    (hs : Settles regs hdr regs' l) : T.Handles regs hdr := by
  obtain ⟨hdrs, hmap, hloop⟩ := hl (T.route hdr).2
  have hred : (hdrs.map some).reduceOption = hdrs := by
    change (hdrs.map some).filterMap id = hdrs
    rw [List.filterMap_map]
    exact List.filterMap_some
  rw [TollTables.Handles, TollTables.switch]
  dsimp only
  rw [if_neg (hT.route hdr), hhandle, hloop 0, Option.map_some, hred]
  exact ⟨hdrs, rfl, hmap ▸ hs⟩

namespace TollHeaders

variable {hdr : TollHeaders}

/-- Routing changes neither the message nor what it settles. -/
theorem Incoming.route (h : hdr.Incoming) (T : TollTables) :
    (T.route hdr).1.posReport = hdr.posReport ∧ (T.route hdr).1.accntBalReq = hdr.accntBalReq ∧
      (T.route hdr).1.tollNotification = none ∧ (T.route hdr).1.accntBal = none := by
  obtain ⟨ethernet, ipv4, hroute⟩ := T.route_same hdr
  rw [hroute]
  exact ⟨rfl, rfl, h.toll, h.bal⟩

theorem Incoming.handles_report (h : hdr.Incoming) (hT : T.NoDrops) (regs : Regs) {r : PosReport}
    (hr : hdr.posReport = some r) : T.Handles regs hdr := by
  obtain ⟨hsome, -, hnotolls, hnobal⟩ := h.route T
  rw [hr] at hsome
  have hreq : hdr.accntBalReq = none := h.one.resolve_left (by rw [hr]; exact Option.some_ne_none r)
  have hhandle : regs.handle hdr = ((r.arrive regs).ingress.regs,
      ⟨(r.arrive regs).ingress.accidentMeta, 0#1, (r.arrive regs).ingress.tollMeta, 0#1, 0#1,
        (r.arrive regs).ingress.segMeta⟩) := by
    rw [Regs.handle, hr]
  have htoll := ingress_toll regs r
  generalize (r.arrive regs).ingress = y at hhandle htoll
  obtain ⟨hfree, htoll, hbal⟩ | ⟨hcharges, hacc, htoll, hspd, hsq, hbal⟩ := htoll
  · have huntolled : y.tollMeta.hasToll ≠ 1#1 := by
      rw [htoll]
      decide
    obtain ⟨l, hquiet, hyields⟩ : ∃ l, (∀ n ∈ l, n = (T.route hdr).1.news) ∧ ∀ port,
        ((T.route hdr).1.enter ⟨y.accidentMeta, 0#1, y.tollMeta, 0#1, 0#1, y.segMeta⟩
          port).Yields T l :=
      yields_untolled hT (by rw [hsome]; rfl) rfl huntolled
    apply switch_yields hT hhandle hyields
    refine .quiet (fun r' hr' => ?_) hreq hbal fun n hn => (hquiet n hn).trans ?_
    · obtain rfl : r = r' := Option.some.inj (hr.symm.trans hr')
      exact hfree
    · exact Prod.ext hnotolls hnobal
  · have hclear : y.accidentMeta.hasAccidentAhead ≠ 1#1 := by
      rw [hacc]
      decide
    apply switch_yields hT hhandle fun port => yields_tolled hT hsome hclear rfl htoll
    rw [TollHeaders.news, hnotolls, hnobal]
    dsimp only
    rw [hspd, hsq]
    exact .toll hr hreq hcharges hbal

theorem Incoming.handles_request (h : hdr.Incoming) (hT : T.NoDrops) (regs : Regs)
    {req : AccntBalReq} (hreq : hdr.accntBalReq = some req) : T.Handles regs hdr := by
  obtain ⟨hnone, hsome, hnotolls, hnobal⟩ := h.route T
  have hr : hdr.posReport = none := h.one.resolve_right (by rw [hreq]; exact Option.some_ne_none req)
  rw [hr] at hnone
  rw [hreq] at hsome
  have hhandle : regs.handle hdr = (regs, { (default : TollEgressMeta) with
      tollMeta.bal := regs.vAccntBal.read req.vid.toNat }) := by
    rw [Regs.handle, hr, hreq]
  apply switch_yields hT hhandle fun port => yields_request hT hnone hsome rfl
  rw [TollHeaders.news, hnotolls, hnobal]
  exact .answer hr hreq

theorem Incoming.handles (h : hdr.Incoming) (hT : T.NoDrops) (regs : Regs) :
    T.Handles regs hdr := by
  cases hr : hdr.posReport with
  | some r => exact h.handles_report hT regs hr
  | none =>
    cases hreq : hdr.accntBalReq with
    | some req => exact h.handles_request hT regs hreq
    | none =>
      obtain ⟨hnone, hnone', hnotolls, hnobal⟩ := h.route T
      have hhandle : regs.handle hdr = (regs, default) := by
        rw [Regs.handle, hr, hreq]
      apply switch_yields hT hhandle fun port =>
        yields_neither hT (hnone.trans hr) (hnone'.trans hreq)
      refine .quiet (fun r hr' => ?_) hreq rfl ?_
      · rw [hr] at hr'
        exact absurd hr' (Option.some_ne_none r).symm
      · intro n hn
        rw [List.mem_singleton.mp hn]
        exact Prod.ext hnotolls hnobal

end TollHeaders

/-- What was sent for a message after these older ones. A report that is to be charged leads to
one notification of its toll, any other message to none. A request leads to one answer, with what
its vehicle has been notified of before. -/
structure Handled.Settled (h : Handled) (start : Regs) (older : List Handled) : Prop where
  tolled : ∀ r, h.message.posReport = some r → (start.after older).Charges r →
    h.tolls = [(start.after older).notification r]
  free : (∀ r, h.message.posReport = some r → ¬(start.after older).Charges r) → h.tolls = []
  answered : ∀ req, h.message.accntBalReq = some req → ∃ bal : BitVec 32,
    h.answers = [⟨req.time, req.vid, 0#16, req.qid, bal⟩] ∧
      (req.vid.toNat < 512 → bal.toNat = billed req.vid older % 2 ^ 32)
  silent : h.message.accntBalReq = none → h.answers = []

/-- What the books say: the account of each vehicle is what it has been notified of, and every
message has been settled. -/
structure Tolling.Books (s : Tolling) (start : Regs) : Prop where
  regs : s.regs = start.after s.log
  bal : ∀ v : BitVec 32, v.toNat < 512 →
    (s.regs.vAccntBal.read v.toNat).toNat = billed v s.log % 2 ^ 32
  settled : ∀ newer h older, s.log = newer ++ h :: older → h.Settled start older

theorem billed_cons (v : BitVec 32) (h : Handled) (log : List Handled) :
    billed v (h :: log) = ((h.tolls.filter (·.vid = v)).map (·.toll.toNat)).sum + billed v log := by
  rw [billed, List.flatMap_cons, List.filter_append, List.map_append, List.sum_append, billed]

theorem billed_cons_quiet {h : Handled} (hquiet : h.tolls = []) (v : BitVec 32)
    (log : List Handled) : billed v (h :: log) = billed v log := by
  rw [billed_cons, hquiet]
  exact Nat.zero_add _

theorem billed_cons_toll {h : Handled} {n : TollNotification} (htoll : h.tolls = [n])
    (v : BitVec 32) (log : List Handled) :
    billed v (h :: log) = (if n.vid = v then n.toll.toNat else 0) + billed v log := by
  rw [billed_cons, htoll, List.filter_singleton]
  by_cases hv : n.vid = v
  · rw [if_pos hv, decide_eq_true hv]
    rfl
  · rw [if_neg hv, decide_eq_false hv]
    rfl

namespace Tolling.Books

variable {start regs : Regs} {log : List Handled} {h : Handled}

theorem settled_cons (hb : Books ⟨regs, log⟩ start) (hs : h.Settled start log) :
    ∀ newer h' older, h :: log = newer ++ h' :: older → h'.Settled start older := by
  intro newer h' older he
  cases newer with
  | nil =>
    obtain ⟨rfl, rfl⟩ := List.cons.inj he
    exact hs
  | cons last newer => exact hb.settled newer h' older (List.cons.inj he).2

/-- The books are right after a message if its account and what was sent for it are. -/
theorem cons (hb : Books ⟨regs, log⟩ start)
    (hbal : ∀ v : BitVec 32, v.toNat < 512 →
      ((regs.handle h.message).1.vAccntBal.read v.toNat).toNat = billed v (h :: log) % 2 ^ 32)
    (hs : h.Settled start log) : Books ⟨(regs.handle h.message).1, h :: log⟩ start := by
  refine ⟨?_, hbal, hb.settled_cons hs⟩
  have hregs : regs = start.after log := hb.regs
  rw [hregs]
  rfl

theorem handled_quiet (hb : Books ⟨regs, log⟩ start)
    (hfree : ∀ r, h.message.posReport = some r → ¬regs.Charges r)
    (hreq : h.message.accntBalReq = none)
    (hbal : (regs.handle h.message).1.vAccntBal = regs.vAccntBal)
    (htolls : h.tolls = []) (hanswers : h.answers = []) :
    Books ⟨(regs.handle h.message).1, h :: log⟩ start := by
  have hregs : regs = start.after log := hb.regs
  refine hb.cons (fun v hv => ?_) ⟨?_, fun _ => htolls, ?_, fun _ => hanswers⟩
  · rw [hbal, billed_cons_quiet htolls]
    exact hb.bal v hv
  · intro r hr hcharges
    rw [← hregs] at hcharges
    exact absurd hcharges (hfree r hr)
  · intro req hreq'
    rw [hreq] at hreq'
    exact absurd hreq' (Option.some_ne_none req).symm

theorem handled_toll (hb : Books ⟨regs, log⟩ start) {r : PosReport} (hr : h.message.posReport = some r)
    (hreq : h.message.accntBalReq = none) (hcharges : regs.Charges r)
    (hbal : (regs.handle h.message).1.vAccntBal = regs.vAccntBal.write r.vid.toNat
      (regs.vAccntBal.read r.vid.toNat + (regs.notification r).toll.setWidth 32))
    (htolls : h.tolls = [regs.notification r]) (hanswers : h.answers = []) :
    Books ⟨(regs.handle h.message).1, h :: log⟩ start := by
  have hregs : regs = start.after log := hb.regs
  have hvid : (regs.notification r).vid = r.vid := rfl
  refine hb.cons (fun v hv => ?_) ⟨?_, ?_, ?_, fun _ => hanswers⟩
  · rw [billed_cons_toll htolls, hbal, hvid]
    by_cases he : r.vid = v
    · subst he
      have hold := hb.bal r.vid hv
      change (regs.vAccntBal.read r.vid.toNat).toNat = _ at hold
      rw [OpenRegister.read_write_self _ hv, if_pos rfl, BitVec.toNat_add, BitVec.toNat_setWidth,
        hold, Nat.mod_add_mod, Nat.add_mod_mod, Nat.add_comm]
    · have hne : r.vid.toNat ≠ v.toNat := fun hc => he (BitVec.eq_of_toNat_eq hc)
      rw [OpenRegister.read_write_of_ne _ hne, if_neg he, Nat.zero_add]
      exact hb.bal v hv
  · intro r' hr' _
    obtain rfl : r = r' := Option.some.inj (hr.symm.trans hr')
    rw [← hregs]
    exact htolls
  · intro hfree
    rw [← hregs] at hfree
    exact absurd hcharges (hfree r hr)
  · intro req hreq'
    rw [hreq] at hreq'
    exact absurd hreq' (Option.some_ne_none req).symm

theorem handled_answer (hb : Books ⟨regs, log⟩ start) {req : AccntBalReq}
    (hr : h.message.posReport = none) (hreq : h.message.accntBalReq = some req)
    (hsame : (regs.handle h.message).1 = regs) (htolls : h.tolls = [])
    (hanswers : h.answers = [⟨req.time, req.vid, 0#16, req.qid,
      regs.vAccntBal.read req.vid.toNat⟩]) :
    Books ⟨(regs.handle h.message).1, h :: log⟩ start := by
  refine hb.cons (fun v hv => ?_) ⟨?_, fun _ => htolls, ?_, ?_⟩
  · rw [hsame, billed_cons_quiet htolls]
    exact hb.bal v hv
  · intro r hr'
    rw [hr] at hr'
    exact absurd hr' (Option.some_ne_none r).symm
  · intro req' hreq'
    obtain rfl : req = req' := Option.some.inj (hreq.symm.trans hreq')
    exact ⟨_, hanswers, hb.bal req.vid⟩
  · intro hnone
    rw [hreq] at hnone
    exact absurd hnone (Option.some_ne_none req)

theorem settles (hb : Books ⟨regs, log⟩ start)
    (hs : Settles regs h.message (regs.handle h.message).1 (h.sent.map TollHeaders.news)) :
    Books ⟨(regs.handle h.message).1, h :: log⟩ start := by
  have htolls := h.tolls_eq
  have hanswers := h.answers_eq
  generalize h.sent.map TollHeaders.news = l at hs htolls hanswers
  obtain ⟨regs', hregs⟩ : ∃ regs', (regs.handle h.message).1 = regs' := ⟨_, rfl⟩
  rw [hregs] at hs
  cases hs with
  | quiet hfree hreq hbal hl =>
    have hnotolls : l.filterMap Prod.fst = [] :=
      List.filterMap_eq_nil_iff.mpr fun n hn => by rw [hl n hn]
    have hnone : l.filterMap Prod.snd = [] :=
      List.filterMap_eq_nil_iff.mpr fun n hn => by rw [hl n hn]
    rw [← hregs] at hbal
    exact hb.handled_quiet hfree hreq hbal (htolls.trans hnotolls) (hanswers.trans hnone)
  | toll hr hreq hcharges hbal =>
    rw [← hregs] at hbal
    exact hb.handled_toll hr hreq hcharges hbal htolls hanswers
  | answer hr hreq => exact hb.handled_answer hr hreq hregs htolls hanswers

end Tolling.Books

/-- No toll is lost, charged twice or kept from its vehicle: in each run the books are right. -/
theorem accounts_balance (hT : T.NoDrops) {start : Regs} (hstart : start.Blank) {s : Tolling}
    (hs : (T.tolling start).Reachable s) :
    s.Books start ∧ ∀ hdr : TollHeaders, hdr.Incoming → (T.switch 2 s.regs hdr).isSome = true := by
  have hbooks : s.Books start := by
    induction hs with
    | init h =>
      subst h
      refine ⟨rfl, fun v hv => ?_, ?_⟩
      · change (start.vAccntBal.read v.toNat).toNat = _
        rw [OpenRegister.read_of_lt _ hv, hstart.vAccntBal, Register.read_fill_zero]
        rfl
      · intro newer h older he
        simp at he
    | @step s hdr _ hen ih =>
      obtain ⟨sent, hswitch, hsettles⟩ := TollHeaders.Incoming.handles hen hT s.regs
      have hnext : (T.tolling start).next s hdr =
          ⟨(s.regs.handle hdr).1, ⟨hdr, sent⟩ :: s.log⟩ := by
        change (match T.switch 2 s.regs hdr with | none => s | some (regs, sent) => _) = _
        rw [hswitch]
      rw [hnext]
      exact ih.settles (h := ⟨hdr, sent⟩) hsettles
  refine ⟨hbooks, fun hdr hhdr => ?_⟩
  obtain ⟨sent, hswitch, -⟩ := hhdr.handles hT s.regs
  rw [hswitch]
  rfl

def oneRoad : TollTables :=
  ⟨fun _ => .setNhop 0x0a000101#32 1#9, fun _ => .setDmac 1#48, fun _ => .rewriteMac 2#48⟩

/-- Slow vehicles in one segment, and then the last one asks for its balance. -/
def crowd (n : ℕ) : List TollHeaders :=
  (List.range (n + 1)).map (fun i => { (default : TollHeaders) with
    posReport := some ⟨0#16, BitVec.ofNat 32 i, 20#8, 0#8, 1#8, 0#8, 3#8⟩ }) ++
  [{ (default : TollHeaders) with accntBalReq := some ⟨7#16, BitVec.ofNat 32 n, 9#32⟩ }]

theorem oneRoad_noDrops : oneRoad.NoDrops := by
  constructor
  · intro hdr
    exact show (1#9 : BitVec 9) ≠ dropPort by decide
  · intro port
    exact Frame.noConfusion

theorem allowed_of_incoming (T : TollTables) (start : Regs) {l : List TollHeaders}
    (hl : ∀ hdr ∈ l, hdr.Incoming) (s : Tolling) : (T.tolling start).Allowed s l := by
  induction l generalizing s with
  | nil => trivial
  | cons hdr l ih =>
    obtain ⟨hfirst, hrest⟩ := List.forall_mem_cons.1 hl
    exact ⟨hfirst, ih hrest _⟩

/-- The fifty-second vehicle is told that it owes four. -/
theorem accounts_balance_crowd :
    let s := (oneRoad.tolling .zero).run ⟨.zero, []⟩ (crowd 51)
    (oneRoad.tolling .zero).Reachable s ∧
      s.log.head?.map Handled.answers = some [⟨7#16, 51#32, 0#16, 9#32, 4#32⟩] ∧
      s.Books .zero ∧
      ∀ hdr : TollHeaders, hdr.Incoming → (oneRoad.switch 2 s.regs hdr).isSome = true := by
  intro s
  have hs : (oneRoad.tolling .zero).Reachable s := by
    apply (System.Reachable.init rfl).run
    exact allowed_of_incoming oneRoad .zero (by decide +kernel) _
  exact ⟨hs, by decide +kernel, accounts_balance oneRoad_noDrops blank_zero hs⟩

end Accounts

end P4Survey.LinearRoad
