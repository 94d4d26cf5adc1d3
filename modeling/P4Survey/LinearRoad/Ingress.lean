import P4Survey.Lib.Register

/-! # Position reports at the ingress of Linear Road

The program keeps the last position of each vehicle, the number of vehicles in
each segment and the number of vehicles that have stopped at each location. Some
reports lead to reads outside of these arrays, so the arrays are open ones. The
tables have the entries of `commands.txt`.
-/

namespace P4Survey.LinearRoad
open Lib

structure PosReport where
  time : BitVec 16
  vid : BitVec 32
  spd : BitVec 8
  xway : BitVec 8
  lane : BitVec 8
  dir : BitVec 8
  seg : BitVec 8
  deriving DecidableEq, Inhabited

structure Regs where
  segEwmaSpd : OpenRegister 16 400
  segVol : OpenRegister 8 400
  stoppedCnt : OpenRegister 8 1200
  vAccntBal : OpenRegister 32 512
  vDir : OpenRegister 1 512
  vLane : OpenRegister 3 512
  vNomoveCnt : OpenRegister 3 512
  vSeg : OpenRegister 8 512
  vSpd : OpenRegister 8 512
  vValid : OpenRegister 1 512
  vXway : OpenRegister 8 512

def Regs.zero : Regs :=
  ⟨.fill _ 0#16, .fill _ 0#8, .fill _ 0#8, .fill _ 0#32, .fill _ 0#1, .fill _ 0#3, .fill _ 0#3,
    .fill _ 0#8, .fill _ 0#8, .fill _ 0#1, .fill _ 0#8⟩

structure VStateMetadata where
  new : BitVec 1
  newSeg : BitVec 1
  prevSpd : BitVec 8
  prevXway : BitVec 8
  prevLane : BitVec 3
  prevSeg : BitVec 8
  prevDir : BitVec 1
  prevNomoveCnt : BitVec 3
  nomoveCnt : BitVec 3
  deriving DecidableEq, Inhabited

structure SegMetadata where
  vol : BitVec 8
  prevVol : BitVec 8
  ewmaSpd : BitVec 16
  deriving DecidableEq, Inhabited

structure AccidentMeta where
  curStpCnt : BitVec 8
  prevStpCnt : BitVec 8
  accidentSeg : BitVec 8
  hasAccidentAhead : BitVec 1
  deriving DecidableEq, Inhabited

structure TollMetadata where
  toll : BitVec 16
  hasToll : BitVec 1
  bal : BitVec 32
  deriving DecidableEq, Inhabited

/-- The fields `seg0l1` to `seg4l3`, by the distance of the segment and the lane, and `seg0_ord`
to `seg4_ord`. -/
structure StoppedMetadata where
  seg : ℕ → ℕ → BitVec 8
  ord : ℕ → BitVec 8
  deriving Inhabited

/-- A position report in the tables of ingress. -/
structure Pass where
  regs : Regs
  report : PosReport
  vState : VStateMetadata
  segMeta : SegMetadata
  accidentMeta : AccidentMeta
  stoppedAhead : StoppedMetadata
  tollMeta : TollMetadata

/-- The cell of a lane. The doubled segment is a number of eight bits. -/
def stoppedIdx {w w' : ℕ} (xway seg : BitVec 8) (dir : BitVec w) (lane : BitVec w') : ℕ :=
  (xway.setWidth 16 * 600#16 + (seg * 2#8).setWidth 16 * 3#16 + dir.setWidth 16 * 3#16 +
    lane.setWidth 16).toNat

/-- The cell of a segment and a direction. -/
def dirsegIdx {w : ℕ} (xway seg : BitVec 8) (dir : BitVec w) : ℕ :=
  (xway.setWidth 16 * 200#16 + (seg * 2#8).setWidth 16 + dir.setWidth 16).toNat

namespace Pass

section Position

def doUpdatePosState (x : Pass) : Pass :=
  let vid := x.report.vid.toNat
  { x with
    vState := { x.vState with
      new := ~~~(x.regs.vValid.read vid)
      prevSpd := x.regs.vSpd.read vid
      prevXway := x.regs.vXway.read vid
      prevLane := x.regs.vLane.read vid
      prevSeg := x.regs.vSeg.read vid
      prevDir := x.regs.vDir.read vid }
    regs := { x.regs with
      vValid := x.regs.vValid.write vid 1#1
      vSpd := x.regs.vSpd.write vid x.report.spd
      vXway := x.regs.vXway.write vid x.report.xway
      vLane := x.regs.vLane.write vid (x.report.lane.setWidth 3)
      vSeg := x.regs.vSeg.write vid x.report.seg
      vDir := x.regs.vDir.write vid (x.report.dir.setWidth 1) } }

def setNewSeg (x : Pass) : Pass := { x with vState.newSeg := 1#1 }

def updateNewSeg (x : Pass) : Pass :=
  if x.vState.new = 1#1 ∨ x.vState.prevSeg ≠ x.report.seg then x.setNewSeg else x

end Position

section Volume

def loadVol (x : Pass) : Pass :=
  { x with
    segMeta.vol := x.regs.segVol.read (dirsegIdx x.report.xway x.report.seg x.report.dir) }

def loadAndIncVol (x : Pass) : Pass :=
  let x := x.loadVol
  { x with
    segMeta.vol := x.segMeta.vol + 1#8
    regs.segVol := x.regs.segVol.write (dirsegIdx x.report.xway x.report.seg x.report.dir)
      (x.segMeta.vol + 1#8) }

def loadAndIncAndDecVol (x : Pass) : Pass :=
  let x := x.loadAndIncVol
  let i := dirsegIdx x.vState.prevXway x.vState.prevSeg x.vState.prevDir
  { x with
    segMeta.prevVol := x.regs.segVol.read i - 1#8
    regs.segVol := x.regs.segVol.write i (x.regs.segVol.read i - 1#8) }

def updateVolState (x : Pass) : Pass :=
  if x.vState.new = 0#1 ∧ x.vState.newSeg = 0#1 then x.loadVol
  else if x.vState.new = 1#1 ∧ x.vState.newSeg = 1#1 then x.loadAndIncVol
  else if x.vState.new = 0#1 ∧ x.vState.newSeg = 1#1 then x.loadAndIncAndDecVol
  else x

def setSpd (x : Pass) : Pass :=
  { x with
    segMeta.ewmaSpd := x.report.spd.setWidth 16
    regs.segEwmaSpd := x.regs.segEwmaSpd.write
      (dirsegIdx x.report.xway x.report.seg x.report.dir) (x.report.spd.setWidth 16) }

def calcEwmaSpd (x : Pass) : Pass :=
  let i := dirsegIdx x.report.xway x.report.seg x.report.dir
  let spd := (((x.regs.segEwmaSpd.read i).setWidth 32 * 96#32 +
    (x.report.spd.setWidth 16 * 32#16).setWidth 32) >>> 7).setWidth 16
  { x with
    segMeta.ewmaSpd := spd
    regs.segEwmaSpd := x.regs.segEwmaSpd.write i spd }

def updateEwmaSpd (x : Pass) : Pass :=
  if x.segMeta.vol = 1#8 then x.setSpd else x.calcEwmaSpd

end Volume

section Stopped

/-- The counter of reports without a move is set to zero in the register, and in the metadata it
is zero from the start. -/
def doLocChanged (x : Pass) : Pass :=
  { x with
    vState.prevNomoveCnt := x.regs.vNomoveCnt.read x.report.vid.toNat
    regs.vNomoveCnt := x.regs.vNomoveCnt.write x.report.vid.toNat 0#3 }

/-- The counter stays at three. -/
def doLocNotChanged (x : Pass) : Pass :=
  let prev := x.regs.vNomoveCnt.read x.report.vid.toNat
  let cnt := prev + 1#3 - ((prev + 1#3 &&& 4#3) >>> 2)
  { x with
    vState.prevNomoveCnt := prev
    vState.nomoveCnt := cnt
    regs.vNomoveCnt := x.regs.vNomoveCnt.write x.report.vid.toNat cnt }

def updateLoc (x : Pass) : Pass :=
  if x.report.xway = x.vState.prevXway ∧ x.report.seg = x.vState.prevSeg ∧
      x.report.dir = x.vState.prevDir.setWidth 8 ∧ x.report.lane = x.vState.prevLane.setWidth 8 then
    x.doLocNotChanged
  else x.doLocChanged

def doDecPrevStopped (x : Pass) : Pass :=
  let i := stoppedIdx x.vState.prevXway x.vState.prevSeg x.vState.prevDir x.vState.prevLane
  { x with
    accidentMeta.prevStpCnt := x.regs.stoppedCnt.read i
    regs.stoppedCnt := x.regs.stoppedCnt.write i (x.regs.stoppedCnt.read i - 1#8) }

def decPrevStopped (x : Pass) : Pass :=
  if x.vState.prevNomoveCnt = 3#3 ∧ x.vState.nomoveCnt < 3#3 then x.doDecPrevStopped else x

def doIncStopped (x : Pass) : Pass :=
  let i := stoppedIdx x.report.xway x.report.seg x.report.dir x.report.lane
  { x with
    accidentMeta.curStpCnt := x.regs.stoppedCnt.read i
    regs.stoppedCnt := x.regs.stoppedCnt.write i (x.regs.stoppedCnt.read i + 1#8) }

def incStopped (x : Pass) : Pass :=
  if x.vState.prevNomoveCnt < 3#3 ∧ x.vState.nomoveCnt = 3#3 then x.doIncStopped else x

end Stopped

section Toll

/-- The three lanes of five segments from the one of the report on. -/
def doLoadStoppedAhead (x : Pass) : Pass :=
  let seg := fun k lane => x.regs.stoppedCnt.read
    (stoppedIdx x.report.xway (x.report.seg + .ofNat 8 k) x.report.dir (.ofNat 16 lane))
  { x with stoppedAhead := ⟨seg, fun k => seg k 1 ||| seg k 2 ||| seg k 3⟩ }

def setAccidentMeta (ofst : BitVec 8) (x : Pass) : Pass :=
  { x with
    accidentMeta.accidentSeg := x.report.seg + ofst
    accidentMeta.hasAccidentAhead := 1#1 }

/-- One entry for each of the five segments. They have the same priority, and the one added
first applies. -/
def checkAccidents (x : Pass) : Pass :=
  match (List.range 5).find? fun k => 2#8 ≤ x.stoppedAhead.ord k with
  | some k => x.setAccidentMeta (.ofNat 8 k)
  | none => x

def issueToll (baseToll : BitVec 16) (x : Pass) : Pass :=
  let vid := x.report.vid.toNat
  let toll := baseToll * (x.segMeta.vol.setWidth 16 - 50#16) * (x.segMeta.vol.setWidth 16 - 50#16)
  let bal := x.regs.vAccntBal.read vid + toll.setWidth 32
  { x with
    tollMeta := ⟨toll, 1#1, bal⟩
    regs.vAccntBal := x.regs.vAccntBal.write vid bal }

def checkToll (x : Pass) : Pass :=
  if x.vState.newSeg = 1#1 ∧ x.segMeta.ewmaSpd ≤ 39#16 ∧ 51#8 ≤ x.segMeta.vol ∧
      x.accidentMeta.hasAccidentAhead = 0#1 then
    x.issueToll 1#16
  else x

end Toll

/-- The part of ingress for position reports, up to the forwarding tables. -/
def ingress (x : Pass) : Pass :=
  let x := x.doUpdatePosState.updateNewSeg.updateVolState.updateEwmaSpd
  x.updateLoc.decPrevStopped.incStopped.doLoadStoppedAhead.checkAccidents.checkToll

end Pass

def PosReport.arrive (report : PosReport) (regs : Regs) : Pass :=
  ⟨regs, report, default, default, default, default, default⟩

/-- The registers after a position report. -/
def Regs.process (regs : Regs) (report : PosReport) : Regs := (report.arrive regs).ingress.regs

section Process

variable {regs : Regs} {report : PosReport}

/-- The registers of the positions and of the volumes are the same. -/
structure SamePlaces (r r' : Regs) : Prop where
  segVol : r'.segVol = r.segVol
  vDir : r'.vDir = r.vDir
  vLane : r'.vLane = r.vLane
  vSeg : r'.vSeg = r.vSeg
  vValid : r'.vValid = r.vValid
  vXway : r'.vXway = r.vXway

theorem SamePlaces.trans {r r' r'' : Regs} (h : SamePlaces r r') (h' : SamePlaces r' r'') :
    SamePlaces r r'' :=
  ⟨h'.segVol.trans h.segVol, h'.vDir.trans h.vDir, h'.vLane.trans h.vLane, h'.vSeg.trans h.vSeg,
    h'.vValid.trans h.vValid, h'.vXway.trans h.vXway⟩

/-- The registers of the vehicles that do not move are the same. -/
structure SameStops (r r' : Regs) : Prop where
  stoppedCnt : r'.stoppedCnt = r.stoppedCnt
  vNomoveCnt : r'.vNomoveCnt = r.vNomoveCnt

namespace Pass

theorem updateEwmaSpd_same (x : Pass) : SamePlaces x.regs x.updateEwmaSpd.regs ∧
    SameStops x.regs x.updateEwmaSpd.regs ∧ x.updateEwmaSpd.vState = x.vState ∧
    x.updateEwmaSpd.report = x.report := by
  unfold updateEwmaSpd
  split_ifs
  · exact ⟨⟨rfl, rfl, rfl, rfl, rfl, rfl⟩, ⟨rfl, rfl⟩, rfl, rfl⟩
  · exact ⟨⟨rfl, rfl, rfl, rfl, rfl, rfl⟩, ⟨rfl, rfl⟩, rfl, rfl⟩

theorem stops_same (x : Pass) : SamePlaces x.regs x.updateLoc.decPrevStopped.incStopped.regs := by
  have hloc : SamePlaces x.regs x.updateLoc.regs := by
    unfold updateLoc
    split_ifs
    · exact ⟨rfl, rfl, rfl, rfl, rfl, rfl⟩
    · exact ⟨rfl, rfl, rfl, rfl, rfl, rfl⟩
  have hdec (y : Pass) : SamePlaces y.regs y.decPrevStopped.regs := by
    unfold decPrevStopped
    split_ifs
    · exact ⟨rfl, rfl, rfl, rfl, rfl, rfl⟩
    · exact ⟨rfl, rfl, rfl, rfl, rfl, rfl⟩
  have hinc (y : Pass) : SamePlaces y.regs y.incStopped.regs := by
    unfold incStopped
    split_ifs
    · exact ⟨rfl, rfl, rfl, rfl, rfl, rfl⟩
    · exact ⟨rfl, rfl, rfl, rfl, rfl, rfl⟩
  exact hloc.trans ((hdec _).trans (hinc _))

theorem tolls_same (x : Pass) :
    SamePlaces x.regs x.doLoadStoppedAhead.checkAccidents.checkToll.regs ∧
      SameStops x.regs x.doLoadStoppedAhead.checkAccidents.checkToll.regs := by
  have haccident : x.doLoadStoppedAhead.checkAccidents.regs = x.regs := by
    unfold checkAccidents
    split
    · rfl
    · rfl
  rw [← haccident]
  unfold checkToll
  split_ifs
  · exact ⟨⟨rfl, rfl, rfl, rfl, rfl, rfl⟩, rfl, rfl⟩
  · exact ⟨⟨rfl, rfl, rfl, rfl, rfl, rfl⟩, rfl, rfl⟩

theorem updateVolState_same (x : Pass) : x.updateVolState.vState = x.vState ∧
    x.updateVolState.report = x.report ∧ SameStops x.regs x.updateVolState.regs ∧
    x.updateVolState.regs = { x.regs with segVol := x.updateVolState.regs.segVol } := by
  unfold updateVolState
  split_ifs
  · exact ⟨rfl, rfl, ⟨rfl, rfl⟩, rfl⟩
  · exact ⟨rfl, rfl, ⟨rfl, rfl⟩, rfl⟩
  · exact ⟨rfl, rfl, ⟨rfl, rfl⟩, rfl⟩
  · exact ⟨rfl, rfl, ⟨rfl, rfl⟩, rfl⟩

/-- The flag of a new segment is decided before the volumes are. -/
theorem updateNewSeg_eq (x : Pass) (h : x.vState.newSeg = 0#1) :
    x.updateNewSeg = { x with vState.newSeg :=
      if x.vState.new = 1#1 ∨ x.vState.prevSeg ≠ x.report.seg then 1#1 else 0#1 } := by
  unfold updateNewSeg
  split_ifs
  · rfl
  · rw [← h]

/-- The report once the last position of the vehicle is known. -/
def located (regs : Regs) (report : PosReport) : Pass :=
  (report.arrive regs).doUpdatePosState.updateNewSeg

theorem located_eq (regs : Regs) (report : PosReport) :
    located regs report = { (report.arrive regs).doUpdatePosState with
      vState.newSeg := if regs.vValid.read report.vid.toNat = 0#1 ∨
        regs.vSeg.read report.vid.toNat ≠ report.seg then 1#1 else 0#1 } := by
  rw [located, updateNewSeg_eq _ rfl]
  have hnew : (report.arrive regs).doUpdatePosState.vState.new = 1#1 ↔
      regs.vValid.read report.vid.toNat = 0#1 := by
    change ~~~(regs.vValid.read report.vid.toNat) = 1#1 ↔ _
    generalize regs.vValid.read report.vid.toNat = b
    revert b
    decide
  simp only [hnew]
  rfl

end Pass

/-- One vehicle more in a cell. -/
def incAt {size : ℕ} (r : OpenRegister 8 size) (i : ℕ) : OpenRegister 8 size := r.write i (r.read i + 1#8)

def decAt {size : ℕ} (r : OpenRegister 8 size) (i : ℕ) : OpenRegister 8 size := r.write i (r.read i - 1#8)

theorem process_places (regs : Regs) (report : PosReport) :
    SamePlaces (Pass.located regs report).updateVolState.regs (regs.process report) :=
  (Pass.updateEwmaSpd_same _).1.trans ((Pass.stops_same _).trans (Pass.tolls_same _).1)

/-- The position of the vehicle is the one of the report. -/
theorem process_position (regs : Regs) (report : PosReport) :
    (regs.process report).vValid = regs.vValid.write report.vid.toNat 1#1 ∧
      (regs.process report).vXway = regs.vXway.write report.vid.toNat report.xway ∧
      (regs.process report).vLane = regs.vLane.write report.vid.toNat (report.lane.setWidth 3) ∧
      (regs.process report).vSeg = regs.vSeg.write report.vid.toNat report.seg ∧
      (regs.process report).vDir = regs.vDir.write report.vid.toNat (report.dir.setWidth 1) := by
  obtain ⟨-, hdir, hlane, hseg, hvalid, hxway⟩ := process_places regs report
  obtain ⟨-, -, -, hregs⟩ := Pass.updateVolState_same (Pass.located regs report)
  rw [hdir, hlane, hseg, hvalid, hxway, hregs, Pass.located_eq]
  exact ⟨rfl, rfl, rfl, rfl, rfl⟩

/-- A new vehicle is counted, and one that has changed its segment is counted there and no longer
in the old one. -/
theorem process_segVol (regs : Regs) (report : PosReport) :
    (regs.process report).segVol =
      let vid := report.vid.toNat
      let counted := incAt regs.segVol (dirsegIdx report.xway report.seg report.dir)
      if regs.vValid.read vid = 0#1 then counted
      else if regs.vSeg.read vid ≠ report.seg then
        decAt counted (dirsegIdx (regs.vXway.read vid) (regs.vSeg.read vid) (regs.vDir.read vid))
      else regs.segVol := by
  have hnot : ∀ b : BitVec 1, (b = 0#1 → ~~~b = 1#1) ∧ (b ≠ 0#1 → ~~~b = 0#1) := by decide
  obtain ⟨hyes, hno⟩ := hnot (regs.vValid.read report.vid.toNat)
  have hplaces := (process_places regs report).segVol
  obtain ⟨x, hx⟩ : ∃ x, x = Pass.located regs report := ⟨_, rfl⟩
  rw [← hx] at hplaces
  rw [Pass.located_eq] at hx
  have hnew : x.vState.new = ~~~(regs.vValid.read report.vid.toNat) := by
    rw [hx]
    rfl
  have hnewSeg : x.vState.newSeg = if regs.vValid.read report.vid.toNat = 0#1 ∨
      regs.vSeg.read report.vid.toNat ≠ report.seg then 1#1 else 0#1 := by
    rw [hx]
  rw [hplaces, Pass.updateVolState, hnew, hnewSeg]
  dsimp only
  by_cases hvalid : regs.vValid.read report.vid.toNat = 0#1
  · rw [hyes hvalid, if_pos (Or.inl hvalid), if_neg (by decide), if_pos ⟨rfl, rfl⟩, if_pos hvalid, hx]
    rfl
  · rw [hno hvalid, if_neg hvalid]
    by_cases hseg : regs.vSeg.read report.vid.toNat = report.seg
    · rw [if_neg (not_or.mpr ⟨hvalid, not_not.mpr hseg⟩), if_pos ⟨rfl, rfl⟩,
        if_neg (not_not.mpr hseg), hx]
      rfl
    · rw [if_pos (Or.inr hseg), if_neg (by decide), if_neg (by decide), if_pos ⟨rfl, rfl⟩,
        if_pos hseg, hx]
      rfl

/-- The vehicle gives the position that its registers have. -/
def Regs.Stays (regs : Regs) (report : PosReport) : Prop :=
  report.xway = regs.vXway.read report.vid.toNat ∧ report.seg = regs.vSeg.read report.vid.toNat ∧
    report.dir = (regs.vDir.read report.vid.toNat).setWidth 8 ∧
    report.lane = (regs.vLane.read report.vid.toNat).setWidth 8

instance (regs : Regs) (report : PosReport) : Decidable (regs.Stays report) :=
  inferInstanceAs (Decidable (_ ∧ _))

/-- The counter of reports without a move after this one. -/
def Regs.nomove (regs : Regs) (report : PosReport) : BitVec 3 :=
  let prev := regs.vNomoveCnt.read report.vid.toNat
  if regs.Stays report then prev + 1#3 - ((prev + 1#3 &&& 4#3) >>> 2) else 0#3

/-- What `update_loc` finds, after the tables of the volume and of the speed. -/
structure Pass.Finds (y : Pass) (regs : Regs) (report : PosReport) : Prop where
  posReport : y.report = report
  stoppedCnt : y.regs.stoppedCnt = regs.stoppedCnt
  vNomoveCnt : y.regs.vNomoveCnt = regs.vNomoveCnt
  prevXway : y.vState.prevXway = regs.vXway.read report.vid.toNat
  prevSeg : y.vState.prevSeg = regs.vSeg.read report.vid.toNat
  prevDir : y.vState.prevDir = regs.vDir.read report.vid.toNat
  prevLane : y.vState.prevLane = regs.vLane.read report.vid.toNat
  nomoveCnt : y.vState.nomoveCnt = 0#3

theorem Pass.finds (regs : Regs) (report : PosReport) :
    Finds (located regs report).updateVolState.updateEwmaSpd regs report := by
  obtain ⟨hstate, hreport, hstops, -⟩ := updateVolState_same (located regs report)
  obtain ⟨-, hstops', hstate', hreport'⟩ := updateEwmaSpd_same (located regs report).updateVolState
  constructor
  · rw [hreport', hreport, located_eq]
    rfl
  · rw [hstops'.stoppedCnt, hstops.stoppedCnt, located_eq]
    rfl
  · rw [hstops'.vNomoveCnt, hstops.vNomoveCnt, located_eq]
    rfl
  all_goals
    rw [hstate', hstate, located_eq]
    rfl

theorem Pass.Finds.updateLoc {y : Pass} {regs : Regs} {report : PosReport}
    (h : y.Finds regs report) : y.updateLoc = { y with
      vState.prevNomoveCnt := regs.vNomoveCnt.read report.vid.toNat
      vState.nomoveCnt := regs.nomove report
      regs.vNomoveCnt := regs.vNomoveCnt.write report.vid.toNat (regs.nomove report) } := by
  have hiff : (y.report.xway = y.vState.prevXway ∧ y.report.seg = y.vState.prevSeg ∧
      y.report.dir = y.vState.prevDir.setWidth 8 ∧
      y.report.lane = y.vState.prevLane.setWidth 8) ↔ regs.Stays report := by
    rw [h.posReport, h.prevXway, h.prevSeg, h.prevDir, h.prevLane]
    rfl
  by_cases hstays : regs.Stays report
  · have hn : regs.nomove report = _ := if_pos hstays
    rw [Pass.updateLoc, if_pos (hiff.mpr hstays), hn, Pass.doLocNotChanged, h.posReport, h.vNomoveCnt]
  · have hn : regs.nomove report = 0#3 := if_neg hstays
    rw [Pass.updateLoc, if_neg fun hs => hstays (hiff.mp hs), hn, Pass.doLocChanged, h.posReport,
      h.vNomoveCnt, ← h.nomoveCnt]

/-- A vehicle that has moved is no longer counted as stopped, and one whose counter has come to
three is. -/
theorem process_stops (regs : Regs) (report : PosReport) :
    let vid := report.vid.toNat
    let prev := regs.vNomoveCnt.read vid
    let cnt := regs.nomove report
    let left := if prev = 3#3 ∧ cnt < 3#3 then decAt regs.stoppedCnt (stoppedIdx
      (regs.vXway.read vid) (regs.vSeg.read vid) (regs.vDir.read vid) (regs.vLane.read vid))
      else regs.stoppedCnt
    (regs.process report).vNomoveCnt = regs.vNomoveCnt.write vid cnt ∧
      (regs.process report).stoppedCnt = if prev < 3#3 ∧ cnt = 3#3 then
        incAt left (stoppedIdx report.xway report.seg report.dir report.lane) else left := by
  have hfinds := Pass.finds regs report
  obtain ⟨y, hy⟩ : ∃ y, y = (Pass.located regs report).updateVolState.updateEwmaSpd := ⟨_, rfl⟩
  have hrun : SameStops y.updateLoc.decPrevStopped.incStopped.regs (regs.process report) := by
    rw [hy]
    exact (Pass.tolls_same _).2
  rw [← hy] at hfinds
  dsimp only
  rw [hrun.stoppedCnt, hrun.vNomoveCnt, hfinds.updateLoc, Pass.decPrevStopped]
  dsimp only
  by_cases hdec : regs.vNomoveCnt.read report.vid.toNat = 3#3 ∧ regs.nomove report < 3#3
  · have hinc : ¬(regs.vNomoveCnt.read report.vid.toNat < 3#3 ∧ regs.nomove report = 3#3) := by
      rw [hdec.1]
      exact fun h => absurd h.1 (by decide)
    rw [if_pos hdec, if_pos hdec, Pass.doDecPrevStopped, Pass.incStopped, if_neg hinc, if_neg hinc]
    dsimp only
    rw [hfinds.prevXway, hfinds.prevSeg, hfinds.prevDir, hfinds.prevLane, hfinds.stoppedCnt]
    exact ⟨rfl, rfl⟩
  · rw [if_neg hdec, if_neg hdec, Pass.incStopped]
    dsimp only
    split_ifs
    · rw [Pass.doIncStopped]
      dsimp only
      rw [hfinds.posReport, hfinds.stoppedCnt]
      exact ⟨rfl, rfl⟩
    · exact ⟨rfl, hfinds.stoppedCnt⟩

theorem process_outside (regs : Regs) (report : PosReport) :
    (regs.process report).stoppedCnt.outside = regs.stoppedCnt.outside := by
  rw [(process_stops regs report).2]
  split_ifs <;> rfl

end Process

end P4Survey.LinearRoad
