import Mathlib.Algebra.Order.BigOperators.Group.LocallyFinite
import P4Survey.Lib.Inet

/-! # Travel estimates at the egress of Linear Road

A request is answered after one pass through egress for each segment on the way.
A pass adds the entry of its segment, and unless it is the last one it clones the
packet back into egress and drops it. The metadata that the clone keeps has the
segment, the end and the sums.

The table of the entries has any contents; `send_frame` has rewriting entries only,
and the other tables are set up as in `commands.txt`.
-/

namespace P4Survey.LinearRoad
open Lib

structure TravelEstimateReq where
  time : BitVec 16
  qid : BitVec 32
  xway : BitVec 8
  segInit : BitVec 8
  segEnd : BitVec 8
  dow : BitVec 8
  tod : BitVec 8
  deriving DecidableEq, Inhabited

structure TravelEstimate where
  qid : BitVec 32
  travelTime : BitVec 16
  toll : BitVec 16
  deriving DecidableEq, Inhabited

structure TravelEstimateMetadata where
  recirculated : BitVec 1
  dir : BitVec 1
  segCur : BitVec 8
  segEnd : BitVec 8
  tollSum : BitVec 16
  timeSum : BitVec 16
  deriving DecidableEq, Inhabited

/-- The headers of a packet with a request or with an estimate. -/
structure EstimateHeaders where
  ethernet : Ethernet
  ipv4 : Ipv4
  udp : Udp
  msgType : BitVec 8
  travelEstimateValid : Bool
  travelEstimate : TravelEstimate
  travelEstimateReqValid : Bool
  travelEstimateReq : TravelEstimateReq
  deriving DecidableEq, Inhabited

/-- What the control plane puts into the tables: the time and the toll of a segment, by the day
of the week, the time of the day, the expressway, the direction and the segment, and the source
address of a port. -/
structure EstimateTables where
  travelEstimateHistory : BitVec 8 → BitVec 8 → BitVec 8 → BitVec 1 → BitVec 8 →
    Option (BitVec 16 × BitVec 16)
  sendFrame : BitVec 9 → Option (BitVec 48)

/-- A packet in egress, with the session of its clone if it has asked for one. -/
structure EstimatePass where
  hdr : EstimateHeaders
  teMd : TravelEstimateMetadata
  egressPort : BitVec 9
  clone : Option (BitVec 32)
  dropped : Bool
  deriving DecidableEq

/-- A packet at egress that has come from ingress or from a mirroring session. -/
def EstimateHeaders.enter (hdr : EstimateHeaders) (teMd : TravelEstimateMetadata) (port : BitVec 9) :
    EstimatePass :=
  ⟨hdr, teMd, port, none, false⟩

namespace EstimatePass

variable (T : EstimateTables) (x : EstimatePass)

def updateTravelEstimate (time toll : BitVec 16) : EstimatePass :=
  { x with
    teMd.timeSum := x.teMd.timeSum + time
    teMd.tollSum := x.teMd.tollSum + toll }

def travelEstimateHistory : EstimatePass :=
  let req := x.hdr.travelEstimateReq
  match T.travelEstimateHistory req.dow req.tod req.xway x.teMd.dir x.teMd.segCur with
  | some (time, toll) => x.updateTravelEstimate time toll
  | none => x

def doTravelEstimateInit : EstimatePass :=
  { x with
    teMd.dir := 0#1
    teMd.segCur := x.hdr.travelEstimateReq.segInit
    teMd.segEnd := x.hdr.travelEstimateReq.segEnd }

def doTravelEstimateInitRev : EstimatePass :=
  { x with
    teMd.dir := 1#1
    teMd.segCur := x.hdr.travelEstimateReq.segEnd
    teMd.segEnd := x.hdr.travelEstimateReq.segInit }

/-- The clone keeps `te_md`. -/
def travelEstimateE2e (mirSes : BitVec 32) : EstimatePass :=
  { x with
    teMd.segCur := x.teMd.segCur + 1#8
    teMd.recirculated := 1#1
    clone := some mirSes
    dropped := true }

def travelEstimateRecirc : EstimatePass := x.travelEstimateE2e 1#32

def doTravelEstimateSend : EstimatePass :=
  { x with hdr := { x.hdr with
    msgType := 14#8
    travelEstimateValid := true
    travelEstimate := ⟨x.hdr.travelEstimateReq.qid, x.teMd.timeSum, x.teMd.tollSum⟩
    travelEstimateReqValid := false
    ipv4.totalLen := 37#16
    udp.len := 17#16
    udp.checksum := 0#16 } }

def sendFrame : EstimatePass :=
  match T.sendFrame x.egressPort with
  | some smac => { x with hdr.ethernet.srcAddr := smac }
  | none => x

/-- The first pass finds out the direction and both ends. -/
def travelEstimateInit : EstimatePass :=
  if x.teMd.recirculated = 0#1 then
    if x.hdr.travelEstimateReq.segInit < x.hdr.travelEstimateReq.segEnd then x.doTravelEstimateInit
    else x.doTravelEstimateInitRev
  else x

def travelEstimateEnd : EstimatePass :=
  if x.teMd.segCur = x.teMd.segEnd then x.doTravelEstimateSend else x.travelEstimateRecirc

/-- Egress for packets with a request and no other message. -/
def egress : EstimatePass :=
  sendFrame T (if x.hdr.travelEstimateReqValid then
    (x.travelEstimateInit.travelEstimateHistory T).travelEstimateEnd else x)

/-- The ports of the mirroring sessions, `mirroring_add 1 1`. -/
def mirroring (mirSes : BitVec 32) : Option (BitVec 9) := if mirSes = 1#32 then some 1#9 else none

/-- The clone enters egress with the headers as they left it. -/
def cloned : Option EstimatePass :=
  (x.clone.bind mirroring).map fun port => x.hdr.enter x.teMd port

/-- The packet that leaves the switch. -/
def sent : Option EstimateHeaders := if x.dropped then none else some x.hdr

/-- What comes of each pass, if there is none left after `fuel` of them. -/
def loop : ℕ → EstimatePass → Option (List (Option EstimateHeaders))
  | 0, _ => none
  | fuel + 1, x =>
    let y := x.egress T
    match y.cloned with
    | none => some [y.sent]
    | some z => (loop fuel z).map (y.sent :: ·)

end EstimatePass

namespace TravelEstimateReq

variable (req : TravelEstimateReq)

def first : ℕ := min req.segInit.toNat req.segEnd.toNat

def last : ℕ := max req.segInit.toNat req.segEnd.toNat

/-- The direction of travel. -/
def dir : BitVec 1 := if req.segInit < req.segEnd then 0#1 else 1#1

end TravelEstimateReq

namespace EstimateTables

variable (T : EstimateTables) (req : TravelEstimateReq) (dir : BitVec 1) (seg : ℕ)

/-- The time and the toll of a segment, zero where the table has no entry. -/
def entry : BitVec 16 × BitVec 16 :=
  (T.travelEstimateHistory req.dow req.tod req.xway dir (.ofNat 8 seg)).getD (0#16, 0#16)

def time : ℕ := (T.entry req dir seg).1.toNat

def toll : ℕ := (T.entry req dir seg).2.toNat

end EstimateTables

/-- The packet is the estimate for a request. -/
structure EstimateHeaders.Answers (hdr : EstimateHeaders) (req : TravelEstimateReq)
    (travelTime toll : ℕ) : Prop where
  msgType : hdr.msgType = 14#8
  valid : hdr.travelEstimateValid = true ∧ hdr.travelEstimateReqValid = false
  estimate : hdr.travelEstimate = ⟨req.qid, .ofNat 16 travelTime, .ofNat 16 toll⟩

namespace EstimatePass

variable {T : EstimateTables} {x : EstimatePass} {req : TravelEstimateReq} {dir : BitVec 1}
  {c e time toll : ℕ}

/-- A pass at segment `c` of the way to segment `e`, with what the passes before have added. -/
structure At (x : EstimatePass) (req : TravelEstimateReq) (dir : BitVec 1) (c e time toll : ℕ) :
    Prop where
  req : x.hdr.travelEstimateReq = req
  clone : x.clone = none
  dropped : x.dropped = false
  dir : x.teMd.dir = dir
  segCur : x.teMd.segCur = .ofNat 8 c
  segEnd : x.teMd.segEnd = .ofNat 8 e
  timeSum : x.teMd.timeSum = .ofNat 16 time
  tollSum : x.teMd.tollSum = .ofNat 16 toll
  le : c ≤ e
  lt : e < 256

/-- The entry of the segment is added. -/
theorem At.history (h : x.At req dir c e time toll) :
    (x.travelEstimateHistory T).At req dir c e (time + T.time req dir c) (toll + T.toll req dir c) ∧
      (x.travelEstimateHistory T).hdr = x.hdr := by
  have hkey : T.travelEstimateHistory x.hdr.travelEstimateReq.dow x.hdr.travelEstimateReq.tod
      x.hdr.travelEstimateReq.xway x.teMd.dir x.teMd.segCur =
        T.travelEstimateHistory req.dow req.tod req.xway dir (.ofNat 8 c) := by
    rw [h.req, h.dir, h.segCur]
  rw [travelEstimateHistory, hkey]
  cases hentry : T.travelEstimateHistory req.dow req.tod req.xway dir (.ofNat 8 c) with
  | none =>
    have hzero : T.time req dir c = 0 ∧ T.toll req dir c = 0 := by
      simp [EstimateTables.time, EstimateTables.toll, EstimateTables.entry, hentry]
    rw [hzero.1, hzero.2]
    exact ⟨h, rfl⟩
  | some p =>
    obtain ⟨t, u⟩ := p
    have hvalue : T.time req dir c = t.toNat ∧ T.toll req dir c = u.toNat := by
      simp [EstimateTables.time, EstimateTables.toll, EstimateTables.entry, hentry]
    refine ⟨⟨h.req, h.clone, h.dropped, h.dir, h.segCur, h.segEnd, ?_, ?_, h.le, h.lt⟩, rfl⟩
    · change x.teMd.timeSum + t = _
      rw [h.timeSum, hvalue.1, BitVec.ofNat_add, BitVec.ofNat_toNat, BitVec.setWidth_eq]
    · change x.teMd.tollSum + u = _
      rw [h.tollSum, hvalue.2, BitVec.ofNat_add, BitVec.ofNat_toNat, BitVec.setWidth_eq]

/-- The last table changes an address only. -/
theorem sendFrame_eq (x : EstimatePass) :
    ∃ ethernet, x.sendFrame T = { x with hdr.ethernet := ethernet } := by
  unfold sendFrame
  cases T.sendFrame x.egressPort with
  | none => exact ⟨x.hdr.ethernet, rfl⟩
  | some smac => exact ⟨_, rfl⟩

theorem ofNat_eight_inj {a b : ℕ} (ha : a < 256) (hb : b < 256) (h : BitVec.ofNat 8 a = .ofNat 8 b) :
    a = b := by
  have := congrArg BitVec.toNat h
  rw [BitVec.toNat_ofNat, BitVec.toNat_ofNat] at this
  omega

/-- At the end of the way the estimate is sent. -/
theorem At.send (h : x.At req dir c c time toll) :
    ∃ hdr, (x.travelEstimateEnd.sendFrame T).sent = some hdr ∧
      (x.travelEstimateEnd.sendFrame T).cloned = none ∧ hdr.Answers req time toll := by
  have hend : x.travelEstimateEnd = x.doTravelEstimateSend :=
    if_pos (h.segCur.trans h.segEnd.symm)
  obtain ⟨ethernet, hframe⟩ := sendFrame_eq (T := T) x.doTravelEstimateSend
  rw [hend, hframe]
  refine ⟨_, if_neg ?_, ?_, ?_, ⟨rfl, rfl⟩, ?_⟩
  · change ¬x.dropped = true
    rw [h.dropped]
    decide
  · change (x.clone.bind mirroring).map _ = none
    rw [h.clone]
    rfl
  · rfl
  · change TravelEstimate.mk _ _ _ = _
    rw [h.req, h.timeSum, h.tollSum]

/-- Before the end the packet is dropped and its clone goes on to the next segment. -/
theorem At.recirc (h : x.At req dir c e time toll) (hlt : c < e) :
    (x.travelEstimateEnd.sendFrame T).sent = none ∧
      ∃ z, (x.travelEstimateEnd.sendFrame T).cloned = some z ∧ z.teMd.recirculated = 1#1 ∧
        z.hdr.travelEstimateReqValid = x.hdr.travelEstimateReqValid ∧
        z.At req dir (c + 1) e time toll := by
  have hne : ¬x.teMd.segCur = x.teMd.segEnd := by
    rw [h.segCur, h.segEnd]
    intro he
    have := ofNat_eight_inj (hlt.trans h.lt) h.lt he
    omega
  have hend : x.travelEstimateEnd = x.travelEstimateRecirc := if_neg hne
  obtain ⟨ethernet, hframe⟩ := sendFrame_eq (T := T) x.travelEstimateRecirc
  rw [hend, hframe]
  refine ⟨rfl, _, rfl, rfl, rfl, ?_⟩
  refine ⟨h.req, rfl, rfl, h.dir, ?_, h.segEnd, h.timeSum, h.tollSum, hlt, h.lt⟩
  change x.teMd.segCur + 1#8 = _
  rw [h.segCur, BitVec.ofNat_add]

theorem egress_eq (hreq : x.hdr.travelEstimateReqValid = true) :
    x.egress T = (x.travelEstimateInit.travelEstimateHistory T).travelEstimateEnd.sendFrame T := by
  rw [egress, hreq, if_pos rfl]

theorem init_of_recirculated (h : x.teMd.recirculated = 1#1) : x.travelEstimateInit = x := by
  rw [travelEstimateInit, h, if_neg (by decide)]

theorem init_valid (x : EstimatePass) : x.travelEstimateInit.hdr = x.hdr := by
  unfold travelEstimateInit
  split_ifs <;> rfl

/-- From segment `c` on there are as many passes as segments, and only the last one sends. -/
theorem loop_eq {n : ℕ} (hreq : x.hdr.travelEstimateReqValid = true)
    (h : x.travelEstimateInit.At req dir c (c + n) time toll) {fuel : ℕ} (hfuel : n < fuel) :
    ∃ hdr, loop T fuel x = some (List.replicate n none ++ [some hdr]) ∧
      hdr.Answers req (time + ∑ s ∈ Finset.Icc c (c + n), T.time req dir s)
        (toll + ∑ s ∈ Finset.Icc c (c + n), T.toll req dir s) := by
  obtain ⟨hhistory, hhdr⟩ := h.history (T := T)
  induction n generalizing x c time toll fuel with
  | zero =>
    obtain ⟨fuel, rfl⟩ := Nat.exists_eq_succ_of_ne_zero hfuel.ne'
    obtain ⟨hdr, hsent, hcloned, hanswers⟩ := hhistory.send (T := T)
    refine ⟨hdr, ?_, ?_⟩
    · rw [loop, egress_eq hreq, hcloned, hsent]
      rfl
    · simpa using hanswers
  | succ n ih =>
    obtain ⟨fuel, rfl⟩ := Nat.exists_eq_succ_of_ne_zero (Nat.ne_of_gt (Nat.zero_lt_of_lt hfuel))
    obtain ⟨hsent, z, hcloned, hrec, hvalid, hz⟩ := hhistory.recirc (T := T) (by omega)
    have hzreq : z.hdr.travelEstimateReqValid = true := by
      rw [hvalid, hhdr, init_valid, hreq]
    have hnext : c + (n + 1) = c + 1 + n := by omega
    rw [hnext] at hz
    have hinit : z.travelEstimateInit.At req dir (c + 1) (c + 1 + n) (time + T.time req dir c)
        (toll + T.toll req dir c) := by
      rw [init_of_recirculated hrec]
      exact hz
    obtain ⟨hhistory', hhdr'⟩ := hinit.history (T := T)
    obtain ⟨hdr, hloop, hanswers⟩ := ih hzreq hinit (show n < fuel by omega) hhistory' hhdr'
    refine ⟨hdr, ?_, ?_⟩
    · rw [loop, egress_eq hreq, hcloned]
      dsimp only
      rw [hloop, hsent]
      rfl
    · have hsum (f : ℕ → ℕ) : ∑ s ∈ Finset.Icc c (c + (n + 1)), f s =
          f c + ∑ s ∈ Finset.Icc (c + 1) (c + 1 + n), f s := by
        rw [hnext, Finset.Icc_add_one_left_eq_Ioc, Finset.add_sum_Ioc_eq_sum_Icc (by omega)]
      rw [hsum, hsum, ← Nat.add_assoc, ← Nat.add_assoc]
      exact hanswers

/-- The first pass starts at the smaller segment. -/
theorem At.init (hdr : EstimateHeaders) (port : BitVec 9) :
    (hdr.enter default port).travelEstimateInit.At hdr.travelEstimateReq hdr.travelEstimateReq.dir
      hdr.travelEstimateReq.first hdr.travelEstimateReq.last 0 0 := by
  have hinit := hdr.travelEstimateReq.segInit.isLt
  have hend := hdr.travelEstimateReq.segEnd.isLt
  have hfirst : (hdr.enter default port).travelEstimateInit =
      if hdr.travelEstimateReq.segInit < hdr.travelEstimateReq.segEnd then
        (hdr.enter default port).doTravelEstimateInit
      else (hdr.enter default port).doTravelEstimateInitRev := rfl
  rw [hfirst, TravelEstimateReq.first, TravelEstimateReq.last, TravelEstimateReq.dir]
  by_cases hlt : hdr.travelEstimateReq.segInit < hdr.travelEstimateReq.segEnd
  · have hle := BitVec.le_def.mp (BitVec.le_of_lt hlt)
    rw [min_eq_left hle, max_eq_right hle, if_pos hlt, if_pos hlt]
    refine ⟨rfl, rfl, rfl, rfl, ?_, ?_, rfl, rfl, hle, hend⟩
    · rw [BitVec.ofNat_toNat, BitVec.setWidth_eq]
      rfl
    · rw [BitVec.ofNat_toNat, BitVec.setWidth_eq]
      rfl
  · have hle := BitVec.le_def.mp (BitVec.not_lt.mp hlt)
    rw [min_eq_right hle, max_eq_left hle, if_neg hlt, if_neg hlt]
    refine ⟨rfl, rfl, rfl, rfl, ?_, ?_, rfl, rfl, hle, hinit⟩
    · rw [BitVec.ofNat_toNat, BitVec.setWidth_eq]
      rfl
    · rw [BitVec.ofNat_toNat, BitVec.setWidth_eq]
      rfl

/-- A request makes one pass for each segment on its way. All of its copies are dropped but the
last one, which is sent as the estimate. -/
theorem travel_estimate_sent (T : EstimateTables) (hdr : EstimateHeaders) (port : BitVec 9)
    (hreq : hdr.travelEstimateReqValid = true) {fuel : ℕ}
    (hfuel : hdr.travelEstimateReq.last - hdr.travelEstimateReq.first < fuel) :
    let req := hdr.travelEstimateReq
    ∃ estimate, loop T fuel (hdr.enter default port) =
        some (List.replicate (req.last - req.first) none ++ [some estimate]) ∧
      estimate.Answers req (∑ seg ∈ Finset.Icc req.first req.last, T.time req req.dir seg)
        (∑ seg ∈ Finset.Icc req.first req.last, T.toll req req.dir seg) := by
  have hinit := At.init hdr port
  have hlast : hdr.travelEstimateReq.last = hdr.travelEstimateReq.first +
      (hdr.travelEstimateReq.last - hdr.travelEstimateReq.first) :=
    (Nat.add_sub_cancel' hinit.le).symm
  dsimp only
  generalize hdr.travelEstimateReq.last - hdr.travelEstimateReq.first = n at hlast hfuel ⊢
  rw [hlast] at hinit ⊢
  obtain ⟨estimate, hloop, hanswers⟩ := loop_eq (T := T) hreq hinit hfuel
  rw [Nat.zero_add, Nat.zero_add] at hanswers
  exact ⟨estimate, hloop, hanswers⟩

end EstimatePass

/-- The entries of `commands.txt`: the key and then the time and the toll. -/
def historyEntries :
    List ((BitVec 8 × BitVec 8 × BitVec 8 × BitVec 1 × BitVec 8) × BitVec 16 × BitVec 16) :=
  [((0, 0, 0, 0, 0), 5, 1), ((0, 0, 0, 0, 1), 5, 2), ((0, 0, 0, 0, 2), 5, 3), ((0, 0, 0, 0, 3), 5, 4),
    ((0, 0, 1, 1, 3), 4, 1), ((0, 0, 1, 1, 2), 4, 2), ((0, 0, 1, 1, 1), 4, 3),
    ((0, 0, 1, 1, 0), 4, 4), ((2, 3, 2, 0, 5), 2, 1), ((2, 3, 2, 0, 6), 2, 2),
    ((2, 3, 2, 0, 7), 2, 3), ((2, 3, 2, 0, 8), 2, 4), ((2, 3, 2, 0, 9), 2, 5)]

def commandsTables : EstimateTables where
  travelEstimateHistory dow tod xway dir seg := historyEntries.lookup (dow, tod, xway, dir, seg)
  sendFrame _ := none

/-- The request of `test.py` from segment 3 back to segment 1. -/
def backwards : EstimateHeaders :=
  { (default : EstimateHeaders) with
    msgType := 4#8
    travelEstimateReqValid := true
    travelEstimateReq := ⟨0#16, 3#32, 1#8, 3#8, 1#8, 0#8, 0#8⟩ }

theorem travel_estimate_backwards :
    ∃ estimate, EstimatePass.loop commandsTables 3 (backwards.enter default 1#9) =
        some [none, none, some estimate] ∧ estimate.travelEstimate = ⟨3#32, 12#16, 6#16⟩ := by
  obtain ⟨estimate, hloop, hanswers⟩ := EstimatePass.travel_estimate_sent commandsTables backwards 1#9
    rfl (show backwards.travelEstimateReq.last - backwards.travelEstimateReq.first < 3 by decide)
  exact ⟨estimate, hloop, hanswers.estimate.trans (by decide +kernel)⟩

end P4Survey.LinearRoad
