import Mathlib.Tactic

/-! # The source

`NdpSrc` of `ndp.cpp` without retransmission timeouts. Sequence numbers are
those of the first byte of a packet and every packet carries `mss` bytes.
The bytes in flight are a 32-bit field that may wrap. The 64-bit counters are natural
numbers, and so is simulated time, which has no room for 2^64 events.
-/

namespace P4Survey.Ndp

/-- The parameters of a flow. The window, in whole packets, fits its 32-bit field. -/
structure Flow where
  id : ℤ
  mss : ℕ
  mss_pos : 0 < mss
  mss_lt : mss < 2 ^ 16
  flowSize : ℕ
  flowSize_le : flowSize + mss ≤ 2 ^ 64
  cwnd : ℕ
  cwnd_lt : (cwnd + mss - 1) / mss * mss < 2 ^ 32
  singlePath : Bool

/-- The window in packets. -/
def Flow.window (F : Flow) : ℕ := (F.cwnd + F.mss - 1) / F.mss

structure NdpPacket where
  seqno : ℕ
  pacerno : ℕ
  isHeader : Bool
  lastPacket : Bool
  deriving DecidableEq

/-- The fields of an `NdpAck` and of an `NdpNack`, which are the same. -/
structure Reply where
  ackno : ℕ
  cumulativeAck : ℕ
  pullno : ℕ
  pacerno : ℕ
  pull : Bool
  deriving DecidableEq

structure NdpPull where
  ackno : ℕ
  cumulativeAck : ℕ
  pullno : ℕ
  pacerno : ℕ
  deriving DecidableEq

inductive Packet where
  | ndp (p : NdpPacket)
  | ack (r : Reply)
  | nack (r : Reply)
  | pull (p : NdpPull)
  deriving DecidableEq

inductive FeedbackType where
  | ack
  | nack
  | bounce
  | unknown
  deriving DecidableEq

structure Source where
  highestSent : ℕ
  packetsSent : ℕ
  lastAcked : ℕ
  flightSize : BitVec 32
  lastPull : ℕ
  pullWindow : ℤ
  firstWindowCount : ℤ
  rtxQueue : List NdpPacket
  feedbackHistory : Fin 12 → FeedbackType
  feedbackCount : Fin 12

namespace Source

def initial : Source :=
  ⟨0, 0, 0, 0#32, 0, 0, 0, [], fun _ => .unknown, 0⟩

variable (F : Flow)

/-- The flow is not unlimited and all of its data have been sent once. -/
def NoNewData (s : Source) : Prop := F.flowSize ≠ 0 ∧ F.flowSize ≤ s.highestSent

instance (s : Source) : Decidable (s.NoNewData F) := inferInstanceAs (Decidable (_ ∧ _))

/-- Send the first packet to retransmit, else new data, else nothing. -/
def sendPacket (pacerNo : ℕ) (s : Source) : Source × List NdpPacket :=
  match s.rtxQueue with
  | p :: q =>
    ({ s with rtxQueue := q, packetsSent := s.packetsSent + 1 }, [{ p with pacerno := pacerNo }])
  | [] =>
    if s.NoNewData F then (s, [])
    else
      ({ s with
          flightSize := s.flightSize + .ofNat 32 F.mss
          highestSent := s.highestSent + F.mss
          packetsSent := s.packetsSent + 1 },
        [⟨s.highestSent + 1, pacerNo, false,
          F.flowSize ≠ 0 ∧ F.flowSize ≤ s.highestSent + F.mss⟩])

/-- `k` turns of the loop of `pull_packets`. -/
def pullLoop (pacerNo : ℕ) : ℕ → Source → Source × List NdpPacket
  | 0, s => (s, [])
  | k + 1, s =>
    let (s', out) := s.sendPacket F pacerNo
    let (s'', out') := pullLoop pacerNo k { s' with lastPull := s'.lastPull + 1 }
    (s'', out ++ out')

def pullPackets (pullNo pacerNo : ℕ) (s : Source) : Source × List NdpPacket :=
  s.pullLoop F pacerNo (pullNo - s.lastPull)

/-- The loop of `startflow`. A turn sends `mss` bytes, so `cwnd` turns are enough. -/
def windowLoop : ℕ → Source → Source × List NdpPacket
  | 0, s => (s, [])
  | k + 1, s =>
    if s.flightSize.toNat < F.cwnd ∧ s.flightSize.toNat < F.flowSize then
      let (s', out) := s.sendPacket F 0
      let (s'', out') := windowLoop k { s' with firstWindowCount := s'.firstWindowCount + 1 }
      (s'', out ++ out')
    else (s, [])

def startflow (s : Source) : Source × List NdpPacket :=
  { s with
    highestSent := 0
    lastAcked := 0
    packetsSent := 0
    pullWindow := 0
    flightSize := 0#32
    firstWindowCount := 0 }.windowLoop F F.cwnd

def countFeedback (fb : FeedbackType) (s : Source) : Source :=
  if F.singlePath then s
  else { s with
    feedbackHistory := Function.update s.feedbackHistory s.feedbackCount fb
    feedbackCount := s.feedbackCount + 1 }

def historyCount (s : Source) (fb : FeedbackType) : ℕ :=
  (List.finRange 12).countP fun i => s.feedbackHistory i = fb

def IsBadPath (s : Source) : Prop :=
  0 < s.historyCount .ack ∧
    (s.historyCount .ack + s.historyCount .nack + s.historyCount .bounce) /
      s.historyCount .ack ≤ 3

instance (s : Source) : Decidable s.IsBadPath := inferInstanceAs (Decidable (_ ∧ _))

/-- A packet that was returned to its sender. -/
def processRTS (p : NdpPacket) (s : Source) : Source × List NdpPacket :=
  let s := { s with rtxQueue := { p with isHeader := false } :: s.rtxQueue }
  let s := s.countFeedback F .bounce
  if s.pullWindow = 0 ∧ s.firstWindowCount ≤ 1 ∨ s.IsBadPath then s.sendPacket F 0 else (s, [])

/-- What `processNack` does before it pulls. -/
def noteNack (r : Reply) (s : Source) : Source :=
  let s := s.countFeedback F .nack
  let lastPacket : Bool := F.flowSize ≤ r.ackno + F.mss - 1
  { s with rtxQueue := s.rtxQueue ++ [⟨r.ackno, 0, false, lastPacket⟩] }

def processNack (r : Reply) (s : Source) : Source × List NdpPacket :=
  let s := s.noteNack F r
  if r.pull then s.pullPackets F r.pullno r.pacerno else (s, [])

/-- What `processAck` does before it pulls. -/
def noteAck (r : Reply) (s : Source) : Source :=
  let s := { s with pullWindow := if r.pull then s.pullWindow - 1 else s.pullWindow }
  let s := s.countFeedback F .ack
  { s with
    lastAcked := max s.lastAcked r.cumulativeAck
    flightSize := s.flightSize - .ofNat 32 F.mss }

def processAck (r : Reply) (s : Source) : Source × List NdpPacket :=
  let s := s.noteAck F r
  if r.pull then s.pullPackets F r.pullno r.pacerno else (s, [])

def processPull (p : NdpPull) (s : Source) : Source × List NdpPacket :=
  { s with lastAcked := max s.lastAcked p.cumulativeAck }.pullPackets F p.pullno p.pacerno

def receivePacket (s : Source) : Packet → Source × List NdpPacket
  | .ndp p => { s with firstWindowCount := s.firstWindowCount - 1 }.processRTS F p
  | .nack r =>
    { s with
      pullWindow := s.pullWindow + 1
      firstWindowCount := s.firstWindowCount - 1 }.processNack F r
  | .pull p => { s with pullWindow := s.pullWindow - 1 }.processPull F p
  | .ack r =>
    { s with
      pullWindow := s.pullWindow + 1
      firstWindowCount := s.firstWindowCount - 1 }.processAck F r

end Source

end P4Survey.Ndp
