import P4Survey.Lib.System
import P4Survey.Lib.Words

/-! # The window of a TCP source

`TcpSrc` of `tcp.cpp`, for a flow that is not a part of a multipath connection:
what an ACK and a retransmission timeout do to the window, and which packets
`send_packets` sends. A division by zero and a failed assertion give `none`.
-/

namespace P4Survey.Ndp

open Lib

/-- The constants of a flow. `appLimited` is negative if the application does not limit the
rate. -/
structure TcpFlow where
  mss : ℕ
  flowSize : ℕ
  appLimited : ℤ
  mss_pos : 0 < mss
  mss_lt : mss < 2 ^ 16

/-- The windows are unsigned words of 32 bits, sequence numbers words of 64 bits. The last
three fields are not read by the code: the highest byte that was ever sent, the sequence
numbers of the packets that `send_packets` sent in this step, and `_highest_sent` when it
was called. -/
structure TcpSrc where
  highestSent : ℕ
  lastAcked : ℕ
  cwnd : ℕ
  ssthresh : ℕ
  dupacks : ℕ
  recoverq : ℕ
  inFastRecovery : Bool
  established : Bool
  rtt : ℕ
  rttCum : ℕ
  rttAvg : ℕ
  sawtooth : ℕ
  top : ℕ
  burst : List ℕ
  oldHighest : ℕ

namespace TcpSrc

variable (F : TcpFlow) (s : TcpSrc)

/-- The loop of `send_packets`: the packets that fit below `limit` and into the flow, and
`_highest_sent` after them. -/
def sendLoop (limit highestSent : ℕ) : List ℕ × ℕ :=
  if highestSent + F.mss ≤ limit ∧ highestSent + F.mss ≤ F.flowSize + 1 then
    let r := sendLoop limit (highestSent + F.mss)
    ((highestSent + 1) :: r.1, r.2)
  else ([], highestSent)
termination_by limit - highestSent
decreasing_by
  have hpos := F.mss_pos
  omega

/-- `int c = _cwnd`, and the limit of the application. -/
def sendWindow : ℤ :=
  let c := int32 s.cwnd
  if 0 ≤ F.appLimited ∧ 0 < s.rtt then
    let d : ℕ := F.appLimited.toNat * s.rtt % 2 ^ 64 / 1000000000
    if c % 2 ^ 64 > d then int32 d else c
  else c

/-- `_last_acked + c`, a word of 64 bits. -/
def sendLimit : ℕ := ((s.lastAcked + s.sendWindow F) % 2 ^ 64).toNat

def sendPackets : TcpSrc :=
  if s.established then
    let r := sendLoop F (s.sendLimit F) s.highestSent
    { s with highestSent := r.2, burst := r.1, oldHighest := s.highestSent, top := max s.top r.2 }
  else
    { s with highestSent := 1, burst := [1], oldHighest := s.highestSent, top := max s.top 1 }

/-- The packet after the last ACK, or the SYN, is sent again. -/
def retransmitPacket : Option TcpSrc :=
  if s.established then some { s with top := max s.top (s.lastAcked + F.mss) }
  else if s.highestSent = 1 then some s
  else none

def deflateWindow : TcpSrc := { s with ssthresh := max (s.cwnd / 2) (2 * F.mss) }

/-- Above the slow start threshold, `newlyAcked` bytes enlarge the window by a share. The
quotient of the round trip times is one of floating point numbers. -/
def additiveIncrease (newlyAcked : ℕ) : Option TcpSrc :=
  (divide s.cwnd F.mss).bind fun pkts =>
    if s.rtt = 0 then none
    else (divide (newlyAcked * F.mss % 2 ^ 32) s.cwnd).bind fun increase =>
      let cwnd := (s.cwnd + increase) % 2 ^ 32
      (divide cwnd F.mss).map fun pkts' =>
        if pkts ≠ pkts' then
          { s with cwnd := cwnd, rttCum := s.rttCum + s.rtt, sawtooth := s.sawtooth + 1 }
        else { s with cwnd := cwnd }

def inflateWindow : Option TcpSrc :=
  let newlyAcked := min (int32 (s.lastAcked + s.cwnd - s.highestSent)) F.mss
  if newlyAcked < 0 then some s
  else if s.cwnd < s.ssthresh then
    some { s with cwnd := (s.cwnd + min (s.ssthresh - s.cwnd) newlyAcked.toNat) % 2 ^ 32 }
  else s.additiveIncrease F newlyAcked.toNat

/-- The mean round trip time since the last loss. -/
def closeSawtooth : Option TcpSrc :=
  if 0 < s.sawtooth then
    (divide s.rttCum s.sawtooth).map fun avg => { s with rttAvg := avg, sawtooth := 0, rttCum := 0 }
  else some { s with rttAvg := 0, sawtooth := 0, rttCum := 0 }

/-- A new round trip time `m`, if it is not zero. -/
def sample (m : ℕ) : TcpSrc :=
  if m = 0 then s
  else { s with rtt := if 0 < s.rtt then 7 * s.rtt / 8 + m / 8 else m }

/-- `_maxcwnd` is the largest word. -/
def capWindow (cwnd : ℕ) : ℕ := if cwnd > 2 ^ 32 - 1 then 2 ^ 32 - 1 else cwnd

/-- An ACK for new data. -/
def newAck (seqno : ℕ) : Option TcpSrc :=
  let s := { s with highestSent := if s.highestSent ≤ seqno then seqno else s.highestSent }
  if s.inFastRecovery = false then
    (inflateWindow F { s with lastAcked := seqno, dupacks := 0 }).map fun s =>
      sendPackets F { s with cwnd := capWindow s.cwnd }
  else if s.recoverq ≤ seqno then
    let flightsize := (s.highestSent - seqno) % 2 ^ 32
    some (sendPackets F
      { s with
        cwnd := min s.ssthresh ((flightsize + F.mss) % 2 ^ 32)
        lastAcked := seqno
        dupacks := 0
        inFastRecovery := false })
  else
    let newData := (seqno - s.lastAcked) % 2 ^ 32
    (retransmitPacket F
      { s with
        lastAcked := seqno
        cwnd := ((if newData < s.cwnd then s.cwnd - newData else 0) + F.mss) % 2 ^ 32 }).map
      (sendPackets F)

/-- The third duplicate of an ACK starts fast recovery. -/
def beginRecovery : Option TcpSrc :=
  ((closeSawtooth (s.deflateWindow F)).bind (retransmitPacket F)).map fun s =>
    { s with
      cwnd := (s.ssthresh + 3 * F.mss) % 2 ^ 32
      inFastRecovery := true
      recoverq := s.highestSent }

def dupAck : Option TcpSrc :=
  if s.inFastRecovery then
    some (sendPackets F { s with cwnd := capWindow ((s.cwnd + F.mss) % 2 ^ 32) })
  else
    let s := { s with dupacks := (s.dupacks + 1) % 2 ^ 16 }
    if s.dupacks ≠ 3 then some (sendPackets F s)
    else if s.lastAcked < s.recoverq then some s
    else beginRecovery F s

/-- An ACK, and the time since the packet it is for was sent. -/
def receivePacket (seqno m : ℕ) : Option TcpSrc :=
  if seqno < s.lastAcked then some s
  else
    let s := sample { s with established := s.established || seqno = 1 } m
    if s.lastAcked < seqno then newAck F s seqno else dupAck F s

/-- The window that fast recovery would end with. -/
def leaveRecovery : TcpSrc :=
  if s.inFastRecovery then
    { s with
      cwnd := min s.ssthresh (((s.highestSent - s.lastAcked) % 2 ^ 32 + F.mss) % 2 ^ 32) }
  else s

/-- Back to a window of one packet after the last ACK. -/
def restart : TcpSrc :=
  { s with
    cwnd := F.mss
    inFastRecovery := false
    recoverq := s.highestSent
    highestSent := if s.established then s.lastAcked + F.mss else s.highestSent
    dupacks := 0 }

/-- The retransmission timer has expired. -/
def timeout : Option TcpSrc :=
  (((s.leaveRecovery F).deflateWindow F).restart F).retransmitPacket F |>.bind closeSawtooth

/-- The source as the constructor and `startflow` leave it. -/
def startflow : TcpSrc :=
  sendPackets F ⟨0, 0, 10 * F.mss, 2 ^ 32 - 1, 0, 0, false, false, 0, 0, 0, 0, 0, [], 0⟩

inductive Event where
  | ack (seqno m : ℕ)
  | timeout
  deriving DecidableEq

def step : Event → Option TcpSrc
  | .ack seqno m => receivePacket F { s with burst := [] } seqno m
  | .timeout => timeout F { s with burst := [] }

/-- The sink acknowledges bytes that were sent. No sequence number wraps around 32 bits. -/
def system : System (Option TcpSrc) Event where
  init s := s = some (startflow F)
  enabled
    | none, _ => False
    | some s, .ack seqno _ => seqno ≤ s.top ∧ s.top + F.mss < 2 ^ 32
    | some s, .timeout => s.top + F.mss < 2 ^ 32
  next s a := s.bind fun s => s.step F a

instance decidableEnabled : (s : Option TcpSrc) → (a : Event) → Decidable ((system F).enabled s a)
  | none, _ => isFalse id
  | some s, .ack seqno _ => inferInstanceAs (Decidable (seqno ≤ s.top ∧ s.top + F.mss < 2 ^ 32))
  | some s, .timeout => inferInstanceAs (Decidable (s.top + F.mss < 2 ^ 32))

/-- The window is at least a packet, the threshold at least two, no more is acknowledged than
was sent, and the last call of `send_packets` sent only what it may. -/
structure Laws : Prop where
  cwnd : F.mss ≤ s.cwnd
  ssthresh : 2 * F.mss ≤ s.ssthresh
  lastAcked : s.lastAcked ≤ s.highestSent
  burst : ∀ seqno ∈ s.burst, seqno + F.mss ≤ max s.oldHighest (s.lastAcked + s.cwnd) + 1

/-- The mean round trip time is not zero after a new one: it would be if there is no mean yet and
the new one is zero, or if the mean is one and the eighth of the new one is nothing. -/
def Measures (m : ℕ) : Prop := ¬(s.rtt = 0 ∧ m = 0) ∧ ¬(s.rtt = 1 ∧ 0 < m ∧ m < 8)

instance (m : ℕ) : Decidable (s.Measures m) := inferInstanceAs (Decidable (_ ∧ _))

/-- An ACK that is not old comes while the window and one packet more are below `2 ^ 31`, and
with a round trip time that does not take the mean to zero. -/
def Tame : Event → Prop
  | .ack seqno m => s.lastAcked ≤ seqno → s.cwnd + F.mss < 2 ^ 31 ∧ s.Measures m
  | .timeout => True

instance decidableTame : (a : Event) → Decidable (s.Tame F a)
  | .ack seqno m =>
    inferInstanceAs (Decidable (s.lastAcked ≤ seqno → s.cwnd + F.mss < 2 ^ 31 ∧ s.Measures m))
  | .timeout => isTrue trivial

variable {F s} {s' : TcpSrc}

/-! ## The loop of `send_packets` -/

theorem sendLoop_next {limit hs : ℕ} (h : hs + F.mss ≤ limit ∧ hs + F.mss ≤ F.flowSize + 1) :
    sendLoop F limit hs =
      ((hs + 1) :: (sendLoop F limit (hs + F.mss)).1, (sendLoop F limit (hs + F.mss)).2) := by
  rw [sendLoop, if_pos h]

theorem sendLoop_stop {limit hs : ℕ} (h : ¬(hs + F.mss ≤ limit ∧ hs + F.mss ≤ F.flowSize + 1)) :
    sendLoop F limit hs = ([], hs) := by
  rw [sendLoop, if_neg h]

/-- What is sent lies below the limit, and so does `_highest_sent`, if anything is sent. -/
theorem sendLoop_le (limit hs : ℕ) :
    hs ≤ (sendLoop F limit hs).2 ∧ (sendLoop F limit hs).2 ≤ max hs limit ∧
      ∀ seqno ∈ (sendLoop F limit hs).1, seqno + F.mss ≤ limit + 1 := by
  induction hs using sendLoop.induct F limit with
  | case1 hs h ih =>
    obtain ⟨hle, hmax, hburst⟩ := ih
    rw [sendLoop_next h]
    refine ⟨(Nat.le_add_right _ _).trans hle, ?_, ?_⟩
    · rw [max_eq_right h.1] at hmax
      exact hmax.trans (le_max_right _ _)
    · intro seqno hseqno
      rcases List.mem_cons.mp hseqno with rfl | hseqno
      · omega
      · exact hburst seqno hseqno
  | case2 hs h =>
    rw [sendLoop_stop h]
    exact ⟨le_rfl, le_max_left _ _, fun _ hseqno => absurd hseqno List.not_mem_nil⟩

/-- A window below `2 ^ 31` is its own `int`, and the application only lowers it. -/
theorem sendLimit_le (hc : s.cwnd < 2 ^ 31) : s.sendLimit F ≤ s.lastAcked + s.cwnd := by
  have hcast : int32 s.cwnd = s.cwnd := int32_of_fits (by omega) (by omega)
  have hwindow : 0 ≤ s.sendWindow F ∧ s.sendWindow F ≤ s.cwnd := by
    dsimp only [sendWindow]
    rw [hcast]
    split_ifs with happ hless
    · have hmod : (s.cwnd : ℤ) % 2 ^ 64 = s.cwnd := Int.emod_eq_of_lt (by omega) (by omega)
      rw [hmod] at hless
      rw [int32_of_fits (by omega) (by omega)]
      omega
    · omega
    · omega
  rw [sendLimit, Int.toNat_le]
  push_cast
  omega

/-! ## The parts of a step -/

/-- A retransmission sends no more than one packet above the last ACK. -/
theorem retransmitPacket_eq (hsyn : s.established = false → s.highestSent = 1) :
    ∃ top, s.retransmitPacket F = some { s with top := top } ∧ s.top ≤ top ∧
      (s.established = true → s.lastAcked + F.mss ≤ top) ∧ (s.established = false → top = s.top) := by
  rw [retransmitPacket]
  by_cases hest : s.established = true
  · rw [if_pos hest]
    refine ⟨_, rfl, le_max_left _ _, fun _ => le_max_right _ _, fun hfalse => ?_⟩
    rw [hest] at hfalse
    cases hfalse
  · rw [if_neg hest, if_pos (hsyn (Bool.not_eq_true _ ▸ hest))]
    exact ⟨s.top, rfl, le_rfl, fun h => absurd h hest, fun _ => rfl⟩

theorem closeSawtooth_eq (s : TcpSrc) :
    ∃ avg, s.closeSawtooth = some { s with rttAvg := avg, sawtooth := 0, rttCum := 0 } := by
  rw [closeSawtooth]
  by_cases hsaw : 0 < s.sawtooth
  · rw [if_pos hsaw, divide_of_pos hsaw]
    exact ⟨_, rfl⟩
  · rw [if_neg hsaw]
    exact ⟨_, rfl⟩

theorem measures_iff (m : ℕ) : s.Measures m ↔ 0 < (s.sample m).rtt := by
  rw [Measures, sample]
  split_ifs with hm hrtt
  · omega
  · dsimp only
    omega
  · dsimp only
    omega

theorem sample_eq {m : ℕ} (hm : s.Measures m) :
    ∃ rtt, s.sample m = { s with rtt := rtt } ∧ 0 < rtt := by
  rw [measures_iff] at hm
  refine ⟨(s.sample m).rtt, ?_, hm⟩
  rw [sample]
  split_ifs <;> rfl

/-- The additive increase is at most a packet, and nothing is divided by zero. -/
theorem additiveIncrease_eq {newlyAcked : ℕ} (hcwnd : F.mss ≤ s.cwnd)
    (hfits : s.cwnd + F.mss < 2 ^ 31) (hrtt : 0 < s.rtt) (hnew : newlyAcked ≤ F.mss) :
    ∃ cwnd cum saw, s.additiveIncrease F newlyAcked =
        some { s with cwnd := cwnd, rttCum := cum, sawtooth := saw } ∧
      s.cwnd ≤ cwnd ∧ cwnd ≤ s.cwnd + F.mss := by
  have hpos := F.mss_pos
  have hshare : newlyAcked * F.mss % 2 ^ 32 / s.cwnd ≤ F.mss := by
    calc newlyAcked * F.mss % 2 ^ 32 / s.cwnd ≤ newlyAcked * F.mss / s.cwnd :=
          Nat.div_le_div_right (Nat.mod_le _ _)
      _ ≤ newlyAcked * F.mss / F.mss := Nat.div_le_div_left hcwnd hpos
      _ = newlyAcked := Nat.mul_div_cancel _ hpos
      _ ≤ F.mss := hnew
  have hwrap : (s.cwnd + newlyAcked * F.mss % 2 ^ 32 / s.cwnd) % 2 ^ 32 =
      s.cwnd + newlyAcked * F.mss % 2 ^ 32 / s.cwnd := Nat.mod_eq_of_lt (by omega)
  simp only [additiveIncrease, divide_of_pos hpos, divide_of_pos (hpos.trans_le hcwnd),
    Option.bind_some, Option.map_some, if_neg hrtt.ne', hwrap]
  split_ifs
  · exact ⟨_, s.rttCum + s.rtt, s.sawtooth + 1, rfl, Nat.le_add_right _ _, by omega⟩
  · exact ⟨_, s.rttCum, s.sawtooth, rfl, Nat.le_add_right _ _, by omega⟩

theorem capWindow_eq {cwnd : ℕ} (h : cwnd < 2 ^ 32) : capWindow cwnd = cwnd :=
  if_neg (by omega)

theorem max_half_lt {cwnd : ℕ} (hcwnd : cwnd < 2 ^ 32) : max (cwnd / 2) (2 * F.mss) < 2 ^ 31 := by
  have hlt := F.mss_lt
  exact max_lt (by omega) (by omega)

end TcpSrc

end P4Survey.Ndp
