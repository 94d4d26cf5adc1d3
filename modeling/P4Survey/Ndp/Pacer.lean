import P4Survey.Ndp.PullQueue
import P4Survey.Ndp.Source

/-! # The pull pacer

`NdpPullPacer` of `ndp.cpp`. A reply leaves at once with its pull bit set if no
pull is waiting and the last pull is long enough ago; else it leaves without the
bit and a pull is queued for the timer. Drain times come from the packet size or,
if that is turned off, from a random draw.
-/

namespace P4Survey.Ndp

/-- The macro `RCV_CWND`. -/
def rcvCwnd : ℕ := 0

structure Pacer where
  pullQueue : FairPullQueue NdpPull
  lastPull : ℕ
  packetDrainTime : ℕ
  pacerNo : ℕ

namespace Pacer

def initial (packetDrainTime : ℕ) : Pacer := ⟨.empty, 0, packetDrainTime, 0⟩

variable (p : Pacer)

def drainTime (draw : ℕ) : ℕ := if 0 < p.packetDrainTime then p.packetDrainTime else draw

/-- The window of the flow is to grow; the difference is one of 64-bit numbers. -/
def Increases (rcvdPacerNo : ℕ) : Prop :=
  rcvdPacerNo ≠ 0 ∧ (p.pacerNo + 2 ^ 64 - rcvdPacerNo) % 2 ^ 64 < rcvCwnd

instance (rcvdPacerNo : ℕ) : Decidable (p.Increases rcvdPacerNo) :=
  inferInstanceAs (Decidable (_ ∧ _))

theorem not_increases (rcvdPacerNo : ℕ) : ¬ p.Increases rcvdPacerNo :=
  fun h => Nat.not_lt_zero _ h.2

/-- The last pull is a drain time ago and none is waiting. -/
def Due (now draw : ℕ) : Prop := p.pullQueue.IsEmpty ∧ p.drainTime draw ≤ now - p.lastPull

instance (now draw : ℕ) : Decidable (p.Due now draw) := inferInstanceAs (Decidable (_ ∧ _))

/-- Send on an ACK or NACK. The last component is the time of a new timer event. -/
def sendPacket (now draw : ℕ) (flow : ℤ) (kind : Reply → Packet) (r : Reply) :
    Pacer × Packet × Option ℕ :=
  if p.Due now draw then
    ({ p with pacerNo := p.pacerNo + 1, lastPull := now }, kind { r with pacerno := p.pacerNo },
      none)
  else
    ({ p with pullQueue := p.pullQueue.enqueue flow ⟨r.ackno, r.cumulativeAck, r.pullno, 0⟩ },
      kind { r with pull := false, pullno := 0 },
      if p.pullQueue.IsEmpty then some (now + (p.drainTime draw - (now - p.lastPull))) else none)

def releasePulls (flow : ℤ) : Pacer := { p with pullQueue := p.pullQueue.flushFlow flow }

def doNextEvent (now draw : ℕ) : Pacer × Option NdpPull × Option ℕ :=
  match p.pullQueue.dequeue with
  | none => (p, none, none)
  | some (x, q) =>
    ({ p with pullQueue := q, pacerNo := p.pacerNo + 1, lastPull := now },
      some { x with pacerno := p.pacerNo },
      if q.IsEmpty then none else some (now + p.drainTime draw))

end Pacer

end P4Survey.Ndp
