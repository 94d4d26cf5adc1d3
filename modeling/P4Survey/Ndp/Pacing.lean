import P4Survey.Lib.System
import P4Survey.Ndp.Pacer

/-! # The pacing of pulls

One pacer serves the sinks of any number of flows. Calls come in the order of
simulated time, and a timer event is handled at its time. A released flow leaves
its timer behind: the pacer then has an empty queue and a pending event, and the
next reply that comes too early starts a second one.
-/

namespace P4Survey.Ndp
open Lib

/-- The packet asks the source to send. -/
def Packet.isPull : Packet → Bool
  | .ndp _ => false
  | .ack r => r.pull
  | .nack r => r.pull
  | .pull _ => true

namespace Pacing

/-- The pacer, the simulated time, the pending events of the pacer, and the times of
the pulls it has emitted, the last one first. -/
structure State where
  pacer : Pacer
  now : ℕ
  timers : List ℕ
  emitted : List ℕ

inductive Call
  | sendPacket (now draw : ℕ) (flow : ℤ) (nack : Bool) (r : Reply)
  | releasePulls (now : ℕ) (flow : ℤ)
  | doNextEvent (now draw : ℕ)

def start (packetDrainTime : ℕ) : State := ⟨.initial packetDrainTime, 0, [], []⟩

namespace State

variable (s : State)

def emit (now : ℕ) (b : Bool) : List ℕ := if b then now :: s.emitted else s.emitted

def sendPacket (now draw : ℕ) (flow : ℤ) (nack : Bool) (r : Reply) : State :=
  let (p, pkt, timer) :=
    s.pacer.sendPacket now draw flow (if nack then Packet.nack else Packet.ack) r
  ⟨p, now, timer.toList ++ s.timers, s.emit now pkt.isPull⟩

def releasePulls (now : ℕ) (flow : ℤ) : State :=
  { s with pacer := s.pacer.releasePulls flow, now := now }

def doNextEvent (now draw : ℕ) : State :=
  let (p, pull, timer) := s.pacer.doNextEvent now draw
  ⟨p, now, timer.toList ++ s.timers.erase now, s.emit now pull.isSome⟩

/-- No call comes after the next event. -/
def CanCall (now : ℕ) : Prop := s.now ≤ now ∧ ∀ t ∈ s.timers, now ≤ t

instance (now : ℕ) : Decidable (s.CanCall now) := inferInstanceAs (Decidable (_ ∧ _))

end State

def system (packetDrainTime : ℕ) : System State Call where
  init s := s = start packetDrainTime
  enabled s
    | .sendPacket now _ _ _ _ => s.CanCall now
    | .releasePulls now _ => s.CanCall now
    | .doNextEvent now _ => now ∈ s.timers ∧ ∀ t ∈ s.timers, now ≤ t
  next s
    | .sendPacket now draw flow nack r => s.sendPacket now draw flow nack r
    | .releasePulls now flow => s.releasePulls now flow
    | .doNextEvent now draw => s.doNextEvent now draw

instance (packetDrainTime : ℕ) (s : State) : (a : Call) →
    Decidable ((system packetDrainTime).enabled s a)
  | .sendPacket .. => inferInstanceAs (Decidable (_ ∧ _))
  | .releasePulls .. => inferInstanceAs (Decidable (_ ∧ _))
  | .doNextEvent .. => inferInstanceAs (Decidable (_ ∧ _))

/-- At most one event is pending, and pulls are a drain time apart. -/
structure Paced (packetDrainTime : ℕ) (s : State) : Prop where
  timers : s.timers.length ≤ 1
  apart : s.emitted.Pairwise fun t t' => t' + packetDrainTime ≤ t

/-- A reply that comes too early and finds no pull waiting finds no event pending either. -/
def Fresh (s : State) : Call → Prop
  | .sendPacket now draw _ _ _ =>
    s.pacer.pullQueue.IsEmpty → ¬s.pacer.Due now draw → s.timers = []
  | _ => True

variable {D : ℕ} {s : State}

section Calls

variable {now draw : ℕ} {flow : ℤ} {nack : Bool} {r : Reply}

theorem sendPacket_of_due (h : s.pacer.Due now draw) :
    s.sendPacket now draw flow nack r =
      ⟨{ s.pacer with pacerNo := s.pacer.pacerNo + 1, lastPull := now }, now, s.timers,
        s.emit now r.pull⟩ := by
  simp only [State.sendPacket, Pacer.sendPacket, if_pos h]
  cases nack <;> rfl

theorem sendPacket_of_not_due (h : ¬s.pacer.Due now draw) :
    s.sendPacket now draw flow nack r =
      ⟨{ s.pacer with pullQueue :=
          s.pacer.pullQueue.enqueue flow ⟨r.ackno, r.cumulativeAck, r.pullno, 0⟩ }, now,
        (if s.pacer.pullQueue.IsEmpty then
          [now + (s.pacer.drainTime draw - (now - s.pacer.lastPull))] else []) ++ s.timers,
        s.emitted⟩ := by
  simp only [State.sendPacket, Pacer.sendPacket, if_neg h]
  congr 1
  · split_ifs <;> rfl
  · cases nack <;> rfl

theorem isEmpty_flushFlow {q : FairPullQueue NdpPull} (h : q.IsEmpty) : (q.flushFlow flow).IsEmpty := by
  rw [FairPullQueue.flushFlow]
  split
  · exact h
  · exact Nat.sub_eq_zero_of_le (h.le.trans (Nat.zero_le _))

end Calls

/-- While a pull is waiting, no event comes less than a drain time after the last pull. -/
structure Inv (D : ℕ) (s : State) : Prop where
  drainTime : s.pacer.packetDrainTime = D
  wellFormed : s.pacer.pullQueue.WellFormed
  paced : Paced D s
  lastPull_le : s.pacer.lastPull ≤ s.now
  emitted_le : ∀ t ∈ s.emitted, t ≤ s.pacer.lastPull
  now_le : ∀ t ∈ s.timers, s.now ≤ t
  waiting : ¬s.pacer.pullQueue.IsEmpty → ∀ t ∈ s.timers, s.pacer.lastPull + D ≤ t

namespace Inv

variable {now draw : ℕ}

theorem start : Inv D (start D) :=
  ⟨rfl, FairPullQueue.wellFormed_empty, ⟨Nat.zero_le _, List.Pairwise.nil⟩, le_rfl, by simp [Pacing.start],
    by simp [Pacing.start], by simp [Pacing.start]⟩

theorem le_drainTime (h : Inv D s) (draw : ℕ) : D ≤ s.pacer.drainTime draw := by
  rw [Pacer.drainTime, h.drainTime]
  split_ifs with hpos
  · exact le_rfl
  · omega

/-- A pull that is a drain time after the last one. -/
theorem apart_emit (h : Inv D s) {now : ℕ} (hnow : s.pacer.lastPull + D ≤ now) (b : Bool) :
    (s.emit now b).Pairwise (fun t t' => t' + D ≤ t) ∧ ∀ t ∈ s.emit now b, t ≤ now := by
  have hle : ∀ t ∈ s.emitted, t + D ≤ now := by
    intro t ht
    have := h.emitted_le t ht
    omega
  cases b with
  | false =>
    refine ⟨h.paced.apart, fun t ht => ?_⟩
    have := hle t ht
    omega
  | true =>
    refine ⟨h.paced.apart.cons hle, fun t ht => ?_⟩
    rcases List.mem_cons.mp ht with rfl | ht
    · exact le_rfl
    · have := hle t ht
      omega

theorem sendPacket (h : Inv D s) (hcall : s.CanCall now) {flow : ℤ} {nack : Bool} {r : Reply}
    (hfresh : Fresh s (.sendPacket now draw flow nack r)) :
    Inv D (s.sendPacket now draw flow nack r) := by
  have hdrain := h.le_drainTime draw
  have hlast := h.lastPull_le
  have hnow := hcall.1
  by_cases hdue : s.pacer.Due now draw
  · rw [sendPacket_of_due hdue]
    have hago := hdue.2
    obtain ⟨hapart, hle⟩ := h.apart_emit (show s.pacer.lastPull + D ≤ now by omega) r.pull
    exact ⟨h.drainTime, h.wellFormed, ⟨h.paced.timers, hapart⟩, le_rfl, hle, hcall.2,
      fun hne => absurd hdue.1 hne⟩
  · rw [sendPacket_of_not_due hdue]
    by_cases hempty : s.pacer.pullQueue.IsEmpty
    · rw [if_pos hempty, hfresh hempty hdue]
      refine ⟨h.drainTime, h.wellFormed.enqueue _ _, ⟨le_rfl, h.paced.apart⟩, hlast.trans hnow,
        h.emitted_le, ?_, ?_⟩
      · intro t ht
        obtain rfl := List.mem_singleton.mp ht
        exact Nat.le_add_right _ _
      · intro _ t ht
        obtain rfl := List.mem_singleton.mp ht
        dsimp only
        omega
    · rw [if_neg hempty]
      exact ⟨h.drainTime, h.wellFormed.enqueue _ _, ⟨h.paced.timers, h.paced.apart⟩,
        hlast.trans hnow, h.emitted_le, hcall.2, fun _ => h.waiting hempty⟩

theorem releasePulls (h : Inv D s) (hcall : s.CanCall now) (flow : ℤ) :
    Inv D (s.releasePulls now flow) :=
  ⟨h.drainTime, h.wellFormed.flushFlow flow, ⟨h.paced.timers, h.paced.apart⟩,
    h.lastPull_le.trans hcall.1, h.emitted_le, hcall.2,
    fun hne => h.waiting fun hempty => hne (isEmpty_flushFlow hempty)⟩

/-- The only event that was pending is gone. -/
theorem erase_eq_nil (h : Inv D s) (hnow : now ∈ s.timers) : s.timers.erase now = [] := by
  rw [← List.length_eq_zero_iff, List.length_erase_of_mem hnow]
  have := h.paced.timers
  omega

theorem doNextEvent (h : Inv D s) (hnow : now ∈ s.timers) : Inv D (s.doNextEvent now draw) := by
  have hlast := h.lastPull_le.trans (h.now_le now hnow)
  simp only [State.doNextEvent, Pacer.doNextEvent, h.erase_eq_nil hnow]
  by_cases hempty : s.pacer.pullQueue.IsEmpty
  · have hnone : s.pacer.pullQueue.dequeue = none := if_pos hempty
    rw [hnone]
    exact ⟨h.drainTime, h.wellFormed, ⟨Nat.zero_le _, h.paced.apart⟩, hlast, h.emitted_le,
      by simp, fun hne => absurd hempty hne⟩
  · obtain ⟨x, q, hq, hw, -⟩ := h.wellFormed.dequeue hempty
    obtain ⟨hapart, hle⟩ := h.apart_emit (h.waiting hempty now hnow) true
    have hdrain := h.le_drainTime draw
    rw [hq]
    dsimp only
    split_ifs with hq'
    · exact ⟨h.drainTime, hw, ⟨Nat.zero_le _, hapart⟩, le_rfl, hle, by simp,
        fun hne => absurd hq' hne⟩
    · refine ⟨h.drainTime, hw, ⟨le_rfl, hapart⟩, le_rfl, hle, ?_, ?_⟩
      · intro t ht
        obtain rfl : t = _ := by simpa using ht
        exact Nat.le_add_right _ _
      · intro _ t ht
        obtain rfl : t = _ := by simpa using ht
        exact Nat.add_le_add_left hdrain _

theorem next (h : Inv D s) {a : Call} (ha : (system D).enabled s a) (hfresh : Fresh s a) :
    Inv D ((system D).next s a) := by
  cases a with
  | sendPacket now draw flow nack r => exact h.sendPacket ha hfresh
  | releasePulls now flow => exact h.releasePulls ha flow
  | doNextEvent now draw => exact h.doNextEvent ha.1

end Inv

/-- A second event is pending after a call that is not fresh. -/
theorem fresh_of_paced {a : Call} (h : Paced D ((system D).next s a)) : Fresh s a := by
  cases a with
  | releasePulls now flow => trivial
  | doNextEvent now draw => trivial
  | sendPacket now draw flow nack r =>
    intro hempty hdue
    have htimers := h.timers
    change (s.sendPacket now draw flow nack r).timers.length ≤ 1 at htimers
    rw [sendPacket_of_not_due hdue, if_pos hempty] at htimers
    apply List.eq_nil_of_length_eq_zero
    simpa using htimers

/-- The pacer keeps its pace along a run exactly if no reply that comes too early finds
the queue empty and an event pending. -/
theorem paced_iff_fresh {l : List Call} (h : (system D).Allowed (start D) l) :
    (∀ l', l' <+: l → Paced D ((system D).run (start D) l')) ↔
      ((system D).restrict Fresh).Allowed (start D) l := by
  exact System.holds_iff_allowed (fun s hs => hs.paced)
    (fun s a hs ha hfresh => hs.next ha hfresh) (fun s a _ _ hpaced => fresh_of_paced hpaced)
    Inv.start h

/-- The first reply of a flow waits for its event. -/
def firstReply (flow : ℤ) (now : ℕ) : List Call :=
  [.sendPacket now 0 flow false ⟨1, 0, 1, 0, true⟩]

theorem paced_iff_fresh_first :
    (system 7200).Allowed (start 7200) (firstReply 1 0) ∧
      ∀ l', l' <+: firstReply 1 0 → Paced 7200 ((system 7200).run (start 7200) l') := by
  have hrun : (system 7200).Allowed (start 7200) (firstReply 1 0) := by decide
  exact ⟨hrun, (paced_iff_fresh hrun).mpr ⟨⟨hrun.1, fun _ _ => rfl⟩, trivial⟩⟩

/-- Flow 1 is done while its pull waits; two replies of flow 2 come before its event. -/
def releasedRun : List Call :=
  firstReply 1 0 ++ .releasePulls 1 1 :: firstReply 2 2 ++
    [.sendPacket 3 0 2 false ⟨2, 0, 2, 0, true⟩]

/-- Two events are pending then, and both of them emit a pull at the same time. -/
theorem released_timer_doubles :
    (system 7200).Allowed (start 7200)
        (releasedRun ++ [.doNextEvent 7200 0, .doNextEvent 7200 0]) ∧
      ((system 7200).run (start 7200) releasedRun).timers = [7200, 7200] ∧
      ((system 7200).run (start 7200)
        (releasedRun ++ [.doNextEvent 7200 0, .doNextEvent 7200 0])).emitted = [7200, 7200] := by
  decide

end Pacing

end P4Survey.Ndp
