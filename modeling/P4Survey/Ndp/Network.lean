import P4Survey.Lib.System
import P4Survey.Ndp.Sink

/-! # A source and a sink over a multipath network

One flow over a network that delivers each packet once and in any order and may
trim any data packet on its way. The clock only orders the events of the pacer:
a packet may arrive at any time before the next timer event.
-/

namespace P4Survey.Ndp
open Lib

/-- Data packets as the network carries them. -/
def onWire (out : List NdpPacket) : Multiset Packet := (out.map .ndp : List Packet)

@[simp] theorem onWire_nil : onWire [] = 0 := rfl

@[simp] theorem onWire_cons (p : NdpPacket) (out : List NdpPacket) :
    onWire (p :: out) = .ndp p ::ₘ onWire out := rfl

theorem mem_onWire {p : Packet} {out : List NdpPacket} :
    p ∈ onWire out ↔ ∃ q ∈ out, .ndp q = p := by
  rw [onWire, Multiset.mem_coe, List.mem_map]

theorem onWire_append (out out' : List NdpPacket) :
    onWire (out ++ out') = onWire out + onWire out' := by
  simp [onWire]

structure World where
  src : Source
  sink : Sink
  pacer : Pacer
  net : Multiset Packet
  now : ℕ
  timers : Multiset ℕ

/-- `t` is the time of the event and `draw` a drain time drawn at random. -/
inductive Label where
  | deliver (p : Packet) (t draw : ℕ)
  | trim (p : NdpPacket)
  | timer (t draw : ℕ)

namespace World

variable (F : Flow) (s : World)

/-- The source has sent its first window at time `now`. -/
def start (now packetDrainTime : ℕ) : World :=
  let (src, out) := Source.initial.startflow F
  ⟨src, .initial, .initial packetDrainTime, onWire out, now, 0⟩

/-- No event is due before time `t`. -/
def Due (t : ℕ) : Prop := s.now ≤ t ∧ ∀ t' ∈ s.timers, t ≤ t'

instance (t : ℕ) : Decidable (s.Due t) := inferInstanceAs (Decidable (_ ∧ _))

def arrive (p : NdpPacket) (t draw : ℕ) : World :=
  let a := s.sink.receivePacket F t draw p s.pacer
  { s with
    sink := a.sink
    pacer := a.pacer
    net := a.reply ::ₘ s.net.erase (.ndp p)
    now := t
    timers := (a.timer.toList : Multiset ℕ) + s.timers }

def feedback (p : Packet) (t : ℕ) : World :=
  let (src, out) := s.src.receivePacket F p
  { s with
    src := src
    net := onWire out + s.net.erase p
    now := t }

def deliver (t draw : ℕ) : Packet → World
  | .ndp p => s.arrive F p t draw
  | p => s.feedback F p t

def trim (p : NdpPacket) : World :=
  { s with net := .ndp { p with isHeader := true } ::ₘ s.net.erase (.ndp p) }

def timer (t draw : ℕ) : World :=
  let (pacer, out, timer) := s.pacer.doNextEvent t draw
  { s with
    pacer := pacer
    net := ((out.toList.map .pull : List Packet) : Multiset Packet) + s.net
    now := t
    timers := (timer.toList : Multiset ℕ) + s.timers.erase t }

end World

def network (F : Flow) : System World Label where
  init s := ∃ now packetDrainTime, s = .start F now packetDrainTime
  enabled
    | s, .deliver p t _ => p ∈ s.net ∧ s.Due t
    | s, .trim p => .ndp p ∈ s.net ∧ p.isHeader = false
    | s, .timer t _ => t ∈ s.timers ∧ s.Due t
  next
    | s, .deliver p t draw => s.deliver F t draw p
    | s, .trim p => s.trim p
    | s, .timer t draw => s.timer t draw

instance (F : Flow) (s : World) : (a : Label) → Decidable ((network F).enabled s a)
  | .deliver p t _ => inferInstanceAs (Decidable (p ∈ s.net ∧ s.Due t))
  | .trim p => inferInstanceAs (Decidable (.ndp p ∈ s.net ∧ p.isHeader = false))
  | .timer t _ => inferInstanceAs (Decidable (t ∈ s.timers ∧ s.Due t))

end P4Survey.Ndp
