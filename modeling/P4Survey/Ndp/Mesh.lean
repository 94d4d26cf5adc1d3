import P4Survey.Ndp.Tokens

/-! # A network that loses and returns packets

The network may lose any packet, and it may return a data packet to its sender
when a queue is full. What returns is a header; the source makes a full packet of it
again. Beside the ends of the flow the state has what a log of the run would count.
-/

namespace P4Survey.Ndp
open Lib

/-- `bounced` are the headers on their way back to the source. Then follow the arrivals
at the sink, those of bounced packets at the source, the sequence numbers acknowledged
and whether an ACK took more bytes from those in flight than there were. -/
structure Mesh where
  world : World
  bounced : Multiset NdpPacket
  arrived : ℕ
  returned : ℕ
  acked : List ℕ
  underflow : Bool

inductive MeshLabel where
  | deliver (p : Packet) (t draw : ℕ)
  | trim (p : NdpPacket)
  | bounce (p : NdpPacket)
  | giveBack (p : NdpPacket) (t : ℕ)
  | timer (t draw : ℕ)
  | lose (p : Packet)
  | loseBounced (p : NdpPacket)

namespace MeshLabel

def IsLoss : MeshLabel → Prop
  | .lose _ => True
  | .loseBounced _ => True
  | _ => False

end MeshLabel

namespace Mesh

variable (F : Flow) (s : Mesh)

def start (now packetDrainTime : ℕ) : Mesh := ⟨.start F now packetDrainTime, 0, 0, 0, [], false⟩

/-- What is counted when a packet arrives. -/
def note (p : Packet) : Mesh :=
  { s with
    arrived := if p.isData then s.arrived + 1 else s.arrived
    acked := p.acks ++ s.acked
    underflow := s.underflow || decide (s.world.src.flightSize.toNat < p.acks.length * F.mss) }

def deliver (p : Packet) (t draw : ℕ) : Mesh :=
  { s.note F p with world := s.world.deliver F t draw p }

def bounce (p : NdpPacket) : Mesh :=
  { s with
    world := { s.world with net := s.world.net.erase (.ndp p) }
    bounced := { p with isHeader := true } ::ₘ s.bounced }

/-- A bounced packet is back at the source. -/
def giveBack (p : NdpPacket) (t : ℕ) : Mesh :=
  let (src, out) := s.world.src.receivePacket F (.ndp p)
  { s with
    world := { s.world with src := src, net := onWire out + s.world.net, now := t }
    bounced := s.bounced.erase p
    returned := s.returned + 1 }

def lose (p : Packet) : Mesh := { s with world := { s.world with net := s.world.net.erase p } }

end Mesh

def mesh (F : Flow) : System Mesh MeshLabel where
  init s := ∃ now packetDrainTime, s = .start F now packetDrainTime
  enabled
    | s, .deliver p t draw => (network F).enabled s.world (.deliver p t draw)
    | s, .trim p => (network F).enabled s.world (.trim p)
    | s, .bounce p => .ndp p ∈ s.world.net
    | s, .giveBack p t => p ∈ s.bounced ∧ s.world.Due t
    | s, .timer t draw => (network F).enabled s.world (.timer t draw)
    | s, .lose p => p ∈ s.world.net
    | s, .loseBounced p => p ∈ s.bounced
  next
    | s, .deliver p t draw => s.deliver F p t draw
    | s, .trim p => { s with world := s.world.trim p }
    | s, .bounce p => s.bounce p
    | s, .giveBack p t => s.giveBack F p t
    | s, .timer t draw => { s with world := s.world.timer t draw }
    | s, .lose p => s.lose p
    | s, .loseBounced p => { s with bounced := s.bounced.erase p }

instance (F : Flow) (s : Mesh) : (a : MeshLabel) → Decidable ((mesh F).enabled s a)
  | .deliver p t _ => inferInstanceAs (Decidable (p ∈ s.world.net ∧ s.world.Due t))
  | .trim p => inferInstanceAs (Decidable (.ndp p ∈ s.world.net ∧ p.isHeader = false))
  | .bounce p => inferInstanceAs (Decidable (.ndp p ∈ s.world.net))
  | .giveBack p t => inferInstanceAs (Decidable (p ∈ s.bounced ∧ s.world.Due t))
  | .timer t _ => inferInstanceAs (Decidable (t ∈ s.world.timers ∧ s.world.Due t))
  | .lose p => inferInstanceAs (Decidable (p ∈ s.world.net))
  | .loseBounced p => inferInstanceAs (Decidable (p ∈ s.bounced))

/-- A flow of the default size, sent in packets of 9000 bytes with a window of one. -/
def longFlow : Flow where
  id := 1
  mss := 9000
  mss_pos := by decide
  mss_lt := by decide
  flowSize := 2 ^ 63
  flowSize_le := by decide
  cwnd := 9000
  cwnd_lt := by decide
  singlePath := true

section Source

variable {F : Flow} {src : Source}

/-- What `processRTS` does before it sends. -/
def Source.noteRTS (F : Flow) (p : NdpPacket) (src : Source) : Source :=
  { src with
    firstWindowCount := src.firstWindowCount - 1
    rtxQueue := { p with isHeader := false } :: src.rtxQueue }.countFeedback F .bounce

/-- A bounced packet is queued and then sent again or not. -/
theorem receivePacket_bounced (F : Flow) (src : Source) (p : NdpPacket) :
    src.receivePacket F (.ndp p) = (src.noteRTS F p).sendPacket F 0 ∨
      src.receivePacket F (.ndp p) = (src.noteRTS F p, []) := by
  simp only [Source.receivePacket, Source.processRTS]
  split_ifs
  · exact .inl rfl
  · exact .inr rfl

theorem noteRTS_eq (F : Flow) (src : Source) (p : NdpPacket) :
    (src.noteRTS F p).lastPull = src.lastPull ∧
      (src.noteRTS F p).packetsSent = src.packetsSent ∧
      (src.noteRTS F p).highestSent = src.highestSent ∧
      (src.noteRTS F p).rtxQueue = { p with isHeader := false } :: src.rtxQueue ∧
      (src.noteRTS F p).flightSize = src.flightSize :=
  countFeedback_eq F _ .bounce

theorem sendPacket_length_le (F : Flow) (src : Source) (pacerNo : ℕ) :
    (src.sendPacket F pacerNo).2.length ≤ 1 := by
  rcases sendPacket_cases F pacerNo src with ⟨p, q, -, he⟩ | ⟨-, -, he⟩ | ⟨-, -, he⟩ <;>
    simp [he]

theorem pullLoop_length_le (pacerNo k : ℕ) : (src.pullLoop F pacerNo k).2.length ≤ k := by
  induction k generalizing src with
  | zero => exact le_rfl
  | succ k ih =>
    rw [Source.pullLoop]
    dsimp only
    rw [List.length_append, Nat.add_comm k 1]
    exact Nat.add_le_add (sendPacket_length_le F src pacerNo) ih

end Source

section Sink

variable {F : Flow} {l : List NdpPull} {pacer : Pacer}

/-- A header is answered by a NACK, a full packet by an ACK. -/
def NdpPacket.answer (p : NdpPacket) (r : Reply) : Packet := if p.isHeader then .nack r else .ack r

theorem credit_answer (p : NdpPacket) (r : Reply) :
    (p.answer r).credit = if r.pull then r.pullno else 0 := by
  cases hp : p.isHeader <;> simp [NdpPacket.answer, hp, Packet.credit]

/-- What an arrival brings about: one more pull, in the reply or in the queue. -/
structure Reaction (F : Flow) (p : NdpPacket) (n : ℕ) (l : List NdpPull) (a : Arrival)
    (r : Reply) : Prop where
  pullNo : a.sink.pullNo = n + 1
  reply : a.reply = p.answer r
  ackno : r.ackno = p.seqno
  credit : a.reply.credit ≤ n + 1
  only : ∃ l', FairPullQueue.Only F.id l' a.pacer.pullQueue ∧ ∀ x ∈ l', x ∈ l ∨ x.pullno = n + 1

theorem send_reaction (hq : FairPullQueue.Only F.id l pacer.pullQueue) (k : Sink) (now draw : ℕ)
    (p : NdpPacket) :
    ∃ r, Reaction F p k.pullNo l (k.send F now draw p.answer p.seqno p.pacerno pacer) r := by
  obtain ⟨hsink, r, l', hans⟩ := Sink.send_answers hq k now draw p.answer p.seqno p.pacerno
  refine ⟨r, by rw [hsink], hans.reply, hans.ackno, ?_, l', hans.only, ?_⟩
  · rw [hans.reply, credit_answer]
    rcases hans.pull with ⟨ht, hno, -⟩ | ⟨hf, -⟩
    · rw [if_pos ht, hno]
    · simp [hf]
  · rcases hans.pull with ⟨-, -, rfl⟩ | ⟨-, x, hx, rfl⟩
    · exact fun y hy => .inl hy
    · intro y hy
      rcases List.mem_cons.mp hy with rfl | hy
      · exact .inr hx
      · exact .inl hy

theorem receivePacket_reaction (hq : FairPullQueue.Only F.id l pacer.pullQueue) (k : Sink)
    (now draw : ℕ) (p : NdpPacket) :
    ∃ r, Reaction F p k.pullNo l (k.receivePacket F now draw p pacer) r := by
  rw [Sink.receivePacket]
  by_cases hp : p.isHeader
  · have hanswer : p.answer = .nack := funext fun r => if_pos hp
    have h := send_reaction hq k now draw p
    rw [hanswer] at h
    rw [if_pos hp]
    exact h
  · have hanswer : p.answer = .ack := funext fun r => if_neg hp
    obtain ⟨-, -, hnote⟩ := Sink.noteLast_eq F p k
    obtain ⟨hrecord, -⟩ := Sink.record_eq F.mss p.seqno (k.noteLast F p)
    obtain ⟨r, h⟩ := send_reaction hq ((k.noteLast F p).record F.mss p.seqno) now draw p
    rw [hanswer, hrecord, hnote] at h
    refine ⟨r, ?_⟩
    rw [if_neg hp]
    dsimp only
    split_ifs with hdone
    · obtain ⟨l', hl', -⟩ := h.only
      exact ⟨h.pullNo, h.reply, h.ackno, h.credit, [], hl'.flushFlow, by simp⟩
    · exact h

/-- The timer sends a pull from the queue, if there is one. -/
theorem timer_eq {s : World} (hq : FairPullQueue.Only F.id l s.pacer.pullQueue) (t draw : ℕ) :
    ∃ (out : List NdpPull) (l' : List NdpPull),
      (s.timer t draw).src = s.src ∧ (s.timer t draw).sink = s.sink ∧
      (s.timer t draw).net = ((out.map .pull : List Packet) : Multiset Packet) + s.net ∧
      FairPullQueue.Only F.id l' (s.timer t draw).pacer.pullQueue ∧
      (∀ y ∈ out, ∃ x ∈ l, y.pullno = x.pullno) ∧ ∀ x ∈ l', x ∈ l := by
  unfold World.timer Pacer.doNextEvent
  rcases List.eq_nil_or_concat' l with rfl | ⟨l', x, rfl⟩
  · have hnone : s.pacer.pullQueue.dequeue = none := if_pos hq.pullCount
    rw [hnone]
    exact ⟨[], [], rfl, rfl, rfl, hq, by simp, by simp⟩
  · obtain ⟨q, hdeq, honly⟩ := hq.dequeue
    rw [hdeq]
    refine ⟨[{ x with pacerno := s.pacer.pacerNo }], l', rfl, rfl, rfl, honly, ?_, ?_⟩
    · intro y hy
      obtain rfl := List.mem_singleton.mp hy
      exact ⟨x, by simp, rfl⟩
    · intro y hy
      exact List.mem_append_left _ hy

end Sink

end P4Survey.Ndp
