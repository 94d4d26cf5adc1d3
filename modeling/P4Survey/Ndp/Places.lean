import P4Survey.Ndp.Mesh

/-! # One place for each sequence number

Over a network without loss a sequence number that was sent is a data packet, a
header, a bounced header, a NACK or an ACK on its way, or it is queued to be sent
again, or it is acknowledged. The bytes in flight are those of the packets sent and
not acknowledged, modulo 2^32: the 32-bit counter goes below zero if 2^32 bytes or
more are unacknowledged.
-/

namespace P4Survey.Ndp
open Lib

/-- The sequence number a packet on its way stands for. -/
def Packet.seat : Packet → Option ℕ
  | .ndp p => some p.seqno
  | .ack r => some r.ackno
  | .nack r => some r.ackno
  | .pull _ => none

/-- The sequence numbers of all places. -/
def Mesh.places (s : Mesh) : Multiset ℕ :=
  s.world.net.filterMap Packet.seat + s.bounced.map NdpPacket.seqno +
    (s.world.src.rtxQueue.map NdpPacket.seqno : List ℕ) + (s.acked : Multiset ℕ)

/-- The sequence numbers of the first `n` packets. -/
def seqnos (F : Flow) (n : ℕ) : Multiset ℕ := (Multiset.range n).map fun j => j * F.mss + 1

/-- The sequence numbers sent are those on their way, those queued and the others, and
`acked` of them are acknowledged. -/
structure Seated (F : Flow) (src : Source) (net : Multiset Packet) (others : Multiset ℕ)
    (acked sent : ℕ) : Prop where
  highestSent : src.highestSent = sent * F.mss
  places : net.filterMap Packet.seat + (src.rtxQueue.map NdpPacket.seqno : List ℕ) + others =
    seqnos F sent
  flight : src.flightSize + .ofNat 32 (acked * F.mss) = .ofNat 32 (sent * F.mss)

namespace Seated

variable {F : Flow} {src : Source} {net : Multiset Packet} {others : Multiset ℕ} {acked sent : ℕ}

theorem seat_cons {p : Packet} {n : ℕ} (hp : p.seat = some n) (net : Multiset Packet) :
    (p ::ₘ net).filterMap Packet.seat = n ::ₘ net.filterMap Packet.seat :=
  Multiset.filterMap_cons_some Packet.seat p net hp

theorem sendPacket (h : Seated F src net others acked sent) (pacerNo : ℕ) :
    ∃ sent', Seated F (src.sendPacket F pacerNo).1 (onWire (src.sendPacket F pacerNo).2 + net)
      others acked sent' := by
  rcases sendPacket_cases F pacerNo src with ⟨p, q, hq, he⟩ | ⟨-, -, he⟩ | ⟨hq, hn, he⟩
  · rw [he, onWire_cons, onWire_nil, Multiset.cons_add, zero_add]
    refine ⟨sent, h.highestSent, ?_, h.flight⟩
    have hplaces := h.places
    rw [hq] at hplaces
    rw [seat_cons rfl, ← hplaces, List.map_cons, ← Multiset.cons_coe, Multiset.add_cons,
      Multiset.cons_add]
  · rw [he, onWire_nil, zero_add]
    exact ⟨sent, h⟩
  · rw [he, onWire_cons, onWire_nil, Multiset.cons_add, zero_add]
    refine ⟨sent + 1, ?_, ?_, ?_⟩
    · rw [Nat.succ_mul, ← h.highestSent]
    · rw [seat_cons rfl, Multiset.cons_add, Multiset.cons_add, h.places, seqnos, seqnos,
        Multiset.range_succ, Multiset.map_cons, ← h.highestSent]
    · dsimp only
      rw [Nat.succ_mul, BitVec.ofNat_add, ← h.flight, BitVec.add_assoc, BitVec.add_assoc,
        BitVec.add_comm (.ofNat 32 F.mss)]

theorem pullLoop (h : Seated F src net others acked sent) (pacerNo k : ℕ) :
    ∃ sent', Seated F (src.pullLoop F pacerNo k).1 (onWire (src.pullLoop F pacerNo k).2 + net)
      others acked sent' := by
  refine pullLoop_keeps (P := fun src net => ∃ sent, Seated F src net others acked sent) ?_ ?_
    ⟨sent, h⟩ k
  · rintro src net ⟨sent, h⟩
    exact h.sendPacket pacerNo
  · rintro src net n ⟨sent, h⟩
    exact ⟨sent, h.highestSent, h.places, h.flight⟩

theorem windowLoop (h : Seated F src net others acked sent) (k : ℕ) :
    ∃ sent', Seated F (src.windowLoop F k).1 (onWire (src.windowLoop F k).2 + net)
      others acked sent' := by
  refine windowLoop_keeps (P := fun src net => ∃ sent, Seated F src net others acked sent) ?_ ?_
    ⟨sent, h⟩ k
  · rintro src net - ⟨sent, h⟩
    exact h.sendPacket 0
  · rintro src net n ⟨sent, h⟩
    exact ⟨sent, h.highestSent, h.places, h.flight⟩

/-- The packets move from place to place while nothing is sent. -/
theorem move (h : Seated F src net others acked sent) {net' : Multiset Packet}
    {others' : Multiset ℕ}
    (hplaces : net'.filterMap Packet.seat + others' = net.filterMap Packet.seat + others) :
    Seated F src net' others' acked sent where
  highestSent := h.highestSent
  places := by
    rw [add_right_comm, hplaces, add_right_comm]
    exact h.places
  flight := h.flight

/-- A packet for the source is noted, before any pull. -/
theorem note {p : Packet} (h : Seated F src (p ::ₘ net) others acked sent)
    (hdata : p.isData = false) {src' : Source} (hhigh : src'.highestSent = src.highestSent)
    (hrtx : src'.rtxQueue = src.rtxQueue ++ p.requeued F)
    (hflight : src'.flightSize = src.flightSize - .ofNat 32 (p.acks.length * F.mss)) :
    Seated F src' net ((p.acks : Multiset ℕ) + others) (p.acks.length + acked) sent where
  highestSent := hhigh.trans h.highestSent
  places := by
    rw [← h.places, hrtx]
    cases p with
    | ndp p => cases hdata
    | ack r =>
      rw [seat_cons rfl, ← Multiset.singleton_add]
      simp only [Packet.requeued, Packet.acks, List.append_nil, Multiset.coe_singleton]
      abel
    | nack r =>
      rw [seat_cons rfl, ← Multiset.singleton_add]
      simp only [Packet.requeued, Packet.acks, List.map_append, List.map_cons, List.map_nil,
        ← Multiset.coe_add, Multiset.coe_singleton, Multiset.coe_nil]
      abel
    | pull r =>
      rw [Multiset.filterMap_cons_none _ _ rfl]
      simp only [Packet.requeued, Packet.acks, List.append_nil, Multiset.coe_nil, zero_add]
  flight := by
    rw [hflight, Nat.add_mul, BitVec.ofNat_add, ← BitVec.add_assoc, BitVec.sub_add_cancel]
    exact h.flight

end Seated

/-- Each sequence number is in one place and no ACK has taken too much from the bytes
in flight. -/
structure Single (F : Flow) (s : Mesh) : Prop where
  only : ∃ l, FairPullQueue.Only F.id l s.world.pacer.pullQueue
  seated : ∃ sent, Seated F s.world.src s.world.net (s.bounced.map NdpPacket.seqno + s.acked)
    s.acked.length sent
  underflow : s.underflow = false

/-- If a packet acknowledges a sequence number, fewer than 2^32 bytes are unacknowledged. -/
def Fits (F : Flow) (s : Mesh) : MeshLabel → Prop
  | .deliver p _ _ => p.acks ≠ [] → s.world.src.highestSent < s.acked.length * F.mss + 2 ^ 32
  | _ => True

namespace Single

variable {F : Flow} {s : Mesh}

theorem start (now packetDrainTime : ℕ) : Single F (.start F now packetDrainTime) := by
  have hseated : Seated F { Source.initial with
      highestSent := 0, lastAcked := 0, packetsSent := 0, pullWindow := 0, flightSize := 0#32
      firstWindowCount := 0 } 0 0 0 0 := by
    constructor <;> simp [Source.initial, seqnos]
  obtain ⟨sent, hloop⟩ := hseated.windowLoop F.cwnd
  rw [add_zero] at hloop
  exact ⟨⟨[], FairPullQueue.only_empty⟩, ⟨sent, hloop⟩, rfl⟩

theorem arrive (h : Single F s) {p : NdpPacket} (hp : .ndp p ∈ s.world.net) (t draw : ℕ) :
    Single F (s.deliver F (.ndp p) t draw) := by
  obtain ⟨l, hl⟩ := h.only
  obtain ⟨sent, hseated⟩ := h.seated
  obtain ⟨r, hr⟩ := receivePacket_reaction hl s.world.sink t draw p
  obtain ⟨l', hl', -⟩ := hr.only
  obtain ⟨net, hnet⟩ := Multiset.exists_cons_of_mem hp
  rw [hnet] at hseated
  refine ⟨⟨l', hl'⟩, ⟨sent, ?_⟩, ?_⟩
  · have hseat : (p.answer r).seat = some p.seqno := by
      rw [← hr.ackno, NdpPacket.answer]
      split_ifs <;> rfl
    change Seated F s.world.src
      ((s.world.sink.receivePacket F t draw p s.world.pacer).reply ::ₘ s.world.net.erase (.ndp p))
      _ _ sent
    rw [hr.reply, hnet, Multiset.erase_cons_head]
    apply hseated.move
    rw [Seated.seat_cons hseat, Seated.seat_cons rfl]
    rfl
  · change (s.underflow || decide (_ < 0 * F.mss)) = false
    rw [h.underflow, Nat.zero_mul]
    rfl

/-- An ACK on its way is for a packet that is not acknowledged yet. -/
theorem lt_of_mem {p : Packet} (hp : p ∈ s.world.net) (hacks : p.acks ≠ []) {sent : ℕ}
    (hseated : Seated F s.world.src s.world.net (s.bounced.map NdpPacket.seqno + s.acked)
      s.acked.length sent) : s.acked.length < sent := by
  obtain ⟨net, hnet⟩ := Multiset.exists_cons_of_mem hp
  have hcard := congrArg Multiset.card hseated.places
  cases p with
  | ack r =>
    rw [hnet, Seated.seat_cons rfl] at hcard
    simp only [seqnos, Multiset.card_add, Multiset.card_cons, Multiset.coe_card,
      Multiset.card_map, Multiset.card_range] at hcard
    omega
  | _ => exact absurd rfl hacks

/-- The bytes in flight are those unacknowledged if these fit the counter. -/
theorem mss_le (h : Single F s) {p : Packet} (hp : p ∈ s.world.net)
    (hfits : p.acks ≠ [] → s.world.src.highestSent < s.acked.length * F.mss + 2 ^ 32) :
    p.acks.length * F.mss ≤ s.world.src.flightSize.toNat := by
  by_cases hacks : p.acks = []
  · rw [hacks, List.length_nil, Nat.zero_mul]
    exact Nat.zero_le _
  · have hone : p.acks.length = 1 := by
      cases p with
      | ack r => rfl
      | _ => exact absurd rfl hacks
    obtain ⟨sent, hseated⟩ := h.seated
    have hlt := lt_of_mem hp hacks hseated
    have hbytes := hfits hacks
    rw [hseated.highestSent] at hbytes
    have hmss : F.mss ≤ (sent - s.acked.length) * F.mss :=
      Nat.le_mul_of_pos_left _ (by omega)
    have hsub : (sent - s.acked.length) * F.mss + s.acked.length * F.mss = sent * F.mss := by
      rw [← Nat.add_mul, Nat.sub_add_cancel hlt.le]
    have hflight := hseated.flight
    rw [← hsub, BitVec.ofNat_add] at hflight
    rw [(BitVec.add_left_inj _).mp hflight, BitVec.toNat_ofNat, Nat.mod_eq_of_lt (by omega), hone,
      Nat.one_mul]
    exact hmss

theorem feedback (h : Single F s) {p : Packet} (hp : p ∈ s.world.net) (hdata : p.isData = false)
    (hfits : p.acks ≠ [] → s.world.src.highestSent < s.acked.length * F.mss + 2 ^ 32) (t : ℕ) :
    Single F { s.note F p with world := s.world.feedback F p t } := by
  obtain ⟨sent, hseated⟩ := h.seated
  obtain ⟨net, hnet⟩ := Multiset.exists_cons_of_mem hp
  obtain ⟨src, pacerNo, hrecv, -, -, hhigh, hrtx, hflight⟩ := receivePacket_eq F s.world.src hdata
  rw [hnet] at hseated
  have hnote := hseated.note hdata hhigh hrtx hflight
  obtain ⟨sent', hloop⟩ := hnote.pullLoop pacerNo (p.credit - s.world.src.lastPull)
  have hmss := h.mss_le hp hfits
  refine ⟨h.only, ⟨sent', ?_⟩, ?_⟩
  · unfold World.feedback
    rw [hrecv, hnet, Multiset.erase_cons_head]
    change Seated F _ _ (s.bounced.map NdpPacket.seqno + ((p.acks ++ s.acked : List ℕ) : Multiset ℕ))
      (p.acks ++ s.acked).length sent'
    rw [← Multiset.coe_add, add_left_comm, List.length_append]
    exact hloop
  · change (s.underflow || decide (_ < _)) = false
    rw [h.underflow, decide_eq_false (Nat.not_lt.mpr hmss)]
    rfl

theorem deliver (h : Single F s) {p : Packet} (hp : p ∈ s.world.net) (t draw : ℕ)
    (hfits : Fits F s (.deliver p t draw)) : Single F (s.deliver F p t draw) := by
  cases p with
  | ndp p => exact h.arrive hp t draw
  | ack r => exact h.feedback hp rfl hfits t
  | nack r => exact h.feedback hp rfl hfits t
  | pull r => exact h.feedback hp rfl hfits t

theorem trim (h : Single F s) {p : NdpPacket} (hp : .ndp p ∈ s.world.net) :
    Single F { s with world := s.world.trim p } := by
  obtain ⟨sent, hseated⟩ := h.seated
  obtain ⟨net, hnet⟩ := Multiset.exists_cons_of_mem hp
  rw [hnet] at hseated
  refine ⟨h.only, ⟨sent, ?_⟩, h.underflow⟩
  dsimp only [World.trim]
  rw [hnet, Multiset.erase_cons_head]
  apply hseated.move
  rw [Seated.seat_cons rfl, Seated.seat_cons rfl]

theorem bounce (h : Single F s) {p : NdpPacket} (hp : .ndp p ∈ s.world.net) :
    Single F (s.bounce p) := by
  obtain ⟨sent, hseated⟩ := h.seated
  obtain ⟨net, hnet⟩ := Multiset.exists_cons_of_mem hp
  rw [hnet] at hseated
  refine ⟨h.only, ⟨sent, ?_⟩, h.underflow⟩
  dsimp only [Mesh.bounce]
  rw [hnet, Multiset.erase_cons_head]
  apply hseated.move
  rw [Seated.seat_cons rfl, Multiset.map_cons, Multiset.cons_add, Multiset.add_cons,
    Multiset.cons_add]

theorem giveBack (h : Single F s) {p : NdpPacket} (hp : p ∈ s.bounced) (t : ℕ) :
    Single F (s.giveBack F p t) := by
  obtain ⟨sent, hseated⟩ := h.seated
  obtain ⟨bounced, hbounced⟩ := Multiset.exists_cons_of_mem hp
  obtain ⟨-, -, hhigh, hrtx, hflight⟩ := noteRTS_eq F s.world.src p
  have hnote : Seated F (s.world.src.noteRTS F p) s.world.net
      (bounced.map NdpPacket.seqno + s.acked) s.acked.length sent := by
    refine ⟨hhigh.trans hseated.highestSent, ?_, by rw [hflight]; exact hseated.flight⟩
    rw [← hseated.places, hrtx, hbounced, List.map_cons, ← Multiset.cons_coe, Multiset.map_cons]
    simp only [Multiset.add_cons, Multiset.cons_add]
  have hstep : ∃ sent', Seated F (s.world.src.receivePacket F (.ndp p)).1
      (onWire (s.world.src.receivePacket F (.ndp p)).2 + s.world.net)
      (bounced.map NdpPacket.seqno + s.acked) s.acked.length sent' := by
    rcases receivePacket_bounced F s.world.src p with he | he
    · rw [he]
      exact hnote.sendPacket 0
    · rw [he, onWire_nil, zero_add]
      exact ⟨sent, hnote⟩
  refine ⟨h.only, ?_, h.underflow⟩
  dsimp only [Mesh.giveBack]
  rw [hbounced, Multiset.erase_cons_head]
  exact hstep

theorem timer (h : Single F s) (t draw : ℕ) :
    Single F { s with world := s.world.timer t draw } := by
  obtain ⟨l, hl⟩ := h.only
  obtain ⟨sent, hseated⟩ := h.seated
  obtain ⟨out, l', hsrc, -, hnet, hl', -, -⟩ := timer_eq hl t draw
  refine ⟨⟨l', hl'⟩, ⟨sent, ?_⟩, h.underflow⟩
  dsimp only
  rw [hsrc, hnet]
  apply hseated.move
  have hpulls : ((out.map .pull : List Packet) : Multiset Packet).filterMap Packet.seat = 0 := by
    rw [Multiset.filterMap_coe, List.filterMap_map]
    simp [Function.comp_def, Packet.seat]
  rw [Multiset.filterMap_add, hpulls, zero_add]

end Single

/-- The mesh without loss. -/
def lossless (F : Flow) : System Mesh MeshLabel := (mesh F).restrict fun _ a => ¬a.IsLoss

theorem single_of_reachable {F : Flow} {s : Mesh}
    (h : ((lossless F).restrict (Fits F)).Reachable s) : Single F s := by
  apply h.invariant
  · rintro s ⟨now, packetDrainTime, rfl⟩
    exact Single.start now packetDrainTime
  · rintro s a - hs ⟨⟨ha, hloss⟩, hfits⟩
    cases a with
    | deliver p t draw => exact hs.deliver ha.1 t draw hfits
    | trim p => exact hs.trim ha.1
    | bounce p => exact hs.bounce ha
    | giveBack p t => exact hs.giveBack ha.1 t
    | timer t draw => exact hs.timer t draw
    | lose p => exact absurd trivial hloss
    | loseBounced p => exact absurd trivial hloss

/-- As long as every ACK finds fewer than 2^32 bytes unacknowledged, each sequence number
sent is in one place, none is acknowledged twice, and the bytes in flight never go below
zero. -/
theorem one_place {F : Flow} {s : Mesh} (h : ((lossless F).restrict (Fits F)).Reachable s) :
    s.places = seqnos F (s.world.src.highestSent / F.mss) ∧ s.acked.Nodup ∧
      s.underflow = false := by
  have hinv := single_of_reachable h
  obtain ⟨sent, hseated⟩ := hinv.seated
  have hsent : s.world.src.highestSent / F.mss = sent := by
    rw [hseated.highestSent, Nat.mul_div_cancel _ F.mss_pos]
  have hplaces : s.places = seqnos F sent := by
    rw [← hseated.places, Mesh.places]
    abel
  have hnodup : (seqnos F sent).Nodup :=
    (Multiset.nodup_range sent).map fun i j hij => (Sink.seqno_inj F.mss_pos).mp hij
  refine ⟨by rw [hsent, hplaces], ?_, hinv.underflow⟩
  rw [← hplaces] at hnodup
  exact Multiset.coe_nodup.mp (Multiset.nodup_of_le (Multiset.le_add_left _ _) hnodup)

/-- The first packet arrives and is acknowledged. -/
def firstAcked : List MeshLabel :=
  [.deliver (.ndp ⟨1, 0, false, false⟩) 0 0, .deliver (.ack ⟨1, 9000, 0, 0, false⟩) 1 0]

theorem one_place_acked :
    ∃ s, ((lossless longFlow).restrict (Fits longFlow)).Reachable s ∧ s.acked = [1] ∧
      s.places = seqnos longFlow (s.world.src.highestSent / longFlow.mss) := by
  have hinit : ((lossless longFlow).restrict (Fits longFlow)).Reachable
      (.start longFlow 0 7200000) := .init ⟨_, _, rfl⟩
  have hs := hinit.run (l := firstAcked)
    ⟨⟨⟨by decide, id⟩, fun h => absurd rfl h⟩, ⟨⟨by decide, id⟩, fun _ => by decide⟩, trivial⟩
  exact ⟨_, hs, by decide, (one_place hs).1⟩

section Withheld

variable {F : Flow} {s : World} (t draw : ℕ)

/-- A packet that arrives within a drain time is acknowledged without a pull. -/
theorem arrive_waits {p : NdpPacket} (hheader : p.isHeader = false) (hlast : p.lastPacket = false)
    (hseqno : s.sink.lastPacketSeqno = 0) (hq : FairPullQueue.Only F.id [] s.pacer.pullQueue)
    (hdue : t - s.pacer.lastPull < s.pacer.packetDrainTime) :
    ∃ sink q r x, s.arrive F p t draw = ⟨s.src, sink, { s.pacer with pullQueue := q },
        .ack r ::ₘ s.net.erase (.ndp p), t,
        {t + (s.pacer.packetDrainTime - (t - s.pacer.lastPull))} + s.timers⟩ ∧
      sink.pullNo = s.sink.pullNo + 1 ∧ sink.lastPacketSeqno = 0 ∧
      FairPullQueue.Only F.id [x] q ∧ x.pullno = s.sink.pullNo + 1 := by
  have hempty : s.pacer.pullQueue.IsEmpty := hq.isEmpty_iff.mpr rfl
  have hdrain : s.pacer.drainTime draw = s.pacer.packetDrainTime := if_pos (by omega)
  have hnot : ¬s.pacer.Due t draw := by
    rintro ⟨-, hle⟩
    omega
  obtain ⟨-, -, hnote⟩ := Sink.noteLast_eq F p s.sink
  have hnoted : (s.sink.noteLast F p).lastPacketSeqno = 0 := by
    rw [Sink.noteLast, hlast]
    exact hseqno
  obtain ⟨hpull, hrecord⟩ := Sink.record_eq F.mss p.seqno (s.sink.noteLast F p)
  have hsink := hrecord.trans hnoted
  simp only [World.arrive, Sink.receivePacket, hheader, Sink.sendAck, Sink.send, Pacer.sendPacket,
    if_neg hnot, if_pos hempty, if_neg (s.pacer.not_increases _), hsink, hdrain, Nat.lt_irrefl,
    false_and, if_false, Bool.false_eq_true]
  refine ⟨_, _, _, _, rfl, ?_, rfl, hq.enqueue _, ?_⟩
  · dsimp only
    rw [hpull, hnote]
  · dsimp only
    rw [hpull, hnote]

/-- The timer sends the only pull in the queue. -/
theorem timer_sends {x : NdpPull} (hq : FairPullQueue.Only F.id [x] s.pacer.pullQueue) :
    ∃ q, s.timer t draw = ⟨s.src, s.sink,
        { s.pacer with pullQueue := q, pacerNo := s.pacer.pacerNo + 1, lastPull := t },
        .pull { x with pacerno := s.pacer.pacerNo } ::ₘ s.net, t, s.timers.erase t⟩ ∧
      FairPullQueue.Only F.id [] q := by
  obtain ⟨q, hdeq, honly⟩ := FairPullQueue.Only.dequeue (l := []) hq
  refine ⟨q, ?_, honly⟩
  simp only [World.timer, Pacer.doNextEvent, hdeq, if_pos (honly.isEmpty_iff.mpr rfl)]
  simp

/-- The next pull makes the source send new data. -/
theorem pull_sends {y : NdpPull} (hpullno : y.pullno = s.src.lastPull + 1)
    (hrtx : s.src.rtxQueue = []) (hflow : s.src.highestSent + F.mss < F.flowSize) :
    ∃ src p, s.feedback F (.pull y) t = ⟨src, s.sink, s.pacer, .ndp p ::ₘ s.net.erase (.pull y), t,
        s.timers⟩ ∧
      p.isHeader = false ∧ p.lastPacket = false ∧ src.rtxQueue = [] ∧
      src.highestSent = s.src.highestSent + F.mss ∧
      src.flightSize = s.src.flightSize + .ofNat 32 F.mss ∧ src.lastPull = s.src.lastPull + 1 := by
  obtain ⟨src, pacerNo, hrecv, hpull, -, hhigh, hrtx', hflight⟩ :=
    receivePacket_eq F s.src (p := .pull y) rfl
  have hcredit : (Packet.pull y).credit - s.src.lastPull = 1 := by
    change y.pullno - _ = 1
    omega
  have hq : src.rtxQueue = [] := by
    rw [hrtx', hrtx]
    rfl
  have hflight' : src.flightSize = s.src.flightSize := by
    rw [hflight]
    simp [Packet.acks]
  have hnew : ¬src.NoNewData F := by
    rintro ⟨-, hle⟩
    omega
  have hend : ¬F.flowSize ≤ s.src.highestSent + F.mss := by omega
  rw [hcredit] at hrecv
  simp only [Source.pullLoop, Source.sendPacket, hq, if_neg hnew, List.append_nil] at hrecv
  simp only [World.feedback, hrecv]
  refine ⟨_, _, rfl, rfl, ?_, rfl, ?_, ?_, ?_⟩
  · simp [hhigh, hend]
  · simp [hhigh]
  · simp [hflight']
  · simp [hpull]

/-- `n` packets were sent, the last of them is on its way, and the ACKs of the others are
held up. -/
structure Round (n : ℕ) (s : Mesh) : Prop where
  reachable : (lossless longFlow).Reachable s
  rtxQueue : s.world.src.rtxQueue = []
  highestSent : s.world.src.highestSent = n * 9000
  flightSize : s.world.src.flightSize = .ofNat 32 (n * 9000)
  lastPull : s.world.src.lastPull + 1 = n
  pullNo : s.world.sink.pullNo + 1 = n
  lastPacketSeqno : s.world.sink.lastPacketSeqno = 0
  only : FairPullQueue.Only 1 [] s.world.pacer.pullQueue
  drainTime : s.world.pacer.packetDrainTime = 7200000
  now : s.world.pacer.lastPull = s.world.now
  timers : s.world.timers = 0
  data : ∃ p, .ndp p ∈ s.world.net ∧ p.isHeader = false ∧ p.lastPacket = false
  ack : 1 < n → ∃ r, .ack r ∈ s.world.net

theorem round_start : Round 1 (.start longFlow 0 7200000) where
  reachable := .init ⟨_, _, rfl⟩
  rtxQueue := rfl
  highestSent := rfl
  flightSize := rfl
  lastPull := rfl
  pullNo := rfl
  lastPacketSeqno := rfl
  only := FairPullQueue.only_empty
  drainTime := rfl
  now := rfl
  timers := rfl
  data := ⟨⟨1, 0, false, false⟩, by decide, rfl, rfl⟩
  ack := fun h => absurd h (Nat.lt_irrefl 1)

theorem reachable_deliver {s : Mesh} (h : (lossless F).Reachable s) {p : Packet}
    (hp : p ∈ s.world.net) {t : ℕ} (hdue : s.world.Due t) :
    ∃ s', (lossless F).Reachable s' ∧ s'.world = s.world.deliver F t 0 p := by
  have henabled : (lossless F).enabled s (.deliver p t 0) := ⟨⟨hp, hdue⟩, id⟩
  exact ⟨_, h.step henabled, rfl⟩

theorem reachable_timer {s : Mesh} (h : (lossless F).Reachable s) {t : ℕ}
    (ht : t ∈ s.world.timers) (hdue : s.world.Due t) :
    ∃ s', (lossless F).Reachable s' ∧ s'.world = s.world.timer t 0 := by
  have henabled : (lossless F).enabled s (.timer t 0) := ⟨⟨ht, hdue⟩, id⟩
  exact ⟨_, h.step henabled, rfl⟩

/-- The last packet arrives, its pull waits for the timer and brings out the next packet. -/
theorem Round.next {n : ℕ} {s : Mesh} (h : Round n s) (hn : (n + 1) * 9000 < 2 ^ 63) :
    ∃ s', Round (n + 1) s' := by
  obtain ⟨p, hp, hheader, hlast⟩ := h.data
  obtain ⟨sink, q, r, x, harrive, hpullNo, hseqno, hq, hx⟩ := arrive_waits (F := longFlow)
    s.world.now 0 hheader hlast h.lastPacketSeqno h.only (by rw [h.now, h.drainTime]; omega)
  rw [h.now, h.drainTime, h.timers, Nat.sub_self, Nat.sub_zero, add_zero] at harrive
  obtain ⟨s1, hr1, hw1⟩ := reachable_deliver h.reachable hp (t := s.world.now)
    ⟨le_rfl, by simp [h.timers]⟩
  replace hw1 := hw1.trans harrive
  obtain ⟨s2, hr2, hw2⟩ := reachable_timer hr1 (t := s.world.now + 7200000)
    (by rw [hw1]; exact Multiset.mem_singleton_self _)
    (by rw [hw1]; exact ⟨Nat.le_add_right _ _, fun t ht => (Multiset.mem_singleton.mp ht).ge⟩)
  obtain ⟨q', htimer, hq'⟩ := timer_sends (F := longFlow) (s := s1.world)
    (s.world.now + 7200000) 0 (by rw [hw1]; exact hq)
  replace hw2 := hw2.trans htimer
  rw [hw1] at hw2
  obtain ⟨s3, hr3, hw3⟩ := reachable_deliver hr2 (t := s.world.now + 7200000)
    (by rw [hw2]; exact Multiset.mem_cons_self _ _)
    (by rw [hw2]; exact ⟨le_rfl, by simp⟩)
  obtain ⟨src, p', hpull, hheader', hlast', hrtx, hhigh, hflight, hlastPull⟩ :=
    pull_sends (F := longFlow) (s := s2.world) (s.world.now + 7200000)
    (y := { x with pacerno := s.world.pacer.pacerNo })
    (by rw [hw2]; dsimp only; have := h.lastPull; have := h.pullNo; omega)
    (by rw [hw2]; exact h.rtxQueue)
    (by rw [hw2]; change s.world.src.highestSent + 9000 < 2 ^ 63; rw [h.highestSent]; omega)
  replace hw3 := hw3.trans hpull
  rw [hw2] at hw3 hhigh hflight hlastPull
  dsimp only at hw3 hhigh hflight hlastPull
  rw [Multiset.erase_cons_head] at hw3
  have hpulls := h.pullNo
  have hlasts := h.lastPull
  refine ⟨s3, ?_⟩
  constructor
  · exact hr3
  all_goals rw [hw3]
  · exact hrtx
  · change src.highestSent = (n + 1) * 9000
    rw [hhigh, h.highestSent, Nat.succ_mul]
    rfl
  · change src.flightSize = .ofNat 32 ((n + 1) * 9000)
    rw [hflight, h.flightSize, Nat.succ_mul, BitVec.ofNat_add]
    rfl
  · dsimp only
    omega
  · dsimp only
    omega
  · exact hseqno
  · exact hq'
  · exact h.drainTime
  · simp
  · exact ⟨p', Multiset.mem_cons_self _ _, hheader', hlast'⟩
  · exact fun _ => ⟨r, Multiset.mem_cons_of_mem (Multiset.mem_cons_self _ _)⟩

theorem exists_round {n : ℕ} (hn : (n + 1) * 9000 < 2 ^ 63) : ∃ s, Round (n + 1) s := by
  induction n with
  | zero => exact ⟨_, round_start⟩
  | succ n ih =>
    have hle : (n + 1) * 9000 ≤ (n + 1 + 1) * 9000 := Nat.mul_le_mul_right _ (Nat.le_succ _)
    obtain ⟨s, hs⟩ := ih (hle.trans_lt hn)
    exact hs.next hn

end Withheld

/-- All ACKs of a long flow with a window of one packet are held up until 477219 packets
have been sent. Then the counter has wrapped to 3704, less than the packet that the first
ACK takes from it. -/
theorem flight_below_zero :
    ∃ s, (lossless longFlow).Reachable s ∧ s.underflow = true := by
  obtain ⟨s, hs⟩ := exists_round (n := 477218) (by norm_num)
  obtain ⟨r, hr⟩ := hs.ack (by norm_num)
  have henabled : (lossless longFlow).enabled s (.deliver (.ack r) s.world.now 0) :=
    ⟨⟨hr, le_rfl, by simp [hs.timers]⟩, id⟩
  refine ⟨_, hs.reachable.step henabled, ?_⟩
  change (s.underflow || decide (s.world.src.flightSize.toNat < 1 * 9000)) = true
  rw [hs.flightSize]
  exact Bool.or_true _

end P4Survey.Ndp
