import P4Survey.Ndp.Tokens

/-! # No packet is stranded

Pulls are cumulative and a pull that finds nothing to send is used up. As long
as the pulls used are fewer than the packets sent there is a pull to come. They
become as many only with a pull that carries the number of packets sent and finds
nothing to send; if no NACK is on its way then, the sink has the whole flow.
-/

namespace P4Survey.Ndp
open Lib

/-- A pull for the last packet sent reaches the source before a NACK: the source has
nothing to send yet and uses the pull up. -/
def Overtakes (F : Flow) (s : World) (p : Packet) : Prop :=
  p.isNack = false ∧ p.credit = s.src.packetsSent ∧ s.src.rtxQueue = [] ∧
    F.flowSize ≤ s.src.highestSent ∧ ∃ q ∈ s.net, q.isNack = true

instance (F : Flow) (s : World) (p : Packet) : Decidable (Overtakes F s p) :=
  have : Decidable (∃ q ∈ s.net, q.isNack = true) := Multiset.decidableExistsMultiset
  inferInstanceAs (Decidable (_ ∧ _ ∧ _ ∧ _ ∧ ∃ q ∈ s.net, q.isNack = true))

def NotOvertaken (F : Flow) (s : World) : Label → Prop
  | .deliver p _ _ => ¬ Overtakes F s p
  | _ => True

instance (F : Flow) (s : World) : (a : Label) → Decidable (NotOvertaken F s a)
  | .deliver p _ _ => inferInstanceAs (Decidable (¬ Overtakes F s p))
  | .trim _ => isTrue trivial
  | .timer _ _ => isTrue trivial

/-- Before a flow nothing is sent and nothing has arrived. -/
theorem Books.start {F : Flow} {src : Source} (hhigh : src.highestSent = 0)
    (hrtx : src.rtxQueue = []) (hsent : src.packetsSent = 0) : Books F src 0 .initial 0 := by
  have hgot (j : ℕ) : ¬ Sink.initial.Got F.mss j := by
    have hpos := Nat.mul_pos j.succ_pos F.mss_pos
    rintro (h | h)
    · exact absurd h (Nat.not_le.mpr hpos)
    · exact absurd h List.not_mem_nil
  have htokens : tokens src 0 = 0 := by
    rw [tokens, hrtx]
    rfl
  refine ⟨⟨?_, ?_, ?_, ?_, ?_, fun j h => absurd h (hgot j)⟩, ?_, ?_, ?_⟩
  · rw [hhigh, Nat.zero_mul]
  · exact fun j hj => absurd hj (Nat.not_lt_zero j)
  · intro x hx
    rw [htokens] at hx
    exact absurd hx (Multiset.notMem_zero _)
  · rw [htokens]
    exact Multiset.nodup_zero
  · exact fun j hj => absurd hj (Nat.not_lt_zero j)
  · exact fun p hp => absurd hp (Multiset.notMem_zero _)
  · intro p hp
    rw [hrtx] at hp
    exact absurd hp List.not_mem_nil
  · rw [hsent]
    rfl

/-- A packet that carries no data is put on its way. -/
theorem Books.cons {F : Flow} {src : Source} {net : Multiset Packet} {sink : Sink} {sent : ℕ}
    (h : Books F src net sink sent) {p : Packet} (htoken : p.token = none)
    (hdata : p.isData = false) : Books F src (p ::ₘ net) sink sent := by
  refine ⟨?_, ?_, h.lastRtx, ?_⟩
  · rw [tokens_of_token_eq_none _ htoken]
    exact h.placed
  · intro q hq
    rcases Multiset.mem_cons.mp hq with rfl | hq
    · cases hdata
    · exact h.lastNet q hq
  · rw [dataCount_of_not hdata]
    exact h.balance

/-- What holds throughout a run, with the packets sent and the pulls queued. -/
structure Inv (F : Flow) (s : World) (sent : ℕ) (l : List NdpPull) : Prop where
  books : Books F s.src s.net s.sink sent
  ordered : ∃ n, s.sink.Ordered F.mss n
  last : s.sink.lastPacketSeqno = 0 ∨ F.flowSize ≤ s.sink.lastPacketSeqno
  only : FairPullQueue.Only F.id l s.pacer.pullQueue
  credit : ∀ p ∈ s.net, p.credit ≤ s.sink.pullNo
  queued : ∀ x ∈ l, x.pullno ≤ s.sink.pullNo
  lastPull : s.src.lastPull ≤ s.sink.pullNo
  pending : F.flowSize ≤ s.sink.cumulativeAck ∨ s.sink.pullNo = s.src.lastPull ∨
    (∃ p ∈ s.net, p.credit = s.sink.pullNo) ∨ ∃ x ∈ l, x.pullno = s.sink.pullNo
  spent : s.src.lastPull = s.src.packetsSent →
    (∀ p ∈ s.net, p.isNack = false) ∧ s.src.rtxQueue = [] ∧ F.flowSize ≤ s.src.highestSent
  empty : F.flowSize = 0 → s.src.lastPull = s.src.packetsSent

namespace Inv

variable {F : Flow} {s : World} {sent : ℕ} {l : List NdpPull}

theorem start (hwindow : F.cwnd ≠ 0 ∨ F.flowSize = 0) (now packetDrainTime : ℕ) :
    ∃ sent, Inv F (.start F now packetDrainTime) sent [] := by
  set src : Source := { Source.initial with
    highestSent := 0, lastAcked := 0, packetsSent := 0, pullWindow := 0, flightSize := 0#32
    firstWindowCount := 0 }
  have hfresh : Fresh F src := ⟨rfl, dvd_zero _, rfl⟩
  have hbooks : Books F src 0 .initial 0 := .start rfl rfl rfl
  obtain ⟨sent, hloop⟩ := hbooks.windowLoop F.cwnd
  rw [add_zero] at hloop
  have hpull : (src.windowLoop F F.cwnd).1.lastPull = 0 := startflow_lastPull F
  have hsent : (src.windowLoop F F.cwnd).1.packetsSent = (src.windowLoop F F.cwnd).2.length :=
    startflow_packetsSent F
  have hempty (hflow : F.flowSize = 0) : (src.windowLoop F F.cwnd).2 = [] := by
    cases F.cwnd with
    | zero => rfl
    | succ k =>
      rw [Source.windowLoop, if_neg (by omega)]
  have hcredit (p : Packet) (hp : p ∈ onWire (src.windowLoop F F.cwnd).2) :
      p.credit = 0 ∧ p.isNack = false := by
    obtain ⟨q, -, rfl⟩ := mem_onWire.mp hp
    exact ⟨rfl, rfl⟩
  refine ⟨sent, hloop, ⟨0, ?_⟩, .inl rfl, FairPullQueue.only_empty, ?_, ?_, ?_, ?_, ?_, ?_⟩
  · exact ⟨(Nat.zero_mul _).symm, .nil, by simp [World.start, Sink.initial]⟩
  · exact fun p hp => Nat.le_of_eq (hcredit p hp).1
  · exact fun x hx => absurd hx List.not_mem_nil
  · exact Nat.le_of_eq hpull
  · exact .inr (.inl hpull.symm)
  · intro he
    have hout : (src.windowLoop F F.cwnd).2 = [] :=
      List.length_eq_zero_iff.mp ((hsent.symm.trans he.symm).trans hpull)
    refine ⟨fun p hp => (hcredit p hp).2, (hfresh.windowLoop F.cwnd).1.rtxQueue, ?_⟩
    by_contra hflow
    have hpos : 0 < F.flowSize := by omega
    have hcwnd : F.cwnd ≠ 0 := hwindow.resolve_right (Nat.ne_of_gt hpos)
    exact windowLoop_ne_nil hfresh hcwnd (Nat.pos_of_ne_zero hcwnd) hpos hout
  · intro hflow
    change (src.windowLoop F F.cwnd).1.lastPull = (src.windowLoop F F.cwnd).1.packetsSent
    rw [hpull, hsent, hempty hflow]
    rfl

/-- Data on its way has not been pulled for yet. -/
theorem lastPull_lt (h : Inv F s sent l) {p : NdpPacket} {net : Multiset Packet}
    (hnet : s.net = .ndp p ::ₘ net) : s.src.lastPull < s.src.packetsSent := by
  have hbalance := h.books.balance
  have hle := h.lastPull
  rw [hnet, dataCount_ndp] at hbalance
  omega

/-- The sink has taken note of an arrival and answers it. -/
theorem answer (h : Inv F s sent l) {p : NdpPacket} {net : Multiset Packet}
    (hnet : s.net = .ndp p ::ₘ net) {sink : Sink} {pacer : Pacer} {kind : Reply → Packet}
    {r : Reply} {l' : List NdpPull} {reply : Packet} {ackno t : ℕ} {timers : Multiset ℕ}
    (hpull : sink.pullNo = s.sink.pullNo + 1) (hbooks : Books F s.src (reply ::ₘ net) sink sent)
    (hordered : ∃ n, sink.Ordered F.mss n)
    (hlast : sink.lastPacketSeqno = 0 ∨ F.flowSize ≤ sink.lastPacketSeqno)
    (hans : Sink.Answers F l kind ackno (s.sink.pullNo + 1) pacer r l' reply)
    (hcredit : (kind r).credit = if r.pull then r.pullno else 0) :
    Inv F ⟨s.src, sink, pacer, reply ::ₘ net, t, timers⟩ sent l' := by
  have hlt := h.lastPull_lt hnet
  have hle := h.lastPull
  obtain ⟨honly, rfl, -, hcase⟩ := hans
  have hspent : s.src.lastPull ≠ s.src.packetsSent := Nat.ne_of_lt hlt
  refine ⟨hbooks, hordered, hlast, honly, ?_, ?_, ?_, ?_, fun he => absurd he hspent,
    fun hflow => absurd (h.empty hflow) hspent⟩
  · intro q hq
    dsimp only at hq ⊢
    rcases Multiset.mem_cons.mp hq with rfl | hq
    · rw [hcredit, hpull]
      rcases hcase with ⟨ht, hno, -⟩ | ⟨hf, -⟩
      · rw [ht, if_pos rfl, hno]
      · rw [hf]
        exact Nat.zero_le _
    · have hq' := h.credit q (hnet ▸ Multiset.mem_cons_of_mem hq)
      omega
  · intro x hx
    dsimp only
    rw [hpull]
    rcases hcase with ⟨-, -, rfl⟩ | ⟨-, y, hy, rfl⟩
    · exact Nat.le_succ_of_le (h.queued x hx)
    · rcases List.mem_cons.mp hx with rfl | hx
      · exact Nat.le_of_eq hy
      · exact Nat.le_succ_of_le (h.queued x hx)
  · dsimp only
    omega
  · dsimp only
    rw [hpull]
    rcases hcase with ⟨ht, hno, -⟩ | ⟨-, x, hx, rfl⟩
    · refine .inr (.inr (.inl ⟨kind r, Multiset.mem_cons_self _ _, ?_⟩))
      rw [hcredit, ht, if_pos rfl, hno]
    · exact .inr (.inr (.inr ⟨x, List.mem_cons_self, hx⟩))

theorem release (h : Inv F s sent l) (hdone : F.flowSize ≤ s.sink.cumulativeAck) :
    Inv F { s with pacer := s.pacer.releasePulls F.id } sent [] :=
  ⟨h.books, h.ordered, h.last, h.only.flushFlow, h.credit,
    fun _ hx => absurd hx List.not_mem_nil, h.lastPull, .inl hdone, h.spent, h.empty⟩

theorem arrive_header (h : Inv F s sent l) {p : NdpPacket} (hp : .ndp p ∈ s.net)
    (hheader : p.isHeader = true) (t draw : ℕ) :
    ∃ l', Inv F (s.arrive F p t draw) sent l' := by
  obtain ⟨net, hnet⟩ := Multiset.exists_cons_of_mem hp
  obtain ⟨hsink, r, l', hans⟩ := Sink.send_answers h.only s.sink t draw .nack p.seqno p.pacerno
  refine ⟨l', ?_⟩
  have hrecv : s.sink.receivePacket F t draw p s.pacer =
      s.sink.send F t draw .nack p.seqno p.pacerno s.pacer := by
    rw [Sink.receivePacket, if_pos hheader]
    rfl
  unfold World.arrive
  rw [hrecv]
  dsimp only
  rw [hnet, Multiset.erase_cons_head]
  have hbooks := h.books
  rw [hnet] at hbooks
  refine h.answer hnet (by rw [hsink]) ⟨?_, ?_, hbooks.lastRtx, ?_⟩ ?_ ?_ hans rfl
  · rw [hans.reply, tokens_nack, hans.ackno, ← tokens_ndp, hsink]
    exact hbooks.placed
  · intro q hq
    rw [hans.reply] at hq
    rcases Multiset.mem_cons.mp hq with hq | hq
    · exact absurd hq (by simp)
    · exact hbooks.lastNet q (Multiset.mem_cons_of_mem hq)
  · have hbalance := hbooks.balance
    rw [dataCount_ndp] at hbalance
    rw [hans.reply, dataCount_of_not rfl, hsink]
    dsimp only
    omega
  · rw [hsink]
    obtain ⟨n, hn⟩ := h.ordered
    exact ⟨n, hn.cumulativeAck, hn.sorted, hn.above⟩
  · rw [hsink]
    exact h.last

/-- The end of the flow that a packet tells the sink is not before the last packet. -/
theorem noteLast_last (h : Inv F s sent l) {p : NdpPacket} (hp : .ndp p ∈ s.net) :
    (s.sink.noteLast F p).lastPacketSeqno = 0 ∨
      F.flowSize ≤ (s.sink.noteLast F p).lastPacketSeqno := by
  unfold Sink.noteLast
  split_ifs with hlast
  · exact .inr (h.books.lastNet p hp hlast)
  · exact h.last

theorem noteLast_ordered (h : Inv F s sent l) (p : NdpPacket) :
    ∃ n, (s.sink.noteLast F p).Ordered F.mss n := by
  obtain ⟨n, hordered⟩ := h.ordered
  obtain ⟨hack, hreceived, -⟩ := Sink.noteLast_eq F p s.sink
  exact ⟨n, hack.trans hordered.cumulativeAck, hreceived ▸ hordered.sorted,
    hreceived ▸ hordered.above⟩

theorem arrive_full (h : Inv F s sent l) {p : NdpPacket} (hp : .ndp p ∈ s.net)
    (hfull : p.isHeader = false) (t draw : ℕ) :
    ∃ l', Inv F (s.arrive F p t draw) sent l' := by
  obtain ⟨net, hnet⟩ := Multiset.exists_cons_of_mem hp
  have hbooks := h.books
  rw [hnet] at hbooks
  have hplaced := hbooks.placed
  rw [tokens_ndp] at hplaced
  obtain ⟨j, -, hseqno, -⟩ := hplaced.token _ (Multiset.mem_cons_self _ _)
  obtain ⟨hack, hreceived, hpull⟩ := Sink.noteLast_eq F p s.sink
  have hlast := h.noteLast_last hp
  obtain ⟨n, hnote⟩ := h.noteLast_ordered p
  obtain ⟨m, -, hm, hgot⟩ := hnote.record F.mss_pos j
  rw [← hseqno] at hm hgot
  set k := (s.sink.noteLast F p).record F.mss p.seqno
  obtain ⟨hkpull, hklast⟩ := Sink.record_eq F.mss p.seqno (s.sink.noteLast F p)
  have hkpull' : k.pullNo = s.sink.pullNo := hkpull.trans hpull
  obtain ⟨hsink, r, l', hans⟩ := Sink.send_answers h.only k t draw .ack p.seqno p.pacerno
  set a := k.send F t draw .ack p.seqno p.pacerno s.pacer
  have hans' : Inv F ⟨s.src, a.sink, a.pacer, a.reply ::ₘ net, t,
      (a.timer.toList : Multiset ℕ) + s.timers⟩ sent l' := by
    rw [hkpull'] at hans
    refine h.answer hnet (by rw [hsink, hkpull']) ⟨?_, ?_, hbooks.lastRtx, ?_⟩ ?_ ?_ hans rfl
    · rw [hans.reply, tokens_of_token_eq_none _ rfl, hsink]
      rw [hseqno] at hplaced
      refine hplaced.arrive fun i => (hgot i).trans ?_
      rw [Sink.Got, hack, hreceived, Sink.Got]
    · intro q hq
      rw [hans.reply] at hq
      rcases Multiset.mem_cons.mp hq with hq | hq
      · exact absurd hq (by simp)
      · exact hbooks.lastNet q (Multiset.mem_cons_of_mem hq)
    · have hbalance := hbooks.balance
      rw [dataCount_ndp] at hbalance
      rw [hans.reply, dataCount_of_not rfl, hsink]
      dsimp only
      omega
    · rw [hsink]
      exact ⟨m, hm.cumulativeAck, hm.sorted, hm.above⟩
    · rw [hsink]
      dsimp only
      rw [hklast]
      exact hlast
  have hrecv : s.sink.receivePacket F t draw p s.pacer =
      if 0 < a.sink.lastPacketSeqno ∧ a.sink.cumulativeAck = a.sink.lastPacketSeqno then
        { a with pacer := a.pacer.releasePulls F.id } else a := by
    rw [Sink.receivePacket, if_neg (by simp [hfull])]
    rfl
  unfold World.arrive
  rw [hrecv, hnet, Multiset.erase_cons_head]
  split_ifs with hdone
  · refine ⟨[], hans'.release ?_⟩
    have := hans'.last
    dsimp only at this ⊢
    omega
  · exact ⟨l', hans'⟩

theorem trim (h : Inv F s sent l) {p : NdpPacket} (hp : .ndp p ∈ s.net) :
    Inv F (s.trim p) sent l := by
  obtain ⟨net, hnet⟩ := Multiset.exists_cons_of_mem hp
  have hbooks := h.books
  have hpending := h.pending
  have hspent := h.spent
  have hcredit := h.credit
  unfold World.trim
  rw [hnet] at hbooks hpending hspent hcredit ⊢
  rw [Multiset.erase_cons_head]
  refine ⟨⟨?_, ?_, hbooks.lastRtx, ?_⟩, h.ordered, h.last, h.only, ?_, h.queued, h.lastPull, ?_, ?_,
    h.empty⟩
  · have hplaced := hbooks.placed
    dsimp only
    rw [tokens_ndp] at hplaced ⊢
    exact hplaced
  · intro q hq
    rcases Multiset.mem_cons.mp hq with hq | hq
    · obtain rfl := Packet.ndp.inj hq
      exact hbooks.lastNet p (Multiset.mem_cons_self _ _)
    · exact hbooks.lastNet q (Multiset.mem_cons_of_mem hq)
  · dsimp only
    rw [dataCount_ndp, ← dataCount_ndp p]
    exact hbooks.balance
  · intro q hq
    rcases Multiset.mem_cons.mp hq with rfl | hq
    · exact Nat.zero_le _
    · exact hcredit q (Multiset.mem_cons_of_mem hq)
  · refine hpending.imp_right (Or.imp_right (Or.imp_left ?_))
    rintro ⟨q, hq, he⟩
    rcases Multiset.mem_cons.mp hq with rfl | hq
    · exact ⟨_, Multiset.mem_cons_self _ _, he⟩
    · exact ⟨q, Multiset.mem_cons_of_mem hq, he⟩
  · intro he
    obtain ⟨hnack, hrest⟩ := hspent he
    refine ⟨fun q hq => ?_, hrest⟩
    rcases Multiset.mem_cons.mp hq with rfl | hq
    · rfl
    · exact hnack q (Multiset.mem_cons_of_mem hq)

theorem timer (h : Inv F s sent l) (t draw : ℕ) : ∃ l', Inv F (s.timer t draw) sent l' := by
  unfold World.timer Pacer.doNextEvent
  rcases List.eq_nil_or_concat' l with rfl | ⟨l', x, rfl⟩
  · have hcount := h.only.pullCount
    have hnone : s.pacer.pullQueue.dequeue = none := if_pos hcount
    rw [hnone]
    refine ⟨[], ?_⟩
    change Inv F ⟨s.src, s.sink, s.pacer, 0 + s.net, t, _⟩ sent []
    rw [zero_add]
    exact ⟨h.books, h.ordered, h.last, h.only, h.credit, h.queued, h.lastPull, h.pending, h.spent,
      h.empty⟩
  · obtain ⟨q, hq, honly⟩ := h.only.dequeue
    rw [hq]
    refine ⟨l', ?_⟩
    set y : Packet := .pull { x with pacerno := s.pacer.pacerNo }
    change Inv F ⟨s.src, s.sink, _, (([y] : List Packet) : Multiset Packet) + s.net, t, _⟩ sent l'
    rw [Multiset.coe_singleton, Multiset.singleton_add]
    have hx := h.queued x (by simp)
    refine ⟨h.books.cons rfl rfl, h.ordered, h.last, honly, ?_, ?_, h.lastPull, ?_, ?_, h.empty⟩
    · intro p hp
      rcases Multiset.mem_cons.mp hp with rfl | hp
      · exact hx
      · exact h.credit p hp
    · exact fun z hz => h.queued z (by simp [hz])
    · rcases h.pending with hdone | hlast | ⟨p, hp, he⟩ | ⟨z, hz, he⟩
      · exact .inl hdone
      · exact .inr (.inl hlast)
      · exact .inr (.inr (.inl ⟨p, Multiset.mem_cons_of_mem hp, he⟩))
      · rcases List.mem_append.mp hz with hz | hz
        · exact .inr (.inr (.inr ⟨z, hz, he⟩))
        · obtain rfl := List.mem_singleton.mp hz
          exact .inr (.inr (.inl ⟨y, Multiset.mem_cons_self _ _, he⟩))
    · intro he
      obtain ⟨hnack, hrest⟩ := h.spent he
      refine ⟨fun p hp => ?_, hrest⟩
      rcases Multiset.mem_cons.mp hp with rfl | hp
      · rfl
      · exact hnack p hp

/-- A packet for the source is taken from the network and noted. -/
theorem noted (h : Inv F s sent l) {p : Packet} {net : Multiset Packet}
    (hnet : s.net = p ::ₘ net) (hp : p.isData = false) {src : Source}
    (hsent : src.packetsSent = s.src.packetsSent) (hhigh : src.highestSent = s.src.highestSent)
    (hrtx : src.rtxQueue = s.src.rtxQueue ++ p.requeued F) : Books F src net s.sink sent := by
  have hbooks := h.books
  rw [hnet] at hbooks
  have htokens : tokens src net = tokens s.src (p ::ₘ net) := by
    cases p with
    | ndp p => simp [Packet.isData] at hp
    | ack r =>
      rw [tokens_of_token_eq_none _ rfl, tokens, hrtx, tokens]
      simp [Packet.requeued]
    | pull q =>
      rw [tokens_of_token_eq_none _ rfl, tokens, hrtx, tokens]
      simp [Packet.requeued]
    | nack r =>
      rw [tokens_nack, tokens, hrtx, tokens, List.map_append, ← Multiset.coe_add,
        ← Multiset.add_cons, ← Multiset.singleton_add]
      exact congrArg _ (add_comm _ _)
  refine ⟨?_, ?_, ?_, ?_⟩
  · rw [hhigh, htokens]
    exact hbooks.placed
  · exact fun q hq => hbooks.lastNet q (Multiset.mem_cons_of_mem hq)
  · intro q hq
    rw [hrtx] at hq
    rcases List.mem_append.mp hq with hq | hq
    · exact hbooks.lastRtx q hq
    · cases p with
      | nack r =>
        obtain rfl := List.mem_singleton.mp hq
        exact of_decide_eq_true
      | ndp p => exact absurd hq List.not_mem_nil
      | ack r => exact absurd hq List.not_mem_nil
      | pull r => exact absurd hq List.not_mem_nil
  · rw [hsent, hbooks.balance, dataCount_of_not hp]

/-- With the last pull the source sends nothing only if there is nothing left to send. -/
theorem spent_pullLoop (h : Inv F s sent l) {p : Packet} (hp : p ∈ s.net) (hdata : p.isData = false)
    (hok : ¬ Overtakes F s p) {src : Source} (hhigh : src.highestSent = s.src.highestSent)
    (hrtx : src.rtxQueue = s.src.rtxQueue ++ p.requeued F) {pacerNo : ℕ}
    (hout : (src.pullLoop F pacerNo (p.credit - s.src.lastPull)).2 = [])
    (he : s.src.lastPull + (p.credit - s.src.lastPull) = s.src.packetsSent) :
    (∀ q ∈ s.net, q.isNack = false) ∧ src.rtxQueue = [] ∧ F.flowSize ≤ s.src.highestSent := by
  by_cases hk : p.credit - s.src.lastPull = 0
  · obtain ⟨hnack, hq, hflow⟩ := h.spent (by omega)
    refine ⟨hnack, ?_, hflow⟩
    cases p with
    | nack r => exact absurd (hnack _ hp) (by simp [Packet.isNack])
    | ndp p => exact absurd hdata (by simp [Packet.isData])
    | ack r => exact hrtx.trans (by rw [hq]; rfl)
    | pull r => exact hrtx.trans (by rw [hq]; rfl)
  · obtain ⟨hq, hflow, hle⟩ := noNewData_of_pullLoop hk hout
    rw [hhigh] at hle
    rw [hrtx] at hq
    obtain ⟨hrtx', hreq⟩ := List.append_eq_nil_iff.mp hq
    refine ⟨fun q hq => ?_, hrtx.trans (by rw [hrtx', hreq]; rfl), hle⟩
    have hno : p.isNack = false := by
      cases p with
      | nack r => exact absurd hreq (by simp [Packet.requeued])
      | ndp p => rfl
      | ack r => rfl
      | pull r => rfl
    by_contra hn
    exact hok ⟨hno, by omega, hrtx', hle, q, hq, by simpa using hn⟩

theorem feedback (h : Inv F s sent l) {p : Packet} (hp : p ∈ s.net) (hdata : p.isData = false)
    (hok : ¬ Overtakes F s p) (t : ℕ) : ∃ sent', Inv F (s.feedback F p t) sent' l := by
  obtain ⟨net, hnet⟩ := Multiset.exists_cons_of_mem hp
  obtain ⟨src, pacerNo, hrecv, hpull, hsent, hhigh, hrtx, -⟩ := receivePacket_eq F s.src hdata
  have hbooks := h.noted hnet hdata hsent hhigh hrtx
  have hcredit := h.credit p hp
  have hle := h.lastPull
  have hbalance := h.books.balance
  unfold World.feedback
  rw [hrecv, hnet, Multiset.erase_cons_head]
  set k := p.credit - s.src.lastPull with hk
  have hlast := @pullLoop_lastPull F src pacerNo k
  have hcount := @pullLoop_packetsSent F src pacerNo k
  have hzero (hflow : F.flowSize = 0) : k = 0 := by
    have := h.empty hflow
    omega
  have hloop : ∃ sent', Books F (src.pullLoop F pacerNo k).1
      (onWire (src.pullLoop F pacerNo k).2 + net) s.sink sent' := by
    by_cases hflow : F.flowSize = 0
    · rw [hzero hflow]
      exact ⟨sent, by simpa [Source.pullLoop] using hbooks⟩
    · exact hbooks.pullLoop hflow pacerNo k
  obtain ⟨sent', hbooks'⟩ := hloop
  refine ⟨sent', hbooks', h.ordered, h.last, h.only, ?_, h.queued, ?_, ?_, ?_, ?_⟩
  · intro q hq
    rcases Multiset.mem_add.mp hq with hq | hq
    · rw [credit_of_mem_onWire hq]
      exact Nat.zero_le _
    · exact h.credit q (hnet ▸ Multiset.mem_cons_of_mem hq)
  · dsimp only
    omega
  · rcases h.pending with hdone | he | ⟨q, hq, he⟩ | hx
    · exact .inl hdone
    · right; left
      dsimp only
      omega
    · rw [hnet] at hq
      rcases Multiset.mem_cons.mp hq with rfl | hq
      · right; left
        dsimp only
        omega
      · exact .inr (.inr (.inl ⟨q, Multiset.mem_add.mpr (.inr hq), he⟩))
    · exact .inr (.inr (.inr hx))
  · intro he
    dsimp only at he ⊢
    have hout : (src.pullLoop F pacerNo k).2 = [] := by
      rw [← List.length_eq_zero_iff]
      omega
    obtain ⟨hnet', hq, hflow⟩ := h.spent_pullLoop hp hdata hok hhigh hrtx hout (by omega)
    rw [pullLoop_eq_of_nil hout, hout]
    refine ⟨fun q hq => ?_, hq, hhigh ▸ hflow⟩
    rw [onWire_nil, zero_add] at hq
    exact hnet' q (hnet ▸ Multiset.mem_cons_of_mem hq)
  · intro hflow
    have hk0 := hzero hflow
    have := h.empty hflow
    rw [hk0] at hlast hcount ⊢
    dsimp only
    rw [hlast, hcount, hpull, hsent, this]
    rfl

end Inv

theorem inv_of_reachable {F : Flow} (hwindow : F.cwnd ≠ 0 ∨ F.flowSize = 0) {s : World}
    (h : ((network F).restrict (NotOvertaken F)).Reachable s) : ∃ sent l, Inv F s sent l := by
  apply h.invariant
  · rintro s ⟨now, packetDrainTime, rfl⟩
    obtain ⟨sent, hinv⟩ := Inv.start hwindow now packetDrainTime
    exact ⟨sent, [], hinv⟩
  · rintro s a - ⟨sent, l, hinv⟩ ⟨he, hok⟩
    cases a with
    | trim p => exact ⟨sent, l, hinv.trim he.1⟩
    | timer t draw => exact ⟨sent, hinv.timer t draw⟩
    | deliver p t draw =>
      cases p with
      | ndp p =>
        cases hheader : p.isHeader with
        | true => exact ⟨sent, hinv.arrive_header he.1 hheader t draw⟩
        | false => exact ⟨sent, hinv.arrive_full he.1 hheader t draw⟩
      | ack r =>
        obtain ⟨sent', h'⟩ := hinv.feedback he.1 rfl hok t
        exact ⟨sent', l, h'⟩
      | nack r =>
        obtain ⟨sent', h'⟩ := hinv.feedback he.1 rfl hok t
        exact ⟨sent', l, h'⟩
      | pull r =>
        obtain ⟨sent', h'⟩ := hinv.feedback he.1 rfl hok t
        exact ⟨sent', l, h'⟩

/-- If no pull overtakes a NACK that it is needed for, then the whole flow is at the
sink when nothing is on its way. -/
theorem nothing_stranded {F : Flow} (hwindow : F.cwnd ≠ 0 ∨ F.flowSize = 0) {s : World}
    (h : ((network F).restrict (NotOvertaken F)).Reachable s) (hnet : s.net = 0)
    (hqueue : s.pacer.pullQueue.IsEmpty) :
    s.src.rtxQueue = [] ∧ F.flowSize ≤ s.sink.cumulativeAck := by
  obtain ⟨sent, l, hinv⟩ := inv_of_reachable hwindow h
  have hl : l = [] := hinv.only.isEmpty_iff.mp hqueue
  obtain ⟨n, hordered⟩ := hinv.ordered
  have hplaced := hinv.books.placed
  have htokens : tokens s.src s.net = (s.src.rtxQueue.map NdpPacket.seqno : List ℕ) := by
    rw [hnet]
    exact zero_add _
  have hdone (hflow : F.flowSize ≤ s.sink.cumulativeAck) : s.src.rtxQueue = [] := by
    have hzero := hplaced.tokens_eq_zero hordered hflow
    rw [htokens, Multiset.coe_eq_zero, List.map_eq_nil_iff] at hzero
    exact hzero
  rcases hinv.pending with hflow | hpull | ⟨p, hp, -⟩ | ⟨x, hx, -⟩
  · exact ⟨hdone hflow, hflow⟩
  · have hbalance := hinv.books.balance
    rw [hnet] at hbalance
    obtain ⟨-, hrtx, hflow⟩ := hinv.spent (hpull.symm.trans hbalance.symm)
    rw [htokens, hrtx] at hplaced
    exact ⟨hrtx, hplaced.flowSize_le hordered hflow⟩
  · rw [hnet] at hp
    exact absurd hp (Multiset.notMem_zero _)
  · rw [hl] at hx
    exact absurd hx List.not_mem_nil

/-- Two packets of 9000 bytes, both in the first window. -/
def twoPackets : Flow where
  id := 1
  mss := 9000
  mss_pos := Nat.succ_pos 8999
  mss_lt := (by decide : 9000 < 65536)
  flowSize := 18000
  flowSize_le := by decide
  cwnd := 18000
  cwnd_lt := by decide
  singlePath := false

/-- The first packet is trimmed; the pull for the second one waits for the timer. -/
def trimFirst : List Label :=
  [.trim ⟨1, 0, false, false⟩, .deliver (.ndp ⟨1, 0, true, false⟩) 20000000 0,
    .deliver (.ndp ⟨9001, 0, false, true⟩) 21000000 0, .timer 27200000 0]

def nackFirst : List Label :=
  [.deliver (.nack ⟨1, 0, 1, 0, true⟩) 28000000 0, .deliver (.pull ⟨9001, 0, 2, 1⟩) 29000000 0,
    .deliver (.ack ⟨9001, 0, 0, 0, false⟩) 29000000 0,
    .deliver (.ndp ⟨1, 0, false, false⟩) 30000000 0,
    .deliver (.ack ⟨1, 18000, 0, 0, false⟩) 31000000 0]

def pullFirst : List Label :=
  [.deliver (.pull ⟨9001, 0, 2, 1⟩) 28000000 0, .deliver (.nack ⟨1, 0, 1, 0, true⟩) 29000000 0,
    .deliver (.ack ⟨9001, 0, 0, 0, false⟩) 29000000 0]

/-- The second packet is pulled for after the NACK of the first one has arrived. -/
theorem nothing_stranded_nackFirst :
    ∃ s, ((network twoPackets).restrict (NotOvertaken twoPackets)).Reachable s ∧ s.net = 0 ∧
      s.pacer.pullQueue.IsEmpty ∧ s.src.packetsSent = 3 ∧ s.src.rtxQueue = [] ∧
      18000 ≤ s.sink.cumulativeAck := by
  have hinit : ((network twoPackets).restrict (NotOvertaken twoPackets)).Reachable
      (.start twoPackets 0 7200000) := .init ⟨_, _, rfl⟩
  have hs := hinit.run (l := trimFirst ++ nackFirst) (by decide)
  have hnet : (((network twoPackets).restrict (NotOvertaken twoPackets)).run
      (.start twoPackets 0 7200000) (trimFirst ++ nackFirst)).net = 0 := by decide
  exact ⟨_, hs, hnet, by decide, by decide, nothing_stranded (by decide) hs hnet (by decide)⟩

/-- The pull for the second packet overtakes the NACK of the first one, which is then
never sent again. -/
theorem pullFirst_stranded :
    ∃ s, (network twoPackets).Reachable s ∧ s.net = 0 ∧ s.pacer.pullQueue.IsEmpty ∧
      ¬ (s.src.rtxQueue = [] ∧ twoPackets.flowSize ≤ s.sink.cumulativeAck) := by
  have hinit : (network twoPackets).Reachable (.start twoPackets 0 7200000) := .init ⟨_, _, rfl⟩
  have hs := hinit.run (l := trimFirst ++ pullFirst) (by decide)
  exact ⟨_, hs, by decide, by decide, by decide⟩

end P4Survey.Ndp
