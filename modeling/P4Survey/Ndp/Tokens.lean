import P4Survey.Ndp.Network

/-! # Where a packet is

Every packet of the flow that has been sent is in one place: it is on its way, as
data or as a NACK, it waits to be sent again, or the sink has it. The number of
packets sent is that of the arrivals plus the packets on their way.
-/

namespace P4Survey.Ndp

namespace Packet

/-- The sequence number that a packet stands for. -/
def token : Packet → Option ℕ
  | .ndp p => some p.seqno
  | .nack r => some r.ackno
  | _ => none

/-- The pull number that reaches the source with a packet. -/
def credit : Packet → ℕ
  | .ndp _ => 0
  | .ack r => if r.pull then r.pullno else 0
  | .nack r => if r.pull then r.pullno else 0
  | .pull p => p.pullno

def isData : Packet → Bool
  | .ndp _ => true
  | _ => false

def isNack : Packet → Bool
  | .nack _ => true
  | _ => false

/-- The sequence numbers a packet acknowledges. -/
def acks : Packet → List ℕ
  | .ack r => [r.ackno]
  | _ => []

/-- What the source queues for a packet that comes back to it. -/
def requeued (F : Flow) : Packet → List NdpPacket
  | .nack r => [⟨r.ackno, 0, false, F.flowSize ≤ r.ackno + F.mss - 1⟩]
  | _ => []

end Packet

variable {F : Flow}

/-- The packets sent so far, up to `highestSent`: each is a token or has arrived. -/
structure Placed (F : Flow) (highestSent : ℕ) (tokens : Multiset ℕ) (got : ℕ → Prop)
    (sent : ℕ) : Prop where
  highestSent : highestSent = sent * F.mss
  within : ∀ j < sent, j * F.mss < F.flowSize
  token : ∀ x ∈ tokens, ∃ j < sent, x = j * F.mss + 1 ∧ ¬ got j
  nodup : tokens.Nodup
  covered : ∀ j < sent, got j ∨ j * F.mss + 1 ∈ tokens
  got : ∀ j, got j → j < sent

namespace Placed

variable {highestSent sent : ℕ} {tokens : Multiset ℕ} {got : ℕ → Prop}

/-- A new packet is sent. -/
theorem send (h : Placed F highestSent tokens got sent) (hlt : highestSent < F.flowSize) :
    Placed F (highestSent + F.mss) ((highestSent + 1) ::ₘ tokens) got (sent + 1) := by
  have hhigh := h.highestSent
  subst hhigh
  constructor
  · rw [Nat.succ_mul]
  · intro j hj
    rcases Nat.lt_succ_iff_lt_or_eq.mp hj with hj | rfl
    · exact h.within j hj
    · exact hlt
  · intro x hx
    rcases Multiset.mem_cons.mp hx with rfl | hx
    · exact ⟨sent, Nat.lt_succ_self _, rfl, fun hg => Nat.lt_irrefl _ (h.got _ hg)⟩
    · obtain ⟨j, hj, he, hg⟩ := h.token x hx
      exact ⟨j, Nat.lt_succ_of_lt hj, he, hg⟩
  · refine Multiset.nodup_cons.mpr ⟨fun hx => ?_, h.nodup⟩
    obtain ⟨j, hj, he, -⟩ := h.token _ hx
    rw [Sink.seqno_inj F.mss_pos] at he
    omega
  · intro j hj
    rw [Multiset.mem_cons, Sink.seqno_inj F.mss_pos]
    rcases Nat.lt_succ_iff_lt_or_eq.mp hj with hj | rfl
    · exact (h.covered j hj).imp_right .inr
    · exact .inr (.inl rfl)
  · exact fun j hg => Nat.lt_succ_of_lt (h.got j hg)

/-- A packet arrives at the sink with its payload. -/
theorem arrive {j : ℕ} (h : Placed F highestSent ((j * F.mss + 1) ::ₘ tokens) got sent)
    {got' : ℕ → Prop} (hgot : ∀ i, got' i ↔ got i ∨ i = j) :
    Placed F highestSent tokens got' sent := by
  obtain ⟨hnot, hnodup⟩ := Multiset.nodup_cons.mp h.nodup
  constructor
  · exact h.highestSent
  · exact h.within
  · intro x hx
    obtain ⟨i, hi, rfl, hg⟩ := h.token x (Multiset.mem_cons_of_mem hx)
    refine ⟨i, hi, rfl, fun hg' => ?_⟩
    rcases (hgot i).mp hg' with hg' | rfl
    · exact hg hg'
    · exact hnot hx
  · exact hnodup
  · intro i hi
    rw [hgot]
    rcases h.covered i hi with hg | hx
    · exact .inl (.inl hg)
    · rcases Multiset.mem_cons.mp hx with he | hx
      · exact .inl (.inr ((Sink.seqno_inj F.mss_pos).mp he))
      · exact .inr hx
  · intro i hi
    rcases (hgot i).mp hi with hg | rfl
    · exact h.got i hg
    · obtain ⟨k, hk, he, -⟩ := h.token _ (Multiset.mem_cons_self _ _)
      rwa [(Sink.seqno_inj F.mss_pos).mp he]

/-- Once the sink has the whole flow no packet of it is anywhere else. -/
theorem tokens_eq_zero {sink : Sink} {n : ℕ} (h : Placed F highestSent tokens (sink.Got F.mss) sent)
    (hordered : sink.Ordered F.mss n) (hdone : F.flowSize ≤ sink.cumulativeAck) : tokens = 0 := by
  apply Multiset.eq_zero_of_forall_notMem
  intro x hx
  obtain ⟨j, hj, -, hgot⟩ := h.token x hx
  have hlt : j * F.mss < n * F.mss := by
    rw [← hordered.cumulativeAck]
    exact Nat.lt_of_lt_of_le (h.within j hj) hdone
  exact hgot ((hordered.got_iff F.mss_pos j).mpr (.inl (Nat.lt_of_mul_lt_mul_right hlt)))

theorem flowSize_le {sink : Sink} {n : ℕ} (h : Placed F highestSent 0 (sink.Got F.mss) sent)
    (hordered : sink.Ordered F.mss n) (hsent : F.flowSize ≤ highestSent) :
    F.flowSize ≤ sink.cumulativeAck := by
  have hle : sent ≤ n := by
    by_contra hlt
    rcases h.covered n (Nat.not_le.mp hlt) with hgot | hmem
    · exact hordered.not_got F.mss_pos hgot
    · exact absurd hmem (Multiset.notMem_zero _)
  rw [hordered.cumulativeAck]
  rw [h.highestSent] at hsent
  exact hsent.trans (Nat.mul_le_mul_right _ hle)

end Placed

def tokens (src : Source) (net : Multiset Packet) : Multiset ℕ :=
  net.filterMap Packet.token + (src.rtxQueue.map NdpPacket.seqno : List ℕ)

def dataCount (net : Multiset Packet) : ℕ := net.countP fun p => p.isData = true

theorem dataCount_ndp (p : NdpPacket) (net : Multiset Packet) :
    dataCount (.ndp p ::ₘ net) = dataCount net + 1 :=
  Multiset.countP_cons_of_pos _ rfl

theorem dataCount_of_not {p : Packet} (hp : p.isData = false) (net : Multiset Packet) :
    dataCount (p ::ₘ net) = dataCount net :=
  Multiset.countP_cons_of_neg _ (by simp [hp])

/-- A packet marked as the last one is. -/
def LastOk (F : Flow) (p : NdpPacket) : Prop :=
  p.lastPacket = true → F.flowSize ≤ p.seqno + F.mss - 1

structure Books (F : Flow) (src : Source) (net : Multiset Packet) (sink : Sink) (sent : ℕ) :
    Prop where
  placed : Placed F src.highestSent (tokens src net) (sink.Got F.mss) sent
  lastNet : ∀ p, .ndp p ∈ net → LastOk F p
  lastRtx : ∀ p ∈ src.rtxQueue, LastOk F p
  balance : src.packetsSent = sink.pullNo + dataCount net

section Source

variable {src : Source} {net : Multiset Packet} {sink : Sink} {sent : ℕ}

theorem tokens_ndp (src : Source) (p : NdpPacket) (net : Multiset Packet) :
    tokens src (.ndp p ::ₘ net) = p.seqno ::ₘ tokens src net := by
  rw [tokens, Multiset.filterMap_cons_some Packet.token _ _ rfl, Multiset.cons_add, tokens]

theorem tokens_nack (src : Source) (r : Reply) (net : Multiset Packet) :
    tokens src (.nack r ::ₘ net) = r.ackno ::ₘ tokens src net := by
  rw [tokens, Multiset.filterMap_cons_some Packet.token _ _ rfl, Multiset.cons_add, tokens]

theorem tokens_of_token_eq_none (src : Source) {p : Packet} (hp : p.token = none)
    (net : Multiset Packet) : tokens src (p ::ₘ net) = tokens src net := by
  rw [tokens, Multiset.filterMap_cons_none _ _ hp, tokens]

/-- What the source sends gives it no credit. -/
theorem credit_of_mem_onWire {p : Packet} {out : List NdpPacket} (h : p ∈ onWire out) :
    p.credit = 0 := by
  obtain ⟨q, -, rfl⟩ := mem_onWire.mp h
  rfl

/-- The three cases of `send_packet`. -/
theorem sendPacket_cases (F : Flow) (pacerNo : ℕ) (src : Source) :
    (∃ p q, src.rtxQueue = p :: q ∧ src.sendPacket F pacerNo =
        ({ src with rtxQueue := q, packetsSent := src.packetsSent + 1 },
          [{ p with pacerno := pacerNo }])) ∨
      (src.rtxQueue = [] ∧ src.NoNewData F ∧ src.sendPacket F pacerNo = (src, [])) ∨
      (src.rtxQueue = [] ∧ ¬ src.NoNewData F ∧ src.sendPacket F pacerNo =
        ({ src with
            flightSize := src.flightSize + .ofNat 32 F.mss
            highestSent := src.highestSent + F.mss
            packetsSent := src.packetsSent + 1 },
          [⟨src.highestSent + 1, pacerNo, false,
            F.flowSize ≠ 0 ∧ F.flowSize ≤ src.highestSent + F.mss⟩])) := by
  unfold Source.sendPacket
  cases hq : src.rtxQueue with
  | cons p q => exact .inl ⟨p, q, rfl, rfl⟩
  | nil =>
    by_cases hn : src.NoNewData F
    · exact .inr (.inl ⟨rfl, hn, if_pos hn⟩)
    · exact .inr (.inr ⟨rfl, hn, if_neg hn⟩)

theorem Books.sendPacket (h : Books F src net sink sent) (hflow : F.flowSize ≠ 0) (pacerNo : ℕ) :
    ∃ sent', Books F (src.sendPacket F pacerNo).1 (onWire (src.sendPacket F pacerNo).2 + net)
      sink sent' := by
  rcases sendPacket_cases F pacerNo src with ⟨p, q, hq, he⟩ | ⟨-, -, he⟩ | ⟨hq, hn, he⟩
  · have hlast := h.lastRtx
    rw [hq] at hlast
    rw [he, onWire_cons, onWire_nil, Multiset.cons_add, zero_add]
    refine ⟨sent, ?_, ?_, ?_, ?_⟩
    · have htokens : tokens { src with rtxQueue := q, packetsSent := src.packetsSent + 1 }
          (.ndp { p with pacerno := pacerNo } ::ₘ net) = tokens src net := by
        rw [tokens_ndp, tokens, tokens, hq, List.map_cons, ← Multiset.cons_coe, Multiset.add_cons]
      dsimp only
      rw [htokens]
      exact h.placed
    · intro p' hp'
      rcases Multiset.mem_cons.mp hp' with hp' | hp'
      · obtain rfl := Packet.ndp.inj hp'
        exact hlast p List.mem_cons_self
      · exact h.lastNet p' hp'
    · exact fun p' hp' => hlast p' (List.mem_cons_of_mem _ hp')
    · rw [dataCount_ndp, ← Nat.add_assoc, ← h.balance]
  · rw [he, onWire_nil, zero_add]
    exact ⟨sent, h⟩
  · have hlt : src.highestSent < F.flowSize := by
      by_contra hle
      exact hn ⟨hflow, Nat.not_lt.mp hle⟩
    rw [he, onWire_cons, onWire_nil, Multiset.cons_add, zero_add]
    refine ⟨sent + 1, ?_, ?_, h.lastRtx, ?_⟩
    · rw [tokens_ndp]
      exact h.placed.send hlt
    · intro p' hp'
      rcases Multiset.mem_cons.mp hp' with hp' | hp'
      · obtain rfl := Packet.ndp.inj hp'
        intro hlast
        have := (of_decide_eq_true hlast).2
        dsimp only
        omega
      · exact h.lastNet p' hp'
    · rw [dataCount_ndp, ← Nat.add_assoc, ← h.balance]

section Loops

variable {P : Source → Multiset Packet → Prop}

/-- What a turn of `pull_packets` keeps, the loop keeps. -/
theorem pullLoop_keeps {pacerNo : ℕ}
    (hsend : ∀ src net, P src net →
      P (src.sendPacket F pacerNo).1 (onWire (src.sendPacket F pacerNo).2 + net))
    (hpull : ∀ src net n, P src net → P { src with lastPull := n } net) (h : P src net) (k : ℕ) :
    P (src.pullLoop F pacerNo k).1 (onWire (src.pullLoop F pacerNo k).2 + net) := by
  induction k generalizing src net with
  | zero => simpa [Source.pullLoop] using h
  | succ k ih =>
    have hrest := ih (hpull _ _ ((src.sendPacket F pacerNo).1.lastPull + 1) (hsend src net h))
    rw [Source.pullLoop]
    dsimp only
    rwa [onWire_append, add_comm (onWire _) (onWire _), add_assoc]

/-- What a turn of the loop of `startflow` keeps, the loop keeps. -/
theorem windowLoop_keeps
    (hsend : ∀ src net, F.flowSize ≠ 0 → P src net →
      P (src.sendPacket F 0).1 (onWire (src.sendPacket F 0).2 + net))
    (hcount : ∀ src net n, P src net → P { src with firstWindowCount := n } net) (h : P src net)
    (k : ℕ) : P (src.windowLoop F k).1 (onWire (src.windowLoop F k).2 + net) := by
  induction k generalizing src net with
  | zero => simpa [Source.windowLoop] using h
  | succ k ih =>
    rw [Source.windowLoop]
    split_ifs with hc
    · have hflow : F.flowSize ≠ 0 := by omega
      have hrest := ih (hcount _ _ ((src.sendPacket F 0).1.firstWindowCount + 1)
        (hsend src net hflow h))
      dsimp only
      rwa [onWire_append, add_comm (onWire _) (onWire _), add_assoc]
    · simpa using h

end Loops

theorem Books.pullLoop (h : Books F src net sink sent) (hflow : F.flowSize ≠ 0) (pacerNo k : ℕ) :
    ∃ sent', Books F (src.pullLoop F pacerNo k).1 (onWire (src.pullLoop F pacerNo k).2 + net)
      sink sent' := by
  refine pullLoop_keeps (P := fun src net => ∃ sent, Books F src net sink sent) ?_ ?_ ⟨sent, h⟩ k
  · rintro src net ⟨sent, h⟩
    exact h.sendPacket hflow pacerNo
  · rintro src net n ⟨sent, h⟩
    exact ⟨sent, h.placed, h.lastNet, h.lastRtx, h.balance⟩

theorem Books.windowLoop (h : Books F src net sink sent) (k : ℕ) :
    ∃ sent', Books F (src.windowLoop F k).1 (onWire (src.windowLoop F k).2 + net) sink sent' := by
  refine windowLoop_keeps (P := fun src net => ∃ sent, Books F src net sink sent) ?_ ?_ ⟨sent, h⟩ k
  · rintro src net hflow ⟨sent, h⟩
    exact h.sendPacket hflow 0
  · rintro src net n ⟨sent, h⟩
    exact ⟨sent, h.placed, h.lastNet, h.lastRtx, h.balance⟩

@[simp] theorem sendPacket_lastPull (pacerNo : ℕ) :
    (src.sendPacket F pacerNo).1.lastPull = src.lastPull := by
  rcases sendPacket_cases F pacerNo src with ⟨p, q, -, he⟩ | ⟨-, -, he⟩ | ⟨-, -, he⟩ <;> rw [he]

theorem sendPacket_packetsSent (pacerNo : ℕ) :
    (src.sendPacket F pacerNo).1.packetsSent =
      src.packetsSent + (src.sendPacket F pacerNo).2.length := by
  rcases sendPacket_cases F pacerNo src with ⟨p, q, -, he⟩ | ⟨-, -, he⟩ | ⟨-, -, he⟩ <;>
    rw [he] <;> rfl

theorem pullLoop_lastPull (pacerNo k : ℕ) :
    (src.pullLoop F pacerNo k).1.lastPull = src.lastPull + k := by
  induction k generalizing src with
  | zero => rfl
  | succ k ih =>
    rw [Source.pullLoop]
    dsimp only
    rw [ih]
    dsimp only
    rw [sendPacket_lastPull]
    omega

theorem pullLoop_packetsSent (pacerNo k : ℕ) :
    (src.pullLoop F pacerNo k).1.packetsSent =
      src.packetsSent + (src.pullLoop F pacerNo k).2.length := by
  induction k generalizing src with
  | zero => rfl
  | succ k ih =>
    rw [Source.pullLoop]
    dsimp only
    rw [ih, List.length_append, sendPacket_packetsSent]
    omega

/-- Pulls that find nothing to send are used up. -/
theorem pullLoop_of_noNewData (hq : src.rtxQueue = []) (hn : src.NoNewData F) (pacerNo k : ℕ) :
    src.pullLoop F pacerNo k = ({ src with lastPull := src.lastPull + k }, []) := by
  induction k generalizing src with
  | zero => rfl
  | succ k ih =>
    have hsend : src.sendPacket F pacerNo = (src, []) := by
      rw [Source.sendPacket, hq]
      exact if_pos hn
    have hrest := @ih { src with lastPull := src.lastPull + 1 } hq hn
    rw [Source.pullLoop, hsend]
    dsimp only
    rw [hrest, List.nil_append]
    dsimp only
    rw [Nat.add_assoc, Nat.add_comm 1 k]

theorem noNewData_of_pullLoop {pacerNo k : ℕ} (hk : k ≠ 0)
    (hout : (src.pullLoop F pacerNo k).2 = []) : src.rtxQueue = [] ∧ src.NoNewData F := by
  cases k with
  | zero => exact absurd rfl hk
  | succ k =>
    rw [Source.pullLoop] at hout
    have hsend := (List.append_eq_nil_iff.mp hout).1
    rcases sendPacket_cases F pacerNo src with ⟨p, q, -, he⟩ | ⟨hq, hn, -⟩ | ⟨-, -, he⟩
    · simp [he] at hsend
    · exact ⟨hq, hn⟩
    · simp [he] at hsend

theorem pullLoop_eq_of_nil {pacerNo k : ℕ} (hout : (src.pullLoop F pacerNo k).2 = []) :
    (src.pullLoop F pacerNo k).1 = { src with lastPull := src.lastPull + k } := by
  by_cases hk : k = 0
  · subst hk
    rfl
  · obtain ⟨hq, hn⟩ := noNewData_of_pullLoop hk hout
    rw [pullLoop_of_noNewData hq hn]

/-- Before any feedback the bytes in flight are those sent, in whole packets. -/
structure Fresh (F : Flow) (src : Source) : Prop where
  flightSize : src.flightSize.toNat = src.highestSent
  whole : F.mss ∣ src.highestSent
  rtxQueue : src.rtxQueue = []

/-- There is room for one more packet below the window. -/
theorem Fresh.add_mss_le (h : Fresh F src) (hlt : src.flightSize.toNat < F.cwnd) :
    src.flightSize.toNat + F.mss ≤ F.window * F.mss := by
  obtain ⟨k, hk⟩ := h.whole
  have hflight : src.flightSize.toNat = k * F.mss := by
    rw [h.flightSize, hk, Nat.mul_comm]
  have hk' : k + 1 ≤ F.window := by
    rw [Flow.window, Nat.le_div_iff_mul_le F.mss_pos, Nat.succ_mul, ← hflight]
    omega
  rw [hflight, ← Nat.succ_mul]
  exact Nat.mul_le_mul_right F.mss hk'

theorem Fresh.flightSize_add (h : Fresh F src) (hlt : src.flightSize.toNat < F.cwnd) :
    (src.flightSize + .ofNat 32 F.mss).toNat = src.flightSize.toNat + F.mss := by
  rw [BitVec.toNat_add, BitVec.toNat_ofNat, Nat.mod_eq_of_lt (F.mss_lt.trans (by decide))]
  exact Nat.mod_eq_of_lt ((h.add_mss_le hlt).trans_lt F.cwnd_lt)

theorem Fresh.sendPacket (h : Fresh F src) (hcwnd : src.flightSize.toNat < F.cwnd)
    (hlt : src.flightSize.toNat < F.flowSize) (pacerNo : ℕ) :
    Fresh F (src.sendPacket F pacerNo).1 ∧
      (src.sendPacket F pacerNo).1.flightSize.toNat = src.flightSize.toNat + F.mss ∧
      (src.sendPacket F pacerNo).2.length = 1 := by
  have hhigh := h.flightSize
  have hadd := h.flightSize_add hcwnd
  rcases sendPacket_cases F pacerNo src with ⟨p, q, hq, -⟩ | ⟨-, hn, -⟩ | ⟨-, -, he⟩
  · rw [h.rtxQueue] at hq
    exact absurd hq (by simp)
  · have := hn.2
    omega
  · rw [he]
    refine ⟨⟨?_, ?_, h.rtxQueue⟩, hadd, rfl⟩
    · dsimp only
      rw [hadd, hhigh]
    · exact h.whole.add (dvd_refl _)

theorem windowLoop_lastPull (k : ℕ) : (src.windowLoop F k).1.lastPull = src.lastPull := by
  induction k generalizing src with
  | zero => rfl
  | succ k ih =>
    rw [Source.windowLoop]
    split_ifs
    · dsimp only
      rw [ih, sendPacket_lastPull]
    · rfl

theorem windowLoop_packetsSent (k : ℕ) :
    (src.windowLoop F k).1.packetsSent = src.packetsSent + (src.windowLoop F k).2.length := by
  induction k generalizing src with
  | zero => rfl
  | succ k ih =>
    rw [Source.windowLoop]
    split_ifs
    · dsimp only
      rw [ih, List.length_append, sendPacket_packetsSent]
      omega
    · rfl

theorem startflow_lastPull (F : Flow) : (Source.initial.startflow F).1.lastPull = 0 :=
  windowLoop_lastPull _

theorem startflow_packetsSent (F : Flow) :
    (Source.initial.startflow F).1.packetsSent = (Source.initial.startflow F).2.length := by
  rw [Source.startflow, windowLoop_packetsSent]
  exact Nat.zero_add _

/-- The window is full, or the flow has been sent, when the loop has had enough turns. -/
theorem Fresh.windowLoop (h : Fresh F src) (k : ℕ) :
    Fresh F (src.windowLoop F k).1 ∧ (F.cwnd ≤ src.flightSize.toNat + k →
      F.cwnd ≤ (src.windowLoop F k).1.flightSize.toNat ∨
        F.flowSize ≤ (src.windowLoop F k).1.flightSize.toNat) := by
  induction k generalizing src with
  | zero => exact ⟨h, .inl⟩
  | succ k ih =>
    rw [Source.windowLoop]
    split_ifs with hc
    · obtain ⟨hfresh, hflight, -⟩ := h.sendPacket hc.1 hc.2 0
      have hpos := F.mss_pos
      obtain ⟨hfresh', hdone⟩ := @ih { (src.sendPacket F 0).1 with
        firstWindowCount := (src.sendPacket F 0).1.firstWindowCount + 1 }
        ⟨hfresh.flightSize, hfresh.whole, hfresh.rtxQueue⟩
      refine ⟨hfresh', fun hk => hdone ?_⟩
      dsimp only
      omega
    · refine ⟨h, fun _ => ?_⟩
      dsimp only
      omega

/-- No more than a window is sent at first. -/
theorem Fresh.windowLoop_sent (h : Fresh F src) (hle : src.highestSent ≤ F.window * F.mss) (k : ℕ) :
    (src.windowLoop F k).1.highestSent ≤ F.window * F.mss ∧
      (src.windowLoop F k).1.highestSent =
        src.highestSent + (src.windowLoop F k).2.length * F.mss := by
  induction k generalizing src with
  | zero => simpa [Source.windowLoop] using hle
  | succ k ih =>
    rw [Source.windowLoop]
    split_ifs with hc
    · obtain ⟨hfresh, hflight, hlen⟩ := h.sendPacket hc.1 hc.2 0
      have hhigh := h.flightSize
      have hroom := h.add_mss_le hc.1
      rw [hfresh.flightSize] at hflight
      obtain ⟨hle', hsent⟩ := @ih { (src.sendPacket F 0).1 with
        firstWindowCount := (src.sendPacket F 0).1.firstWindowCount + 1 }
        ⟨hfresh.flightSize, hfresh.whole, hfresh.rtxQueue⟩ (by dsimp only; omega)
      refine ⟨hle', hsent.trans ?_⟩
      dsimp only
      rw [List.length_append, hlen, Nat.add_mul]
      omega
    · simpa using hle

theorem windowLoop_ne_nil (h : Fresh F src) {k : ℕ} (hk : k ≠ 0)
    (hcwnd : src.flightSize.toNat < F.cwnd) (hflow : src.flightSize.toNat < F.flowSize) :
    (src.windowLoop F k).2 ≠ [] := by
  cases k with
  | zero => exact absurd rfl hk
  | succ k =>
    rw [Source.windowLoop, if_pos ⟨hcwnd, hflow⟩]
    intro he
    have hlen := (h.sendPacket hcwnd hflow 0).2.2
    rw [(List.append_eq_nil_iff.mp he).1] at hlen
    cases hlen

/-- Counting feedback changes nothing that decides what is sent. -/
theorem countFeedback_eq (F : Flow) (src : Source) (fb : FeedbackType) :
    (src.countFeedback F fb).lastPull = src.lastPull ∧
      (src.countFeedback F fb).packetsSent = src.packetsSent ∧
      (src.countFeedback F fb).highestSent = src.highestSent ∧
      (src.countFeedback F fb).rtxQueue = src.rtxQueue ∧
      (src.countFeedback F fb).flightSize = src.flightSize := by
  unfold Source.countFeedback
  split_ifs <;> exact ⟨rfl, rfl, rfl, rfl, rfl⟩

theorem pullPackets_if (F : Flow) (src : Source) (pull : Bool) (pullNo pacerNo : ℕ) :
    (if pull then src.pullPackets F pullNo pacerNo else (src, [])) =
      src.pullLoop F pacerNo ((if pull then pullNo else 0) - src.lastPull) := by
  cases pull with
  | false => simp [Source.pullLoop]
  | true => simp [Source.pullPackets]

/-- A packet for the source is housekeeping and then a turn of `pull_packets`. -/
theorem receivePacket_eq (F : Flow) (src : Source) {p : Packet} (hp : p.isData = false) :
    ∃ (src' : Source) (pacerNo : ℕ),
      src.receivePacket F p = src'.pullLoop F pacerNo (p.credit - src.lastPull) ∧
      src'.lastPull = src.lastPull ∧ src'.packetsSent = src.packetsSent ∧
      src'.highestSent = src.highestSent ∧ src'.rtxQueue = src.rtxQueue ++ p.requeued F ∧
      src'.flightSize = src.flightSize - .ofNat 32 (p.acks.length * F.mss) := by
  have hzero (b : BitVec 32) : b = b - .ofNat 32 (0 * F.mss) := by
    rw [Nat.zero_mul]
    exact (BitVec.sub_zero b).symm
  cases p with
  | ndp p => simp [Packet.isData] at hp
  | pull p => exact ⟨_, _, rfl, rfl, rfl, rfl, (List.append_nil _).symm, hzero _⟩
  | ack r =>
    set s : Source := { src with
      pullWindow := src.pullWindow + 1, firstWindowCount := src.firstWindowCount - 1 }
    obtain ⟨hpull, hsent, hhigh, hrtx, hflight⟩ := countFeedback_eq F
      { s with pullWindow := if r.pull then s.pullWindow - 1 else s.pullWindow } .ack
    have hloop := pullPackets_if F (s.noteAck F r) r.pull r.pullno r.pacerno
    rw [show (s.noteAck F r).lastPull = src.lastPull from hpull] at hloop
    refine ⟨s.noteAck F r, r.pacerno, hloop, hpull, hsent, hhigh,
      hrtx.trans (List.append_nil _).symm, ?_⟩
    rw [Source.noteAck, hflight, Packet.acks, List.length_singleton, Nat.one_mul]
  | nack r =>
    set s : Source := { src with
      pullWindow := src.pullWindow + 1, firstWindowCount := src.firstWindowCount - 1 }
    obtain ⟨hpull, hsent, hhigh, hrtx, hflight⟩ := countFeedback_eq F s .nack
    have hloop := pullPackets_if F (s.noteNack F r) r.pull r.pullno r.pacerno
    rw [show (s.noteNack F r).lastPull = src.lastPull from hpull] at hloop
    refine ⟨s.noteNack F r, r.pacerno, hloop, hpull, hsent, hhigh, ?_, hflight.trans (hzero _)⟩
    rw [Source.noteNack, hrtx]
    rfl

end Source

end P4Survey.Ndp
