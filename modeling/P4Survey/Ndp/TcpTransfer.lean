import P4Survey.Ndp.TcpLaws
import P4Survey.Ndp.Reassembly

/-! # A TCP transfer over a network that loses, repeats and reorders

`TcpSrc` and `TcpSink` of `tcp.cpp`, with the retransmission timer of the source. The
network keeps each segment and each ACK that was sent and may deliver it at any time,
any number of times or never; it may also lose all of them. Whatever it does, the
source never takes a byte for delivered that the sink does not have, and the sink
never acknowledges a byte that was not sent. As long as the laws of the window hold
the transfer can also be finished, with nothing that is in flight now.
-/

namespace P4Survey.Ndp

open Lib

namespace TcpSrc

variable (F : TcpFlow) (s : TcpSrc)

/-- Whether `retransmit_packet` is called. -/
def resends : Event → Bool
  | .ack seqno _ =>
    if seqno < s.lastAcked then false
    else if s.lastAcked < seqno then s.inFastRecovery && decide (seqno < s.recoverq)
    else !s.inFastRecovery && decide ((s.dupacks + 1) % 2 ^ 16 = 3) && decide (s.recoverq ≤ s.lastAcked)
  | .timeout => true

def syn : TcpPacket := ⟨1, 0, 1⟩

/-- A packet of the flow. The `data_seqno` is 0 outside of multipath connections. -/
def segment (seqno : ℕ) : TcpPacket := ⟨seqno, 0, F.mss⟩

/-- The packets that a step to `s'` has sent. -/
def emits (a : Event) (s' : TcpSrc) : List TcpPacket :=
  if s'.established then
    (if s.resends a then [segment F (s'.lastAcked + 1)] else []) ++ s'.burst.map (segment F)
  else (if s.resends a then [syn] else []) ++ s'.burst.map fun _ => syn

/-- Whether the timer runs after a step to `s'`: an ACK for all that was sent stops it, and a
packet starts it, but not a SYN that is sent again. -/
def arms (armed : Bool) (a : Event) (s' : TcpSrc) : Bool :=
  match a with
  | .ack seqno _ =>
    (if s.lastAcked < seqno then decide (seqno < s.highestSent) else armed) ||
      !s'.burst.isEmpty || (s.resends a && s'.established)
  | .timeout => armed || s'.established

end TcpSrc

deriving instance DecidableEq for TcpPacket

/-- Both ends and the network. `pending` is `_rtx_timeout_pending`. The last field is not read:
the segments that the sink has got. -/
structure TcpTransfer where
  src : TcpSrc
  armed : Bool
  pending : Bool
  sink : TcpSink
  segments : List TcpPacket
  acks : List ℕ
  arrived : List TcpPacket

namespace TcpTransfer

inductive Label where
  | segment (p : TcpPacket)
  | ack (seqno m : ℕ)
  | expire
  | timeout
  | lose
  deriving DecidableEq

variable (F : TcpFlow) (t : TcpTransfer)

def start : TcpTransfer :=
  ⟨TcpSrc.startflow F, true, false, TcpSink.initial, [TcpSrc.syn], [], []⟩

/-- The sink answers each segment with an ACK. -/
def deliver (p : TcpPacket) : TcpTransfer :=
  let sink := t.sink.receivePacket p
  { t with sink := sink, acks := sink.cumulativeAck :: t.acks, arrived := t.arrived ++ [p] }

def act (a : TcpSrc.Event) : Option TcpTransfer :=
  (t.src.step F a).map fun src =>
    { t with
      src := src
      armed := t.src.arms t.armed a src
      segments := t.src.emits F a src ++ t.segments }

/-- The network loses everything. -/
def lost : TcpTransfer := { t with segments := [], acks := [] }

/-- `rtx_timer_hook` finds a timeout and schedules its event. -/
def expire : TcpTransfer := { t with armed := true, pending := true }

def step : Label → Option TcpTransfer
  | .segment p => some (t.deliver p)
  | .ack seqno m => t.act F (.ack seqno m)
  | .expire => some t.expire
  | .timeout => ({ t with pending := false }).act F .timeout
  | .lose => some t.lost

/-- No sequence number wraps around 64 bits. -/
def Possible : Label → Prop
  | .segment p => p ∈ t.segments
  | .ack seqno _ => seqno ∈ t.acks ∧ t.src.top + F.mss < 2 ^ 64
  | .expire => t.armed = true ∧ t.pending = false ∧ t.src.highestSent ≠ 0
  | .timeout => t.pending = true ∧ t.src.top + F.mss < 2 ^ 64
  | .lose => True

instance decidablePossible : (a : Label) → Decidable (t.Possible F a)
  | .segment p => inferInstanceAs (Decidable (p ∈ t.segments))
  | .ack seqno _ => inferInstanceAs (Decidable (seqno ∈ t.acks ∧ t.src.top + F.mss < 2 ^ 64))
  | .expire =>
    inferInstanceAs (Decidable (t.armed = true ∧ t.pending = false ∧ t.src.highestSent ≠ 0))
  | .timeout => inferInstanceAs (Decidable (t.pending = true ∧ t.src.top + F.mss < 2 ^ 64))
  | .lose => isTrue trivial

def transfer : System (Option TcpTransfer) Label where
  init t := t = some (start F)
  enabled t a := ∃ u ∈ t, u.Possible F a
  next t a := t.bind fun t => t.step F a

instance decidableEnabled : (s : Option TcpTransfer) → (a : Label) →
    Decidable ((transfer F).enabled s a)
  | none, _ => isFalse fun h => nomatch h.choose_spec.1
  | some t, a => decidable_of_iff (t.Possible F a)
      ⟨fun h => ⟨t, rfl, h⟩, fun h => h.elim fun _ hu => Option.some.inj hu.1 ▸ hu.2⟩

end TcpTransfer

namespace TcpSrc

variable {F : TcpFlow} {s s' : TcpSrc}

/-! ## What a step of the source sends -/

/-- A number that ends the SYN or a packet of the flow. -/
def Boundary (F : TcpFlow) (x : ℕ) : Prop := ∃ k, x = k * F.mss + 1

theorem Boundary.next {x : ℕ} (h : Boundary F x) : Boundary F (x + F.mss) := by
  obtain ⟨k, rfl⟩ := h
  exact ⟨k + 1, by ring⟩

/-- Before the handshake only the SYN has been sent, and after it only whole packets. -/
structure Aligned (F : TcpFlow) (s : TcpSrc) : Prop where
  lastAcked_le : s.lastAcked ≤ s.highestSent
  highestSent_le : s.highestSent ≤ s.top
  syn : s.established = false → s.lastAcked = 0 ∧ s.highestSent = 1 ∧ s.top = 1
  lastAcked : s.established = true → Boundary F s.lastAcked
  highestSent : s.established = true → Boundary F s.highestSent

/-- What there is to know of a segment on the wire. -/
def Wire (F : TcpFlow) (s : TcpSrc) (p : TcpPacket) : Prop :=
  p = syn ∨ s.established = true ∧ ∃ x, Boundary F x ∧ p = segment F (x + 1) ∧ x + F.mss ≤ s.top

/-- The fields that decide what is sent are the same. -/
structure Alike (s s' : TcpSrc) : Prop where
  highestSent : s'.highestSent = s.highestSent
  lastAcked : s'.lastAcked = s.lastAcked
  established : s'.established = s.established
  top : s'.top = s.top
  burst : s'.burst = s.burst

theorem Aligned.alike (h : Aligned F s) (hs : Alike s s') : Aligned F s' := by
  constructor
  · rw [hs.lastAcked, hs.highestSent]
    exact h.lastAcked_le
  · rw [hs.highestSent, hs.top]
    exact h.highestSent_le
  · rw [hs.established, hs.lastAcked, hs.highestSent, hs.top]
    exact h.syn
  · rw [hs.established, hs.lastAcked]
    exact h.lastAcked
  · rw [hs.established, hs.highestSent]
    exact h.highestSent

/-- From `s`, packets are sent, and the packet above the last ACK once more if `again` says so. -/
structure Sends (F : TcpFlow) (again : Bool) (s s' : TcpSrc) : Prop where
  lastAcked : s'.lastAcked = s.lastAcked
  established : s'.established = s.established
  aligned : Aligned F s'
  top_le : s.top ≤ s'.top
  le_top : ∀ b, s.top ≤ b → F.flowSize + 1 ≤ b → (again = true → s.lastAcked + F.mss ≤ b) →
    s'.top ≤ b
  again : again = true → s.established = true → s.lastAcked + F.mss ≤ s'.top
  burst : s.established = true → ∀ seqno ∈ s'.burst, ∃ x, Boundary F x ∧ seqno = x + 1 ∧
    x + F.mss ≤ s'.top

theorem Sends.trans {b : Bool} {u : TcpSrc} (h : Sends F b s u) (h' : Sends F false u s') :
    Sends F b s s' where
  lastAcked := h'.lastAcked.trans h.lastAcked
  established := h'.established.trans h.established
  aligned := h'.aligned
  top_le := h.top_le.trans h'.top_le
  le_top b hs hflow hagain := h'.le_top b (h.le_top b hs hflow hagain) hflow nofun
  again hb hest := (h.again hb hest).trans h'.top_le
  burst hest := h'.burst (h.established.trans hest)

theorem Sends.alike {b : Bool} {u : TcpSrc} (h : Sends F b s u) (hu : Alike u s') :
    Sends F b s s' where
  lastAcked := hu.lastAcked.trans h.lastAcked
  established := hu.established.trans h.established
  aligned := h.aligned.alike hu
  top_le := h.top_le.trans_eq hu.top.symm
  le_top b hs hflow hagain := hu.top ▸ h.le_top b hs hflow hagain
  again hb hest := hu.top ▸ h.again hb hest
  burst := by
    rw [hu.burst, hu.top]
    exact h.burst

/-- Nothing is sent. -/
theorem Aligned.sends (h : Aligned F s) (hburst : s.burst = []) : Sends F false s s := by
  refine ⟨rfl, rfl, h, le_rfl, fun _ hs _ _ => hs,
    fun hagain => absurd hagain Bool.false_ne_true, fun _ seqno hseqno => ?_⟩
  rw [hburst] at hseqno
  exact absurd hseqno List.not_mem_nil

theorem sendLoop_boundary (limit : ℕ) {hs : ℕ} (h : Boundary F hs) :
    hs ≤ (sendLoop F limit hs).2 ∧ Boundary F (sendLoop F limit hs).2 ∧
      (sendLoop F limit hs).2 ≤ max hs (F.flowSize + 1) ∧
      ∀ seqno ∈ (sendLoop F limit hs).1, ∃ x, Boundary F x ∧ seqno = x + 1 ∧
        x + F.mss ≤ (sendLoop F limit hs).2 := by
  induction hs using sendLoop.induct F limit with
  | case1 hs hc ih =>
    obtain ⟨hle, hbound, hmax, hburst⟩ := ih h.next
    rw [sendLoop_next hc]
    refine ⟨(Nat.le_add_right _ _).trans hle, hbound, ?_, ?_⟩
    · rw [max_eq_right hc.2] at hmax
      exact hmax.trans (le_max_right _ _)
    · exact List.forall_mem_cons.2 ⟨⟨hs, h, rfl, hle⟩, hburst⟩
  | case2 hs hc =>
    rw [sendLoop_stop hc]
    exact ⟨le_rfl, h, le_max_left _ _, fun _ hseqno => absurd hseqno List.not_mem_nil⟩

theorem Aligned.sendPackets (h : Aligned F s) : Sends F false s (s.sendPackets F) := by
  rw [TcpSrc.sendPackets]
  by_cases hest : s.established = true
  · rw [if_pos hest]
    obtain ⟨hle, hbound, hmax, hburst⟩ := sendLoop_boundary (s.sendLimit F) (h.highestSent hest)
    refine ⟨rfl, rfl, ⟨h.lastAcked_le.trans hle, le_max_right _ _, fun hfalse => ?_, h.lastAcked,
      fun _ => hbound⟩, le_max_left _ _, fun b hs hflow _ => ?_,
      fun hagain => absurd hagain Bool.false_ne_true, ?_⟩
    · exact absurd (hest.symm.trans hfalse) (by decide)
    · exact max_le hs (hmax.trans (max_le (h.highestSent_le.trans hs) hflow))
    · intro _ seqno hseqno
      obtain ⟨x, hx, he, hxle⟩ := hburst seqno hseqno
      exact ⟨x, hx, he, hxle.trans (le_max_right _ _)⟩
  · rw [if_neg hest]
    obtain ⟨hack, hhigh, htop⟩ := h.syn (Bool.not_eq_true _ ▸ hest)
    refine ⟨rfl, rfl, ⟨?_, le_max_right _ _, fun _ => ⟨hack, rfl, by rw [htop]; rfl⟩,
      fun ht => absurd ht hest, fun ht => absurd ht hest⟩, le_max_left _ _,
      fun b hs hflow _ => ?_, fun hagain => absurd hagain Bool.false_ne_true,
      fun ht => absurd ht hest⟩
    · exact hack.trans_le (Nat.zero_le 1)
    · exact max_le hs ((Nat.le_add_left 1 _).trans hflow)

theorem Aligned.retransmit (h : Aligned F s) (hburst : s.burst = [])
    (hs : s.retransmitPacket F = some s') : Sends F true s s' := by
  rw [retransmitPacket] at hs
  by_cases hest : s.established = true
  · rw [if_pos hest] at hs
    obtain rfl := Option.some.inj hs
    refine ⟨rfl, rfl, ⟨h.lastAcked_le, h.highestSent_le.trans (le_max_left _ _), fun hfalse => ?_,
      h.lastAcked, h.highestSent⟩, le_max_left _ _, fun b hb _ hagain => max_le hb (hagain rfl),
      fun _ _ => le_max_right _ _, fun _ seqno hseqno => ?_⟩
    · exact absurd (hest.symm.trans hfalse) (by decide)
    · change seqno ∈ s.burst at hseqno
      rw [hburst] at hseqno
      exact absurd hseqno List.not_mem_nil
  · rw [if_neg hest, if_pos (h.syn (Bool.not_eq_true _ ▸ hest)).2.1] at hs
    obtain rfl := Option.some.inj hs
    exact ⟨rfl, rfl, h, le_rfl, fun _ hb _ _ => hb, fun _ ht => absurd ht hest,
      fun ht => absurd ht hest⟩

/-! ## The parts that only change the window -/

theorem inflateWindow_alike (hs : s.inflateWindow F = some s') : Alike s s' := by
  dsimp only [inflateWindow] at hs
  split_ifs at hs with hneg hslow
  · obtain rfl := Option.some.inj hs
    exact ⟨rfl, rfl, rfl, rfl, rfl⟩
  · obtain rfl := Option.some.inj hs
    exact ⟨rfl, rfl, rfl, rfl, rfl⟩
  · dsimp only [additiveIncrease] at hs
    obtain ⟨pkts, -, hs⟩ := Option.bind_eq_some_iff.1 hs
    split_ifs at hs
    obtain ⟨increase, -, hs⟩ := Option.bind_eq_some_iff.1 hs
    obtain ⟨pkts', -, rfl⟩ := Option.map_eq_some_iff.1 hs
    split_ifs <;> exact ⟨rfl, rfl, rfl, rfl, rfl⟩

theorem sample_rtt (s : TcpSrc) (m : ℕ) : ∃ rtt, s.sample m = { s with rtt := rtt } := by
  rw [sample]
  split_ifs <;> exact ⟨_, rfl⟩

theorem leaveRecovery_alike (s : TcpSrc) : Alike s (s.leaveRecovery F) := by
  rw [leaveRecovery]
  split_ifs <;> exact ⟨rfl, rfl, rfl, rfl, rfl⟩

/-! ## The events -/

/-- The source after it has noted an ACK for new data. -/
def noted (s : TcpSrc) (seqno : ℕ) : TcpSrc :=
  { s with
    highestSent := if s.highestSent ≤ seqno then seqno else s.highestSent
    lastAcked := seqno }

/-- The ACK of the SYN is the first one that is noted. -/
theorem Aligned.noted (h : Aligned F s) {seqno : ℕ} (hseqno : Boundary F seqno)
    (hle : seqno ≤ s.top) (hnew : s.lastAcked ≤ seqno) :
    Aligned F ({ s with established := s.established || decide (seqno = 1) }.noted seqno) ∧
      (s.established || decide (seqno = 1)) = true := by
  have hopen : (s.established || decide (seqno = 1)) = true := by
    rw [Bool.or_eq_true, decide_eq_true_iff, or_iff_not_imp_left, Bool.not_eq_true]
    intro hfalse
    obtain ⟨k, rfl⟩ := hseqno
    have htop := (h.syn hfalse).2.2
    omega
  have hhigh : Boundary F s.highestSent := by
    by_cases hest : s.established = true
    · exact h.highestSent hest
    · exact ⟨0, by rw [(h.syn (Bool.not_eq_true _ ▸ hest)).2.1, Nat.zero_mul]⟩
  refine ⟨⟨?_, ?_, fun hfalse => absurd (hopen.symm.trans hfalse) (by decide), fun _ => hseqno,
    fun _ => ?_⟩, hopen⟩
  · change seqno ≤ if s.highestSent ≤ seqno then seqno else s.highestSent
    split_ifs <;> omega
  · change (if s.highestSent ≤ seqno then seqno else s.highestSent) ≤ s.top
    split_ifs
    · exact hle
    · exact h.highestSent_le
  · change Boundary F (if s.highestSent ≤ seqno then seqno else s.highestSent)
    split_ifs
    · exact hseqno
    · exact hhigh

theorem newAck_sends {seqno : ℕ} (hnoted : Aligned F (s.noted seqno)) (hburst : s.burst = [])
    (hs : s.newAck F seqno = some s') :
    Sends F (s.inFastRecovery && decide (seqno < s.recoverq)) (s.noted seqno) s' := by
  have hstill := hnoted.sends hburst
  dsimp only [TcpSrc.newAck] at hs
  by_cases hrecovery : s.inFastRecovery = false
  · rw [if_pos hrecovery] at hs
    obtain ⟨u, hu, rfl⟩ := Option.map_eq_some_iff.1 hs
    have hu' := inflateWindow_alike hu
    rw [hrecovery, Bool.false_and]
    have halike : Alike (s.noted seqno) { u with cwnd := capWindow u.cwnd } :=
      ⟨hu'.highestSent, hu'.lastAcked, hu'.established, hu'.top, hu'.burst⟩
    exact (hstill.alike halike).trans (hnoted.alike halike).sendPackets
  · rw [if_neg hrecovery] at hs
    rw [(Bool.not_eq_false _).mp hrecovery, Bool.true_and]
    by_cases hfull : s.recoverq ≤ seqno
    · rw [if_pos hfull] at hs
      obtain rfl := Option.some.inj hs
      rw [decide_eq_false (not_lt.2 hfull)]
      refine (hstill.alike ?_).trans (hnoted.alike ?_).sendPackets <;>
        exact ⟨rfl, rfl, rfl, rfl, rfl⟩
    · rw [if_neg hfull] at hs
      obtain ⟨u, hu, rfl⟩ := Option.map_eq_some_iff.1 hs
      rw [decide_eq_true (not_le.1 hfull)]
      set t : TcpSrc := { s with
        highestSent := if s.highestSent ≤ seqno then seqno else s.highestSent
        lastAcked := seqno
        cwnd := ((if (seqno - s.lastAcked) % 2 ^ 32 < s.cwnd then
          s.cwnd - (seqno - s.lastAcked) % 2 ^ 32 else 0) + F.mss) % 2 ^ 32 }
      have ht : Alike (s.noted seqno) t := ⟨rfl, rfl, rfl, rfl, rfl⟩
      have hagain : Sends F true t u := (hnoted.alike ht).retransmit hburst hu
      have hsend : Sends F true t (TcpSrc.sendPackets F u) := hagain.trans hagain.aligned.sendPackets
      exact ⟨hsend.lastAcked, hsend.established, hsend.aligned, hsend.top_le, hsend.le_top,
        hsend.again, hsend.burst⟩

theorem Aligned.beginRecovery (h : Aligned F s) (hburst : s.burst = [])
    (hs : s.beginRecovery F = some s') : Sends F true s s' := by
  obtain ⟨u, hu, rfl⟩ := Option.map_eq_some_iff.1 hs
  obtain ⟨avg, hclose⟩ := closeSawtooth_eq (s.deflateWindow F)
  rw [hclose, Option.bind_some] at hu
  set t : TcpSrc := { s.deflateWindow F with rttAvg := avg, sawtooth := 0, rttCum := 0 }
  have ht : Alike s t := ⟨rfl, rfl, rfl, rfl, rfl⟩
  have hsend : Sends F true t u := (h.alike ht).retransmit hburst hu
  have hagain : Sends F true s u := ⟨hsend.lastAcked, hsend.established, hsend.aligned,
    hsend.top_le, hsend.le_top, hsend.again, hsend.burst⟩
  exact hagain.alike ⟨rfl, rfl, rfl, rfl, rfl⟩

theorem Aligned.dupAck (h : Aligned F s) (hburst : s.burst = []) (hs : s.dupAck F = some s') :
    Sends F (!s.inFastRecovery && decide ((s.dupacks + 1) % 2 ^ 16 = 3) &&
      decide (s.recoverq ≤ s.lastAcked)) s s' := by
  have hstill := h.sends hburst
  rw [TcpSrc.dupAck] at hs
  by_cases hrecovery : s.inFastRecovery = true
  · rw [if_pos hrecovery] at hs
    obtain rfl := Option.some.inj hs
    rw [hrecovery]
    refine (hstill.alike ?_).trans (h.alike ?_).sendPackets <;> exact ⟨rfl, rfl, rfl, rfl, rfl⟩
  · rw [if_neg hrecovery] at hs
    rw [(Bool.not_eq_true _).mp hrecovery]
    have hcount : Alike s { s with dupacks := (s.dupacks + 1) % 2 ^ 16 } :=
      ⟨rfl, rfl, rfl, rfl, rfl⟩
    dsimp only at hs
    split_ifs at hs with hdup hold
    · obtain rfl := Option.some.inj hs
      rw [decide_eq_false hdup]
      exact (hstill.alike hcount).trans (h.alike hcount).sendPackets
    · obtain rfl := Option.some.inj hs
      rw [decide_eq_false (not_le.2 hold), Bool.and_false]
      exact hstill.alike hcount
    · rw [decide_eq_true (not_not.1 hdup), decide_eq_true (not_lt.1 hold)]
      have hagain := (h.alike hcount).beginRecovery hburst hs
      exact ⟨hagain.lastAcked, hagain.established, hagain.aligned, hagain.top_le, hagain.le_top,
        hagain.again, hagain.burst⟩

theorem Aligned.timeout (h : Aligned F s) (hburst : s.burst = []) (hs : s.timeout F = some s') :
    Sends F true s s' := by
  have hleave := leaveRecovery_alike (F := F) s
  rw [TcpSrc.timeout] at hs
  obtain ⟨u, hu, hclose⟩ := Option.bind_eq_some_iff.1 hs
  obtain ⟨avg, hclose'⟩ := closeSawtooth_eq u
  obtain rfl := Option.some.inj (hclose.symm.trans hclose')
  generalize s.leaveRecovery F = w at hu hleave
  obtain ⟨r, hr⟩ : ∃ r, (w.deflateWindow F).restart F = r := ⟨_, rfl⟩
  have hack : r.lastAcked = s.lastAcked := by rw [← hr, ← hleave.lastAcked]; rfl
  have hopen : r.established = s.established := by rw [← hr, ← hleave.established]; rfl
  have htop : r.top = s.top := by rw [← hr, ← hleave.top]; rfl
  have hnone : r.burst = [] := by rw [← hburst, ← hleave.burst, ← hr]; rfl
  have hhigh : r.highestSent = if s.established then s.lastAcked + F.mss else s.highestSent := by
    rw [← hr, ← hleave.established, ← hleave.lastAcked, ← hleave.highestSent]
    rfl
  rw [hr, retransmitPacket] at hu
  have hsent (seqno : ℕ) (hseqno : seqno ∈ r.burst) : False := by
    rw [hnone] at hseqno
    exact absurd hseqno List.not_mem_nil
  by_cases hest : s.established = true
  · rw [if_pos (hopen.trans hest)] at hu
    obtain rfl := Option.some.inj hu
    rw [if_pos hest] at hhigh
    have hbound := h.lastAcked hest
    have hagain : s.lastAcked + F.mss ≤ max r.top (r.lastAcked + F.mss) :=
      hack ▸ le_max_right _ _
    refine ⟨hack, hopen, ⟨?_, ?_, fun hfalse => ?_, fun _ => ?_, fun _ => ?_⟩,
      htop ▸ le_max_left _ _, fun b hb _ hle => ?_, fun _ _ => hagain,
      fun _ seqno hseqno => (hsent seqno hseqno).elim⟩
    · exact hack.trans_le (hhigh.ge.trans' (Nat.le_add_right _ _))
    · exact hhigh.trans_le hagain
    · exact absurd (hest.symm.trans (hopen.symm.trans hfalse)) (by decide)
    · exact hack.symm ▸ hbound
    · exact hhigh.symm ▸ hbound.next
    · exact max_le (htop.trans_le hb) (hack.symm ▸ hle rfl)
  · obtain ⟨hzero, hone, htop'⟩ := h.syn (Bool.not_eq_true _ ▸ hest)
    rw [if_neg hest] at hhigh
    rw [if_neg (hopen ▸ hest), if_pos (hhigh.trans hone)] at hu
    obtain rfl := Option.some.inj hu
    exact ⟨hack, hopen, ⟨hack.trans_le (hzero.trans_le (Nat.zero_le _)),
      hhigh.trans_le (h.highestSent_le.trans_eq htop.symm),
      fun _ => ⟨hack.trans hzero, hhigh.trans hone, htop.trans htop'⟩,
      fun ht => absurd (hopen.symm.trans ht) hest, fun ht => absurd (hopen.symm.trans ht) hest⟩,
      htop.ge, fun b hb _ _ => htop.trans_le hb, fun _ ht => absurd ht hest,
      fun ht => absurd ht hest⟩

/-- Whether the source regards the flow as delivered: no whole packet of it is left. -/
def Finished (F : TcpFlow) (s : TcpSrc) : Prop := F.flowSize + 1 < s.lastAcked + F.mss

/-- What an event may be: the ACKs are for what was sent. -/
def Fair (F : TcpFlow) (s : TcpSrc) : Event → Prop
  | .ack seqno _ => Boundary F seqno ∧ seqno ≤ s.top
  | .timeout => True

/-- The last ACK after an event. -/
def acked (s : TcpSrc) : Event → ℕ
  | .ack seqno _ => max s.lastAcked seqno
  | .timeout => s.lastAcked

/-- What a step of the source does to the transfer. -/
structure Steps (F : TcpFlow) (s : TcpSrc) (a : Event) (s' : TcpSrc) : Prop where
  aligned : Aligned F s'
  lastAcked : s'.lastAcked = s.acked a
  established : s.established = true → s'.established = true
  top_le : s.top ≤ s'.top
  le_top : s.top ≤ F.flowSize + 1 → ¬Finished F s' → s'.top ≤ F.flowSize + 1
  emits : ∀ p ∈ s.emits F a s', Wire F s' p
  resent : s.resends a = true → ∃ p ∈ s.emits F a s', p.seqno = s'.lastAcked + 1

theorem Sends.steps {a : Event} {u : TcpSrc} (h : Sends F (s.resends a) u s')
    (hack : u.lastAcked = s.acked a) (hest : s.established = true → u.established = true)
    (htop : u.top = s.top) : Steps F s a s' := by
  have hopen (hs' : s'.established = true) : u.established = true := h.established.symm.trans hs'
  refine ⟨h.aligned, h.lastAcked.trans hack, fun hs => h.established.trans (hest hs),
    htop.ge.trans h.top_le, fun hs hfin => ?_, fun p hp => ?_, fun hagain => ?_⟩
  · rw [Finished, not_lt, h.lastAcked] at hfin
    exact h.le_top _ (htop.trans_le hs) le_rfl fun _ => hfin
  · rw [emits] at hp
    by_cases hs' : s'.established = true
    · rw [if_pos hs', List.mem_append] at hp
      refine .inr ⟨hs', ?_⟩
      rcases hp with hp | hp
      · by_cases hagain : s.resends a = true
        · rw [if_pos hagain, List.mem_singleton] at hp
          refine ⟨s'.lastAcked, h.aligned.lastAcked hs', hp, ?_⟩
          rw [h.lastAcked]
          exact h.again hagain (hopen hs')
        · rw [if_neg hagain] at hp
          exact absurd hp List.not_mem_nil
      · obtain ⟨seqno, hseqno, rfl⟩ := List.mem_map.1 hp
        obtain ⟨x, hx, rfl, hle⟩ := h.burst (hopen hs') seqno hseqno
        exact ⟨x, hx, rfl, hle⟩
    · rw [if_neg hs', List.mem_append] at hp
      left
      rcases hp with hp | hp
      · split_ifs at hp
        · exact List.mem_singleton.1 hp
        · exact absurd hp List.not_mem_nil
      · obtain ⟨seqno, -, rfl⟩ := List.mem_map.1 hp
        rfl
  · rw [emits, if_pos hagain, if_pos hagain]
    by_cases hs' : s'.established = true
    · rw [if_pos hs']
      exact ⟨_, List.mem_append_left _ (List.mem_singleton_self _), rfl⟩
    · rw [if_neg hs', (h.aligned.syn (Bool.not_eq_true _ ▸ hs')).1]
      exact ⟨_, List.mem_append_left _ (List.mem_singleton_self _), rfl⟩

theorem Aligned.step (h : Aligned F s) {a : Event} (ha : s.Fair F a) (hs : s.step F a = some s') :
    Steps F s a s' := by
  have hreset : Aligned F { s with burst := [] } := ⟨h.lastAcked_le, h.highestSent_le, h.syn, h.lastAcked, h.highestSent⟩
  cases a with
  | timeout =>
    have hsend : Sends F (s.resends .timeout) { s with burst := [] } s' := hreset.timeout rfl hs
    exact hsend.steps rfl id rfl
  | ack seqno m =>
    obtain ⟨hbound, hle⟩ := ha
    change receivePacket F { s with burst := [] } seqno m = some s' at hs
    rw [receivePacket] at hs
    by_cases hold : seqno < s.lastAcked
    · rw [if_pos hold] at hs
      obtain rfl := Option.some.inj hs
      have hresends : s.resends (.ack seqno m) = false := if_pos hold
      have hsend := hreset.sends rfl
      rw [← hresends] at hsend
      exact hsend.steps (max_eq_left hold.le).symm id rfl
    · rw [if_neg hold] at hs
      dsimp only at hs
      obtain ⟨hnoted, hopen⟩ := hreset.noted hbound hle (not_lt.1 hold)
      obtain ⟨rtt, hsample⟩ := sample_rtt
        { s with burst := [], established := s.established || decide (seqno = 1) } m
      rw [hsample] at hs
      by_cases hnew : s.lastAcked < seqno
      · rw [if_pos hnew] at hs
        have hresends : s.resends (.ack seqno m) =
            (s.inFastRecovery && decide (seqno < s.recoverq)) := by
          rw [resends, if_neg hold, if_pos hnew]
        have hnoted' : Aligned F (TcpSrc.noted { s with
            burst := [], established := s.established || decide (seqno = 1), rtt := rtt } seqno) :=
          ⟨hnoted.lastAcked_le, hnoted.highestSent_le, hnoted.syn, hnoted.lastAcked,
            hnoted.highestSent⟩
        have hsend := newAck_sends hnoted' rfl hs
        rw [← hresends] at hsend
        exact hsend.steps (max_eq_right hnew.le).symm (fun _ => hopen) rfl
      · rw [if_neg hnew] at hs
        obtain rfl : seqno = s.lastAcked := le_antisymm (not_lt.1 hnew) (not_lt.1 hold)
        -- an ACK that is not new comes after the handshake
        have hest : s.established = true := by
          by_contra hfalse
          obtain ⟨k, hk⟩ := hbound
          have hzero := (h.syn (Bool.not_eq_true _ ▸ hfalse)).1
          omega
        have hresends : s.resends (.ack s.lastAcked m) = (!s.inFastRecovery &&
            decide ((s.dupacks + 1) % 2 ^ 16 = 3) && decide (s.recoverq ≤ s.lastAcked)) := by
          rw [resends, if_neg hold, if_neg hnew]
        have halike : Alike { s with burst := [] } { s with
            burst := [], established := s.established || decide (s.lastAcked = 1), rtt := rtt } :=
          ⟨rfl, rfl, hopen.trans hest.symm, rfl, rfl⟩
        have hsend := (hreset.alike halike).dupAck rfl hs
        rw [← hresends] at hsend
        exact hsend.steps (max_self _).symm (fun _ => hopen) rfl

end TcpSrc

/-! ## The SYN at the sink -/

attribute [ext] Sink

namespace Sink

/-- The byte of the SYN comes before those of the packets. -/
def afterSyn (k : Sink) : Sink :=
  { k with cumulativeAck := k.cumulativeAck + 1, received := k.received.map (· + 1) }

theorem advance_succ (size n : ℕ) (l : List ℕ) :
    advance size (n + 1) (l.map (· + 1)) =
      ((advance size n l).1 + 1, (advance size n l).2.map (· + 1)) := by
  induction l generalizing n with
  | nil => rfl
  | cons x l ih =>
    rw [List.map_cons, advance, advance]
    by_cases h : x = n + 1
    · rw [if_pos h, if_pos (congrArg (· + 1) h), Nat.add_right_comm, ih]
    · rw [if_neg h, if_neg fun he => h (Nat.add_right_cancel he)]
      rfl

theorem insertHole_succ (x : ℕ) (l : List ℕ) :
    insertHole (x + 1) (l.map (· + 1)) = (insertHole x l).map (· + 1) := by
  induction l with
  | nil => rfl
  | cons y l ih =>
    rw [List.map_cons, insertHole, insertHole]
    split_ifs <;> first | omega | rfl | rw [ih, List.map_cons]

theorem record_afterSyn {size : ℕ} (hsize : 0 < size) (k : Sink) (x : ℕ) :
    k.afterSyn.record size (x + 1) = (k.record size x).afterSyn := by
  obtain ⟨n, l, _, _⟩ := k
  dsimp only [record, afterSyn]
  by_cases hnext : x = n + 1
  · have hend : x + 1 + size - 1 = x + size - 1 + 1 := by omega
    rw [if_pos hnext, if_pos (congrArg (· + 1) hnext), hend, advance_succ]
  · rw [if_neg hnext, if_neg fun he => hnext (Nat.add_right_cancel he)]
    by_cases hold : x < n + 1
    · rw [if_pos hold, if_pos (Nat.add_lt_add_right hold 1)]
    · rw [if_neg hold, if_neg fun hlt => hold (Nat.lt_of_add_lt_add_right hlt), List.getLast?_map]
      cases hback : l.getLast? with
      | none => rfl
      | some back =>
        dsimp only [Option.map_some]
        by_cases hlast : back < x
        · rw [if_pos hlast, if_pos (Nat.add_lt_add_right hlast 1), List.map_append]
          rfl
        · rw [if_neg hlast, if_neg fun hlt => hlast (Nat.lt_of_add_lt_add_right hlt),
            insertHole_succ]

end Sink

namespace TcpSink

/-- What a sink has of the SYN and of packets of `F.mss` bytes. -/
def Collected (F : TcpFlow) (arrived : List TcpPacket) (k : TcpSink) : Prop :=
  arrived = [] ∧ k.cumulativeAck = 0 ∧ k.received = [] ∨
    TcpSrc.syn ∈ arrived ∧ ∃ (b : Sink) (n : ℕ), k.view = b.afterSyn ∧ b.Ordered F.mss n ∧
      ∀ j, b.Got F.mss j ↔ TcpSrc.segment F (j * F.mss + 2) ∈ arrived

variable {F : TcpFlow} {arrived : List TcpPacket} {k : TcpSink}

theorem receivePacket_view (k : TcpSink) (p : TcpPacket) :
    (k.receivePacket p).view = k.view.record p.size p.seqno := by
  obtain ⟨hpull, hlast⟩ := Sink.record_eq p.size p.seqno k.view
  apply Sink.ext
  · rfl
  · rfl
  · exact hpull.symm
  · exact hlast.symm

theorem Collected.boundary (h : Collected F arrived k) (hpos : 0 < k.cumulativeAck) :
    TcpSrc.Boundary F k.cumulativeAck := by
  obtain ⟨-, hzero, -⟩ | ⟨-, b, n, hb, hordered, -⟩ := h
  · exact absurd hzero hpos.ne'
  · refine ⟨n, ?_⟩
    rw [← hordered.cumulativeAck]
    exact congrArg Sink.cumulativeAck hb

theorem segment_ne_syn (x : ℕ) : TcpSrc.segment F (x + 2) ≠ TcpSrc.syn := by
  intro h
  have hseqno := congrArg TcpPacket.seqno h
  change x + 2 = 1 at hseqno
  omega

theorem segment_inj {i j : ℕ} :
    TcpSrc.segment F (i * F.mss + 2) = TcpSrc.segment F (j * F.mss + 2) ↔ i = j := by
  refine ⟨fun h => ?_, fun h => h ▸ rfl⟩
  have hseqno : i * F.mss + 2 = j * F.mss + 2 := congrArg TcpPacket.seqno h
  exact (Nat.mul_left_inj F.mss_pos.ne').1 (Nat.add_right_cancel hseqno)

theorem Collected.syn (h : Collected F arrived k) :
    Collected F (arrived ++ [TcpSrc.syn]) (k.receivePacket TcpSrc.syn) ∧
      k.cumulativeAck ≤ (k.receivePacket TcpSrc.syn).cumulativeAck ∧
      0 < (k.receivePacket TcpSrc.syn).cumulativeAck := by
  have hview := k.receivePacket_view TcpSrc.syn
  have hmem : TcpSrc.syn ∈ arrived ++ [TcpSrc.syn] :=
    List.mem_append_right _ (List.mem_singleton_self _)
  obtain ⟨rfl, hack, hreceived⟩ | ⟨-, b, n, hb, hordered, hgot⟩ := h
  · have hk : k.view = Sink.initial := Sink.ext hack hreceived rfl rfl
    have hfirst : (k.receivePacket TcpSrc.syn).view = Sink.initial.afterSyn := by
      rw [hview, hk]
      rfl
    have hone : (k.receivePacket TcpSrc.syn).cumulativeAck = 1 :=
      congrArg Sink.cumulativeAck hfirst
    have htracks := Sink.tracks_initial F.mss_pos
    refine ⟨.inr ⟨hmem, _, 0, hfirst, htracks.ordered, fun j => ?_⟩, ?_, ?_⟩
    · rw [htracks.got_iff, List.nil_append, List.mem_singleton]
      exact iff_of_false List.not_mem_nil (segment_ne_syn _)
    · rw [hack]
      exact Nat.zero_le _
    · rw [hone]
      exact Nat.one_pos
  · have hack : k.cumulativeAck = b.cumulativeAck + 1 := congrArg Sink.cumulativeAck hb
    have hsame : (k.receivePacket TcpSrc.syn).view = k.view := by
      rw [hview]
      change k.view.record 1 1 = k.view
      rw [Sink.record, if_neg, if_pos]
      · change 1 < k.cumulativeAck + 1
        omega
      · change ¬1 = k.cumulativeAck + 1
        omega
    have hack' : (k.receivePacket TcpSrc.syn).cumulativeAck = k.cumulativeAck :=
      congrArg Sink.cumulativeAck hsame
    refine ⟨.inr ⟨hmem, b, n, hsame.trans hb, hordered, fun j => ?_⟩, hack'.ge, ?_⟩
    · rw [hgot, List.mem_append, List.mem_singleton, or_iff_left (segment_ne_syn _)]
    · rw [hack', hack]
      exact Nat.succ_pos _

/-- The next packet moves the acknowledgement on. -/
theorem Collected.segment (h : Collected F arrived k) (hsyn : 0 < k.cumulativeAck) (j : ℕ) :
    Collected F (arrived ++ [TcpSrc.segment F (j * F.mss + 2)])
        (k.receivePacket (TcpSrc.segment F (j * F.mss + 2))) ∧
      k.cumulativeAck ≤ (k.receivePacket (TcpSrc.segment F (j * F.mss + 2))).cumulativeAck ∧
      (k.cumulativeAck = j * F.mss + 1 →
        k.cumulativeAck < (k.receivePacket (TcpSrc.segment F (j * F.mss + 2))).cumulativeAck) := by
  obtain ⟨-, hzero, -⟩ | ⟨hmem, b, n, hb, hordered, hgot⟩ := h
  · exact absurd hzero hsyn.ne'
  · obtain ⟨m, hle, hordered', hgot'⟩ := hordered.record F.mss_pos j
    have hview : (k.receivePacket (TcpSrc.segment F (j * F.mss + 2))).view =
        (b.record F.mss (j * F.mss + 1)).afterSyn := by
      rw [receivePacket_view, hb]
      exact Sink.record_afterSyn F.mss_pos b (j * F.mss + 1)
    have hack : k.cumulativeAck = n * F.mss + 1 := by
      rw [← hordered.cumulativeAck]
      exact congrArg Sink.cumulativeAck hb
    have hack' : (k.receivePacket (TcpSrc.segment F (j * F.mss + 2))).cumulativeAck =
        m * F.mss + 1 := by
      rw [← hordered'.cumulativeAck]
      exact congrArg Sink.cumulativeAck hview
    refine ⟨.inr ⟨List.mem_append_left _ hmem, _, m, hview, hordered', fun i => ?_⟩, ?_, ?_⟩
    · rw [hgot', hgot, List.mem_append, List.mem_singleton, segment_inj]
    · rw [hack, hack']
      exact Nat.add_le_add_right (Nat.mul_le_mul_right _ hle) 1
    · intro hnext
      rw [hack] at hnext
      obtain rfl : n = j := (Nat.mul_left_inj F.mss_pos.ne').1 (Nat.add_right_cancel hnext)
      have hmissing := hordered'.not_got F.mss_pos
      have hlt : n < m := by
        refine lt_of_le_of_ne hle fun he => hmissing ?_
        rw [hgot']
        exact .inr he.symm
      rw [hack, hack']
      exact Nat.add_lt_add_right (Nat.mul_lt_mul_of_pos_right hlt F.mss_pos) 1

end TcpSink

namespace TcpTransfer

variable {F : TcpFlow} {t t' : TcpTransfer}

/-! ## What the network cannot break -/

structure Inv (F : TcpFlow) (t : TcpTransfer) : Prop where
  src : t.src.Aligned F
  segments : ∀ p ∈ t.segments, t.src.Wire F p
  arrived : ∀ p ∈ t.arrived, t.src.Wire F p
  acks : ∀ a ∈ t.acks, TcpSrc.Boundary F a ∧ a ≤ t.sink.cumulativeAck
  lastAcked : t.src.lastAcked ≤ t.sink.cumulativeAck
  sink : t.sink.Collected F t.arrived

theorem TcpSrc.Wire.steps {s s' : TcpSrc} {a : TcpSrc.Event} {p : TcpPacket} (h : s.Wire F p)
    (hs : s.Steps F a s') : s'.Wire F p := by
  rcases h with rfl | ⟨hest, x, hx, rfl, hle⟩
  · exact .inl rfl
  · exact .inr ⟨hs.established hest, x, hx, rfl, hle.trans hs.top_le⟩

theorem Inv.one_le_top (h : Inv F t) : 1 ≤ t.src.top := by
  by_cases hest : t.src.established = true
  · obtain ⟨k, hk⟩ := h.src.highestSent hest
    have hle := h.src.highestSent_le
    omega
  · exact (h.src.syn (Bool.not_eq_true _ ▸ hest)).2.2.ge

/-- The sink acknowledges nothing that was not sent. -/
theorem Inv.cumulativeAck_le (h : Inv F t) : t.sink.cumulativeAck ≤ t.src.top := by
  obtain ⟨-, hzero, -⟩ | ⟨-, b, n, hb, hordered, hgot⟩ := h.sink
  · exact hzero.trans_le (Nat.zero_le _)
  · have hack : t.sink.cumulativeAck = n * F.mss + 1 := by
      rw [← hordered.cumulativeAck]
      exact congrArg Sink.cumulativeAck hb
    cases n with
    | zero =>
      rw [hack, Nat.zero_mul]
      exact h.one_le_top
    | succ n =>
      have hlast : b.Got F.mss n := by
        rw [hordered.got_iff F.mss_pos]
        exact .inl (Nat.lt_succ_self n)
      obtain hsyn | ⟨-, x, -, hx, hle⟩ := h.arrived _ ((hgot n).1 hlast)
      · exact absurd hsyn (TcpSink.segment_ne_syn _)
      · have hseqno : n * F.mss + 2 = x + 1 := congrArg TcpPacket.seqno hx
        rw [hack, Nat.succ_mul]
        omega

theorem Inv.deliver (h : Inv F t) {p : TcpPacket} (hp : t.src.Wire F p) :
    Inv F (t.deliver p) ∧ t.sink.cumulativeAck ≤ (t.deliver p).sink.cumulativeAck ∧
      (p.seqno = t.sink.cumulativeAck + 1 →
        t.sink.cumulativeAck < (t.deliver p).sink.cumulativeAck) := by
  have hsink : (t.sink.receivePacket p).Collected F (t.arrived ++ [p]) ∧
      t.sink.cumulativeAck ≤ (t.sink.receivePacket p).cumulativeAck ∧
      0 < (t.sink.receivePacket p).cumulativeAck ∧ (p.seqno = t.sink.cumulativeAck + 1 →
        t.sink.cumulativeAck < (t.sink.receivePacket p).cumulativeAck) := by
    rcases hp with rfl | ⟨hest, x, ⟨j, rfl⟩, rfl, -⟩
    · obtain ⟨hcollected, hle, hpos⟩ := h.sink.syn
      refine ⟨hcollected, hle, hpos, fun hseqno => ?_⟩
      change 1 = t.sink.cumulativeAck + 1 at hseqno
      omega
    · obtain ⟨k, hk⟩ := h.src.lastAcked hest
      have hpos : 0 < t.sink.cumulativeAck := by
        have hle := h.lastAcked
        omega
      obtain ⟨hcollected, hle, hnext⟩ := h.sink.segment hpos j
      exact ⟨hcollected, hle, hpos.trans_le hle,
        fun hseqno => hnext (Nat.add_right_cancel hseqno).symm⟩
  obtain ⟨hcollected, hle, hpos, hnext⟩ := hsink
  have harrived : ∀ q ∈ t.arrived ++ [p], t.src.Wire F q :=
    List.forall_mem_append.2 ⟨h.arrived, List.forall_mem_singleton.2 hp⟩
  refine ⟨⟨h.src, h.segments, harrived, ?_, h.lastAcked.trans hle, hcollected⟩, hle, hnext⟩
  refine List.forall_mem_cons.2 ⟨⟨hcollected.boundary hpos, le_rfl⟩, fun a ha => ?_⟩
  obtain ⟨ha, ha'⟩ := h.acks a ha
  exact ⟨ha, ha'.trans hle⟩

theorem Inv.act (h : Inv F t) {a : TcpSrc.Event} (ha : t.src.Fair F a)
    (hack : t.src.acked a ≤ t.sink.cumulativeAck) (ht : t.act F a = some t') :
    Inv F t' ∧ t.src.Steps F a t'.src := by
  obtain ⟨src, hsrc, rfl⟩ := Option.map_eq_some_iff.1 ht
  have hsteps := h.src.step ha hsrc
  refine ⟨⟨hsteps.aligned, ?_, fun p hp => ?_, h.acks, hsteps.lastAcked.trans_le hack, h.sink⟩, hsteps⟩
  · exact List.forall_mem_append.2
      ⟨hsteps.emits, fun p hp => TcpSrc.Wire.steps (h.segments p hp) hsteps⟩
  · exact TcpSrc.Wire.steps (h.arrived p hp) hsteps

theorem Inv.fair (h : Inv F t) {seqno : ℕ} (ha : seqno ∈ t.acks) (m : ℕ) :
    t.src.Fair F (.ack seqno m) ∧ t.src.acked (.ack seqno m) ≤ t.sink.cumulativeAck := by
  obtain ⟨hboundary, hle⟩ := h.acks seqno ha
  exact ⟨⟨hboundary, hle.trans h.cumulativeAck_le⟩, max_le h.lastAcked hle⟩

theorem TcpSrc.le_acked (s : TcpSrc) (a : TcpSrc.Event) : s.lastAcked ≤ s.acked a := by
  cases a with
  | ack seqno m => exact le_max_left _ _
  | timeout => exact le_rfl

theorem Inv.step (h : Inv F t) {a : Label} (ha : t.Possible F a) (ht : t.step F a = some t') :
    Inv F t' ∧ t.src.lastAcked ≤ t'.src.lastAcked ∧
      t.sink.cumulativeAck ≤ t'.sink.cumulativeAck := by
  cases a with
  | segment p =>
    obtain rfl := Option.some.inj ht
    obtain ⟨hinv, hle, -⟩ := h.deliver (h.segments p ha)
    exact ⟨hinv, le_rfl, hle⟩
  | ack seqno m =>
    obtain ⟨hfair, hle⟩ := h.fair ha.1 m
    obtain ⟨hinv, hsteps⟩ := h.act hfair hle ht
    obtain ⟨src, -, rfl⟩ := Option.map_eq_some_iff.1 ht
    exact ⟨hinv, (TcpSrc.le_acked _ _).trans_eq hsteps.lastAcked.symm, le_rfl⟩
  | expire =>
    obtain rfl := Option.some.inj ht
    exact ⟨⟨h.src, h.segments, h.arrived, h.acks, h.lastAcked, h.sink⟩, le_rfl, le_rfl⟩
  | timeout =>
    have hpending : Inv F { t with pending := false } :=
      ⟨h.src, h.segments, h.arrived, h.acks, h.lastAcked, h.sink⟩
    have hfair : t.src.Fair F .timeout := trivial
    obtain ⟨hinv, hsteps⟩ := hpending.act hfair h.lastAcked ht
    obtain ⟨src, -, rfl⟩ := Option.map_eq_some_iff.1 ht
    exact ⟨hinv, hsteps.lastAcked.ge, le_rfl⟩
  | lose =>
    obtain rfl := Option.some.inj ht
    exact ⟨⟨h.src, nofun, h.arrived, nofun, h.lastAcked, h.sink⟩, le_rfl, le_rfl⟩

theorem inv_start (F : TcpFlow) : Inv F (start F) := by
  refine ⟨⟨Nat.zero_le _, le_rfl, fun _ => ⟨rfl, rfl, rfl⟩, nofun, nofun⟩, ?_, nofun, nofun,
    le_rfl, .inl ⟨rfl, rfl, rfl⟩⟩
  exact List.forall_mem_singleton.2 (.inl rfl)

theorem inv_reachable {s : Option TcpTransfer} (hs : (transfer F).Reachable s) (ht : t ∈ s) :
    Inv F t := by
  induction hs generalizing t with
  | init h =>
    obtain rfl := Option.some.inj (h.symm.trans ht)
    exact inv_start F
  | @step s a _ hen ih =>
    obtain ⟨u, rfl, hpossible⟩ := hen
    exact ((ih rfl).step hpossible ht).1

/-- What the source and the sink know of each other. -/
structure Agreed (t : TcpTransfer) : Prop where
  lastAcked : t.src.lastAcked ≤ t.sink.cumulativeAck
  cumulativeAck : t.sink.cumulativeAck ≤ t.src.top
  acks : ∀ a ∈ t.acks, a ≤ t.sink.cumulativeAck
  covered : ∀ x, 0 < x → x ≤ t.sink.cumulativeAck →
    ∃ p ∈ t.arrived, p.seqno ≤ x ∧ x < p.seqno + p.size
  next : ∀ p ∈ t.arrived, p.seqno ≠ t.sink.cumulativeAck + 1
  received : ∀ x, x ∈ t.sink.received ↔
    t.sink.cumulativeAck + 1 < x ∧ ∃ p ∈ t.arrived, p.seqno = x
  sorted : t.sink.received.Pairwise (· < ·)

/-- A segment at a sink that has the SYN is the SYN or a packet that it counts as received. -/
theorem Inv.arrived_cases (h : Inv F t) {b : Sink}
    (hgot : ∀ j, b.Got F.mss j ↔ TcpSrc.segment F (j * F.mss + 2) ∈ t.arrived) {p : TcpPacket}
    (hp : p ∈ t.arrived) : p = TcpSrc.syn ∨ ∃ j, b.Got F.mss j ∧ p = TcpSrc.segment F (j * F.mss + 2) := by
  obtain hsyn | ⟨-, x, ⟨j, rfl⟩, rfl, -⟩ := h.arrived p hp
  · exact .inl hsyn
  · exact .inr ⟨j, (hgot j).2 hp, rfl⟩

theorem Inv.agreed (h : Inv F t) : Agreed t := by
  have hpos := F.mss_pos
  obtain ⟨hnil, hzero, hreceived⟩ | ⟨hsyn, b, n, hb, hordered, hgot⟩ := h.sink
  · refine ⟨h.lastAcked, h.cumulativeAck_le, fun a ha => (h.acks a ha).2, ?_, ?_, ?_, ?_⟩
    · intro x hx hle
      omega
    · rw [hnil]
      exact nofun
    · intro x
      simp [hnil, hreceived]
    · rw [hreceived]
      exact .nil
  · have hack : t.sink.cumulativeAck = n * F.mss + 1 := by
      rw [← hordered.cumulativeAck]
      exact congrArg Sink.cumulativeAck hb
    have hlist : t.sink.received = b.received.map (· + 1) := congrArg Sink.received hb
    refine ⟨h.lastAcked, h.cumulativeAck_le, fun a ha => (h.acks a ha).2, ?_, ?_, ?_, ?_⟩
    · intro x hx hle
      by_cases hone : x = 1
      · exact ⟨_, hsyn, hone.ge, hone.trans_lt (Nat.lt_succ_self 1)⟩
      · have hlt : (x - 2) / F.mss < n := by
          rw [Nat.div_lt_iff_lt_mul hpos]
          omega
        have hmem := (hgot _).1 ((hordered.got_iff hpos _).2 (.inl hlt))
        have hdiv := Nat.div_add_mod (x - 2) F.mss
        have hmod := Nat.mod_lt (x - 2) hpos
        rw [Nat.mul_comm] at hdiv
        refine ⟨_, hmem, ?_, ?_⟩
        · change (x - 2) / F.mss * F.mss + 2 ≤ x
          omega
        · change x < (x - 2) / F.mss * F.mss + 2 + F.mss
          omega
    · intro p hp hnext
      obtain rfl | ⟨j, hj, rfl⟩ := h.arrived_cases hgot hp
      · change 1 = _ at hnext
        omega
      · change j * F.mss + 2 = _ at hnext
        rw [hack] at hnext
        obtain rfl : j = n := (Nat.mul_left_inj hpos.ne').1 (by omega)
        exact hordered.not_got hpos hj
    · intro x
      rw [hlist, List.mem_map, hack]
      constructor
      · rintro ⟨y, hy, rfl⟩
        obtain ⟨j, hj, rfl⟩ := hordered.above y hy
        have hmem := (hgot j).1 ((hordered.got_iff hpos j).2 (.inr hy))
        have hlt := Nat.mul_lt_mul_of_pos_right hj hpos
        exact ⟨by omega, _, hmem, rfl⟩
      · rintro ⟨hlt, p, hp, rfl⟩
        obtain rfl | ⟨j, hj, rfl⟩ := h.arrived_cases hgot hp
        · change _ < 1 at hlt
          omega
        · change n * F.mss + 1 + 1 < j * F.mss + 2 at hlt
          have hnj : n < j := lt_of_mul_lt_mul_right (show n * F.mss < j * F.mss by omega) (Nat.zero_le _)
          exact ⟨_, ((hordered.got_iff hpos j).1 hj).resolve_left hnj.not_gt, rfl⟩
    · rw [hlist]
      exact hordered.sorted.map _ fun x y hlt => Nat.add_lt_add_right hlt 1

/-- No step moves an acknowledgement back. -/
theorem steps_mono {s s' : Option TcpTransfer} (hs : (transfer F).Reachable s)
    (hss' : (transfer F).Steps s s') (ht : t ∈ s) (ht' : t' ∈ s') :
    t.src.lastAcked ≤ t'.src.lastAcked ∧ t.sink.cumulativeAck ≤ t'.sink.cumulativeAck := by
  induction hss' generalizing t' with
  | refl =>
    obtain rfl := Option.some.inj (ht.symm.trans ht')
    exact ⟨le_rfl, le_rfl⟩
  | @step u a hu hen ih =>
    obtain ⟨v, rfl, hpossible⟩ := hen
    obtain ⟨hack, hsink⟩ := ih rfl
    obtain ⟨-, hack', hsink'⟩ := (inv_reachable (hs.steps hu) rfl).step hpossible ht'
    exact ⟨hack.trans hack', hsink.trans hsink'⟩

/-- Whatever the network loses, repeats or reorders: the source takes only bytes for delivered
that have arrived, the sink acknowledges all of the prefix that has arrived and nothing else,
and neither goes back. -/
theorem transfer_safe (F : TcpFlow) {t : TcpTransfer} (ht : (transfer F).Reachable (some t)) :
    Agreed t ∧ ∀ t', (transfer F).Steps (some t) (some t') →
      t.src.lastAcked ≤ t'.src.lastAcked ∧ t.sink.cumulativeAck ≤ t'.sink.cumulativeAck :=
  ⟨(inv_reachable ht rfl).agreed, fun _ hsteps => steps_mono ht hsteps rfl rfl⟩

/-- A flow of two packets. -/
def shortFlow : TcpFlow := ⟨1000, 2000, -1, by norm_num, by norm_num⟩

/-- The SYN comes twice, the second packet before the first one, which has to be sent again. -/
def overtaken : List Label :=
  [.segment TcpSrc.syn, .segment TcpSrc.syn, .ack 1 8, .segment ⟨1002, 0, 1000⟩, .lose, .expire,
    .timeout, .segment ⟨2, 0, 1000⟩]

theorem transfer_safe_overtaken : ∃ t, (transfer shortFlow).run (some (start shortFlow)) overtaken =
    some t ∧ t.sink.cumulativeAck = 2001 ∧ Agreed t := by
  have hs : (transfer shortFlow).Reachable
      ((transfer shortFlow).run (some (start shortFlow)) overtaken) :=
    (System.Reachable.init rfl).run (by decide +kernel)
  have hack : (((transfer shortFlow).run (some (start shortFlow)) overtaken).map
      (·.sink.cumulativeAck)) = some 2001 := by decide +kernel
  obtain ⟨t, ht, hack⟩ := Option.map_eq_some_iff.1 hack
  rw [ht] at hs
  exact ⟨t, ht, hack, (transfer_safe shortFlow hs).1⟩

end TcpTransfer

namespace TcpSrc

variable {F : TcpFlow} {s s' : TcpSrc}

/-! ## The timer -/

/-- A call of `send_packets` with nothing outstanding and a packet left sends that packet. -/
theorem sendPackets_burst (happ : F.appLimited < 0) (hest : s.established = true)
    (hcwnd : F.mss ≤ s.cwnd) (hfits : s.cwnd < 2 ^ 31) (hack : s.lastAcked < 2 ^ 32)
    (hall : s.highestSent = s.lastAcked) (hmore : s.lastAcked + F.mss ≤ F.flowSize + 1) :
    (s.sendPackets F).burst ≠ [] := by
  rw [sendPackets, if_pos hest]
  change (sendLoop F (s.sendLimit F) s.highestSent).1 ≠ []
  have hlimit := sendLimit_int (F := F) happ hfits hack
  rw [sendLoop_next (by rw [hlimit, hall]; exact ⟨Nat.add_le_add_left hcwnd _, hmore⟩)]
  exact List.cons_ne_nil _ _

/-- An ACK for all that was sent leads to a packet, if there is one left. -/
theorem Inv.newAck_burst (h : Inv F s) (happ : F.appLimited < 0) (hest : s.established = true)
    (hrtt : 0 < s.rtt) (hfits : s.cwnd + F.mss < 2 ^ 31) (hwrap : s.top + F.mss < 2 ^ 32)
    {seqno : ℕ} (hseqno : seqno ≤ s.top) (hall : s.highestSent ≤ seqno)
    (hmore : seqno + F.mss ≤ F.flowSize + 1)
    (hfull : s.inFastRecovery = true → s.recoverq ≤ seqno) (hs : s.newAck F seqno = some s') :
    s'.burst ≠ [] := by
  have hmss := F.mss_lt
  have hlt : seqno < 2 ^ 32 := by omega
  dsimp only [TcpSrc.newAck] at hs
  rw [if_pos hall] at hs
  by_cases hrecovery : s.inFastRecovery = false
  · rw [if_pos hrecovery] at hs
    have hreset : Inv F { s with highestSent := seqno, lastAcked := seqno, dupacks := 0 } :=
      ⟨h.cwnd, h.cwnd_lt, h.ssthresh, h.ssthresh_lt, h.recovery, le_rfl, hseqno,
        fun hfalse => absurd (hest.symm.trans hfalse) (by decide)⟩
    obtain ⟨cwnd, cum, saw, heq, hlow, hhigh⟩ := inflateWindow_eq hreset hfits hrtt
    change s.cwnd ≤ cwnd at hlow
    change cwnd ≤ s.cwnd + F.mss at hhigh
    have hcap : capWindow cwnd = cwnd := capWindow_eq (by omega)
    rw [heq, Option.map_some] at hs
    obtain rfl := Option.some.inj hs
    dsimp only
    rw [hcap]
    apply sendPackets_burst happ
    · exact hest
    · exact h.cwnd.trans hlow
    · exact hhigh.trans_lt hfits
    · exact hlt
    · rfl
    · exact hmore
  · rw [if_neg hrecovery, if_pos (hfull ((Bool.not_eq_false _).mp hrecovery)), Nat.sub_self,
      Nat.zero_mod, Nat.zero_add, Nat.mod_eq_of_lt (hmss.trans (by norm_num))] at hs
    obtain rfl := Option.some.inj hs
    apply sendPackets_burst happ
    · exact hest
    · have hthresh := h.ssthresh
      exact le_min (by omega) le_rfl
    · exact (min_le_right _ _).trans_lt (hmss.trans (by norm_num))
    · exact hlt
    · rfl
    · exact hmore

/-- The timer runs after an ACK, if it did before and a packet is left. -/
theorem Inv.arms (h : Inv F s) (happ : F.appLimited < 0) {seqno m : ℕ}
    (htame : s.Tame F (.ack seqno m)) (hseqno : seqno ≤ s.top) (hwrap : s.top + F.mss < 2 ^ 32)
    (hs : s.step F (.ack seqno m) = some s') (hsteps : Steps F s (.ack seqno m) s')
    (hmore : ¬Finished F s') : s.arms true (.ack seqno m) s' = true := by
  rw [TcpSrc.arms]
  by_cases hnew : s.lastAcked < seqno
  · rw [if_pos hnew]
    by_cases hall : seqno < s.highestSent
    · rw [decide_eq_true hall]
      rfl
    · have hack : s'.lastAcked = seqno := hsteps.lastAcked.trans (max_eq_right hnew.le)
      have hest' : s'.established = true := by
        by_contra hfalse
        have hzero := (hsteps.aligned.syn (Bool.not_eq_true _ ▸ hfalse)).1
        omega
      rw [hest', Bool.and_true, decide_eq_false hall, Bool.false_or, Bool.or_eq_true,
        or_iff_not_imp_right]
      intro hresends
      rw [resends, if_neg hnew.le.not_gt, if_pos hnew] at hresends
      obtain ⟨hfits, hm⟩ := htame hnew.le
      obtain ⟨rtt, hsample, hrtt⟩ := sample_eq
        (s := { s with burst := [], established := s.established || seqno = 1 }) hm
      change TcpSrc.receivePacket F { s with burst := [] } seqno m = some s' at hs
      rw [TcpSrc.receivePacket, if_neg hnew.le.not_gt] at hs
      dsimp only at hs
      rw [hsample, if_pos hnew] at hs
      have hopen : (s.established || decide (seqno = 1)) = true := by
        by_contra hfalse
        obtain ⟨hest, hone⟩ := Bool.or_eq_false_iff.mp (Bool.not_eq_true _ ▸ hfalse)
        have htop := (h.handshake hest).2
        have hne := of_decide_eq_false hone
        omega
      have hinv : Inv F { s with
          burst := [], established := s.established || seqno = 1, rtt := rtt } :=
        ⟨h.cwnd, h.cwnd_lt, h.ssthresh, h.ssthresh_lt, h.recovery, h.lastAcked, h.highestSent,
          fun hfalse => absurd (hopen.symm.trans hfalse) (by decide)⟩
      have hburst : s'.burst ≠ [] := by
        apply hinv.newAck_burst happ hopen hrtt hfits hwrap hseqno (not_lt.1 hall) _ _ hs
        · rw [Finished, not_lt, hack] at hmore
          exact hmore
        · intro hrecovery
          change s.inFastRecovery = true at hrecovery
          rw [hrecovery, Bool.true_and, decide_eq_true_iff, not_lt] at hresends
          exact hresends
      simpa using hburst
  · rw [if_neg hnew]
    rfl

/-- A timeout leaves a window of one packet. -/
theorem timeout_cwnd (hs : s.timeout F = some s') : s'.cwnd = F.mss := by
  obtain ⟨u, hu, hclose⟩ := Option.bind_eq_some_iff.1 hs
  obtain ⟨avg, hclose'⟩ := closeSawtooth_eq u
  obtain rfl := Option.some.inj (hclose.symm.trans hclose')
  rw [retransmitPacket] at hu
  split_ifs at hu
  · obtain rfl := Option.some.inj hu
    rfl
  · obtain rfl := Option.some.inj hu
    rfl

end TcpSrc

namespace TcpTransfer

variable {F : TcpFlow} {t t' : TcpTransfer}

/-- An ACK comes while the window and the sequence numbers are far from a wrap. -/
def Calm (F : TcpFlow) (s : Option TcpTransfer) : Label → Prop
  | .ack seqno m => ∀ t ∈ s, t.src.top + F.mss < 2 ^ 32 ∧ t.src.Tame F (.ack seqno m)
  | _ => True

instance decidableCalm : (s : Option TcpTransfer) → (a : Label) → Decidable (Calm F s a)
  | none, .ack _ _ => isTrue nofun
  | some t, .ack seqno m => decidable_of_iff
      (t.src.top + F.mss < 2 ^ 32 ∧ t.src.Tame F (.ack seqno m))
      ⟨fun h _ hu => Option.some.inj hu ▸ h, fun h => h t rfl⟩
  | _, .segment _ => isTrue trivial
  | _, .expire => isTrue trivial
  | _, .timeout => isTrue trivial
  | _, .lose => isTrue trivial

/-- As long as there is a packet left the timer runs, and nothing beyond the flow was sent. -/
structure Live (F : TcpFlow) (t : TcpTransfer) : Prop where
  inv : Inv F t
  kept : t.src.Kept F
  armed : ¬t.src.Finished F → t.armed = true
  top : ¬t.src.Finished F → t.src.top ≤ F.flowSize + 1

theorem Finished.mono {s s' : TcpSrc} (h : s.lastAcked ≤ s'.lastAcked) (hs' : ¬s'.Finished F) :
    ¬s.Finished F := by
  rw [TcpSrc.Finished] at hs' ⊢
  omega

theorem Live.ack (h : Live F t) (happ : F.appLimited < 0) {seqno m : ℕ}
    (ha : t.Possible F (.ack seqno m)) (hcalm : Calm F (some t) (.ack seqno m)) :
    ∃ t', t.step F (.ack seqno m) = some t' ∧ Live F t' ∧
      t'.src.lastAcked = max t.src.lastAcked seqno := by
  obtain ⟨hfair, hle⟩ := h.inv.fair ha.1 m
  obtain ⟨hwrap, htame⟩ := hcalm t rfl
  obtain ⟨src, hsrc, hkept⟩ := h.kept.1.step (a := .ack seqno m) ⟨hfair.2, hwrap⟩ htame
  have ht : t.step F (.ack seqno m) = some { t with
      src := src
      armed := t.src.arms t.armed (.ack seqno m) src
      segments := t.src.emits F (.ack seqno m) src ++ t.segments } := by
    rw [TcpTransfer.step, act, hsrc]
    rfl
  obtain ⟨hinv, hsteps⟩ := h.inv.act hfair hle ht
  have hmono := (TcpSrc.le_acked t.src (.ack seqno m)).trans_eq hsteps.lastAcked.symm
  refine ⟨_, ht, ⟨hinv, hkept, fun hmore => ?_, fun hmore => ?_⟩, hsteps.lastAcked⟩
  · change t.src.arms t.armed (.ack seqno m) src = true
    rw [h.armed (Finished.mono hmono hmore)]
    exact h.kept.1.arms happ htame hfair.2 hwrap hsrc hsteps hmore
  · exact hsteps.le_top (h.top (Finished.mono hmono hmore)) hmore

/-- A timeout sends the packet after the last ACK again, with a window of one packet. -/
theorem Live.timeout (h : Live F t) :
    ∃ t', t.step F .timeout = some t' ∧ Live F t' ∧ t'.src.lastAcked = t.src.lastAcked ∧
      t'.src.cwnd = F.mss ∧ ∃ p ∈ t'.segments, p.seqno = t'.src.lastAcked + 1 := by
  have hpending : Inv F { t with pending := false } :=
    ⟨h.inv.src, h.inv.segments, h.inv.arrived, h.inv.acks, h.inv.lastAcked, h.inv.sink⟩
  have hreset : TcpSrc.Inv F { t.src with burst := [] } :=
    ⟨h.kept.1.cwnd, h.kept.1.cwnd_lt, h.kept.1.ssthresh, h.kept.1.ssthresh_lt, h.kept.1.recovery,
      h.kept.1.lastAcked, h.kept.1.highestSent, h.kept.1.handshake⟩
  obtain ⟨src, hsrc, hkept⟩ := hreset.timeout rfl
  have ht : t.step F .timeout = some { t with
      src := src
      pending := false
      armed := t.src.arms t.armed .timeout src
      segments := t.src.emits F .timeout src ++ t.segments } := by
    have hstep : t.src.step F .timeout = some src := hsrc
    rw [TcpTransfer.step, act, hstep]
    rfl
  have hfair : t.src.Fair F .timeout := trivial
  obtain ⟨hinv, hsteps⟩ := hpending.act hfair h.inv.lastAcked ht
  have hmono : t.src.lastAcked ≤ src.lastAcked := hsteps.lastAcked.ge
  refine ⟨_, ht, ⟨hinv, hkept, fun hmore => ?_, fun hmore => ?_⟩, hsteps.lastAcked,
    TcpSrc.timeout_cwnd hsrc, ?_⟩
  · change (t.armed || src.established) = true
    rw [h.armed (Finished.mono hmono hmore)]
    rfl
  · exact hsteps.le_top (h.top (Finished.mono hmono hmore)) hmore
  · obtain ⟨p, hp, hseqno⟩ := hsteps.resent rfl
    exact ⟨p, List.mem_append_left _ hp, hseqno⟩

theorem Live.step (h : Live F t) (happ : F.appLimited < 0) {a : Label} (ha : t.Possible F a)
    (hcalm : Calm F (some t) a) : ∃ t', t.step F a = some t' ∧ Live F t' := by
  cases a with
  | segment p =>
    exact ⟨_, rfl, (h.inv.deliver (h.inv.segments p ha)).1, h.kept, h.armed, h.top⟩
  | ack seqno m =>
    obtain ⟨t', ht, hlive, -⟩ := h.ack happ ha hcalm
    exact ⟨t', ht, hlive⟩
  | expire =>
    have ht : t.step F .expire = some t.expire := rfl
    exact ⟨_, ht, (h.inv.step ha ht).1, h.kept, fun _ => rfl, h.top⟩
  | timeout =>
    obtain ⟨t', ht, hlive, -⟩ := h.timeout
    exact ⟨t', ht, hlive⟩
  | lose =>
    have ht : t.step F .lose = some t.lost := rfl
    exact ⟨_, ht, (h.inv.step ha ht).1, h.kept, h.armed, h.top⟩

theorem live_start (F : TcpFlow) : Live F (start F) := by
  refine ⟨inv_start F, TcpSrc.startflow_kept F, fun _ => rfl, fun _ => ?_⟩
  exact Nat.le_add_left 1 _

theorem live_reachable (happ : F.appLimited < 0) {s : Option TcpTransfer}
    (hs : ((transfer F).restrict (Calm F)).Reachable s) : ∃ t, s = some t ∧ Live F t := by
  induction hs with
  | init h => exact ⟨_, h, live_start F⟩
  | step _ hen ih =>
    obtain ⟨t, rfl, hlive⟩ := ih
    obtain ⟨⟨u, hu, hpossible⟩, hcalm⟩ := hen
    obtain rfl := Option.some.inj hu
    exact hlive.step happ hpossible hcalm

/-! ## After a loss -/

theorem Inv.highestSent_ne (h : Inv F t) : t.src.highestSent ≠ 0 := by
  by_cases hest : t.src.established = true
  · obtain ⟨k, hk⟩ := h.src.highestSent hest
    omega
  · rw [(h.src.syn (Bool.not_eq_true _ ▸ hest)).2.1]
    exact Nat.one_ne_zero

theorem next_steps {s : Option TcpTransfer} {a : Label}
    (hs : ((transfer F).restrict (Calm F)).Steps s (some t)) (ha : t.Possible F a)
    (hcalm : Calm F (some t) a) (ht : t.step F a = some t') :
    ((transfer F).restrict (Calm F)).Steps s (some t') :=
  ht ▸ hs.step ⟨⟨t, rfl, ha⟩, hcalm⟩

/-- If a packet is left, the timer gets it through, whatever else is in flight. -/
theorem Live.round (h : Live F t) (happ : F.appLimited < 0) (hsmall : F.flowSize + 1 + F.mss < 2 ^ 32)
    (hmore : ¬t.src.Finished F) :
    ∃ t', ((transfer F).restrict (Calm F)).Steps (some t) (some t') ∧ Live F t' ∧
      t.src.lastAcked < t'.src.lastAcked := by
  obtain ⟨u, hu, hlive, hpending, hack⟩ : ∃ u,
      ((transfer F).restrict (Calm F)).Steps (some t) (some u) ∧ Live F u ∧ u.pending = true ∧
        u.src.lastAcked = t.src.lastAcked := by
    by_cases hpending : t.pending = true
    · exact ⟨t, .refl, h, hpending, rfl⟩
    · have hpossible : t.Possible F .expire :=
        ⟨h.armed hmore, Bool.not_eq_true _ ▸ hpending, h.inv.highestSent_ne⟩
      have ht : t.step F .expire = some t.expire := rfl
      obtain ⟨-, -, hlive⟩ : ∃ t', t.step F .expire = some t' ∧ Live F t.expire :=
        ⟨_, ht, (h.inv.step hpossible ht).1, h.kept, fun _ => rfl, h.top⟩
      exact ⟨_, next_steps .refl hpossible trivial ht, hlive, rfl, rfl⟩
  have hmore' : ¬u.src.Finished F := Finished.mono hack.le hmore
  have htop : u.src.top + F.mss < 2 ^ 32 := by
    have hle := hlive.top hmore'
    omega
  have htimeout : u.Possible F .timeout := ⟨hpending, htop.trans (by norm_num)⟩
  obtain ⟨v, hv, hlive', hack', hcwnd, p, hp, hseqno⟩ := hlive.timeout
  have hmore'' : ¬v.src.Finished F := Finished.mono hack'.le hmore'
  obtain ⟨hinv, hle, hnext⟩ := hlive'.inv.deliver (hlive'.inv.segments p hp)
  have hpast : v.src.lastAcked < (v.deliver p).sink.cumulativeAck := by
    rcases hlive'.inv.lastAcked.lt_or_eq with hlt | heq
    · exact hlt.trans_le hle
    · exact heq.trans_lt (hnext (heq ▸ hseqno))
  have hlive'' : Live F (v.deliver p) := ⟨hinv, hlive'.kept, hlive'.armed, hlive'.top⟩
  have hwrap : v.src.top + F.mss < 2 ^ 32 := by
    have hle := hlive'.top hmore''
    omega
  have hanswer : (v.deliver p).Possible F (.ack (v.deliver p).sink.cumulativeAck 8) :=
    ⟨List.mem_cons_self, hwrap.trans (by norm_num)⟩
  have hcalm : Calm F (some (v.deliver p)) (.ack (v.deliver p).sink.cumulativeAck 8) := by
    intro w hw
    obtain rfl := Option.some.inj hw
    refine ⟨hwrap, fun _ => ⟨?_, by rw [TcpSrc.Measures]; omega⟩⟩
    change v.src.cwnd + F.mss < 2 ^ 31
    have hmss := F.mss_lt
    omega
  obtain ⟨t', ht', hlast, hacked⟩ := hlive''.ack happ hanswer hcalm
  refine ⟨t', ?_, hlast, ?_⟩
  · have hdelivered : ((transfer F).restrict (Calm F)).Steps (some t) (some (v.deliver p)) :=
      next_steps (a := .segment p) (next_steps hu htimeout trivial hv) hp trivial rfl
    exact next_steps hdelivered hanswer hcalm ht'
  · rw [hacked, ← hack, ← hack']
    exact lt_max_of_lt_right hpast

theorem Live.finish (h : Live F t) (happ : F.appLimited < 0)
    (hsmall : F.flowSize + 1 + F.mss < 2 ^ 32) :
    ∃ t', ((transfer F).restrict (Calm F)).Steps (some t) (some t') ∧ Live F t' ∧
      t'.src.Finished F := by
  induction hn : F.flowSize + 1 - t.src.lastAcked using Nat.strong_induction_on generalizing t with
  | h n ih =>
    by_cases hmore : t.src.Finished F
    · exact ⟨t, .refl, h, hmore⟩
    · obtain ⟨u, hu, hlive, hlt⟩ := h.round happ hsmall hmore
      have hle : t.src.lastAcked < F.flowSize + 1 := by
        rw [TcpSrc.Finished, not_lt] at hmore
        have hpos := F.mss_pos
        omega
      obtain ⟨t', ht', hlive', hfin⟩ := ih _ (by omega) hlive rfl
      exact ⟨t', hu.trans ht', hlive', hfin⟩

/-- A finished transfer has delivered each whole packet of the flow. -/
theorem Inv.delivered (h : Inv F t) (hfin : t.src.Finished F) {j : ℕ}
    (hj : (j + 1) * F.mss ≤ F.flowSize) : TcpSrc.segment F (j * F.mss + 2) ∈ t.arrived := by
  have hack := h.lastAcked
  rw [TcpSrc.Finished] at hfin
  rw [Nat.succ_mul] at hj
  obtain ⟨-, hzero, -⟩ | ⟨-, b, n, hb, hordered, hgot⟩ := h.sink
  · omega
  · have hcum : t.sink.cumulativeAck = n * F.mss + 1 := by
      rw [← hordered.cumulativeAck]
      exact congrArg Sink.cumulativeAck hb
    have hlt : j < n := lt_of_mul_lt_mul_right (show j * F.mss < n * F.mss by omega) (Nat.zero_le _)
    exact (hgot j).1 ((hordered.got_iff F.mss_pos j).2 (.inl hlt))

/-- While the window and the sequence numbers are far from a wrap, the laws of the window hold
of a source with its sink, no step divides by zero, and if the network loses all that is in
flight, the flow can still be delivered. -/
theorem transfer_completes (F : TcpFlow) (happ : F.appLimited < 0)
    (hsmall : F.flowSize + 1 + F.mss < 2 ^ 32) {s : Option TcpTransfer}
    (hs : ((transfer F).restrict (Calm F)).Reachable s) :
    ∃ t, s = some t ∧ t.src.Laws F ∧
      ∃ t', ((transfer F).restrict (Calm F)).Steps (some t.lost) (some t') ∧
        ∀ j, (j + 1) * F.mss ≤ F.flowSize → TcpSrc.segment F (j * F.mss + 2) ∈ t'.arrived := by
  obtain ⟨t, rfl, hlive⟩ := live_reachable happ hs
  have hlost : Live F t.lost := ⟨(hlive.inv.step (a := .lose) trivial rfl).1, hlive.kept,
    hlive.armed, hlive.top⟩
  obtain ⟨t', hsteps, hlive', hfin⟩ := hlost.finish happ hsmall
  exact ⟨t, rfl, hlive.kept.1.laws hlive.kept.2, t', hsteps,
    fun j hj => hlive'.inv.delivered hfin hj⟩

theorem transfer_completes_overtaken :
    ∃ t, (transfer shortFlow).run (some (start shortFlow)) overtaken = some t ∧
      t.src.Laws shortFlow ∧ ∃ t', ((transfer shortFlow).restrict (Calm shortFlow)).Steps
        (some t.lost) (some t') ∧
          TcpSrc.segment shortFlow 2 ∈ t'.arrived ∧ TcpSrc.segment shortFlow 1002 ∈ t'.arrived := by
  have hs : ((transfer shortFlow).restrict (Calm shortFlow)).Reachable
      (((transfer shortFlow).restrict (Calm shortFlow)).run (some (start shortFlow)) overtaken) :=
    (System.Reachable.init rfl).run (by decide +kernel)
  rw [System.run_restrict] at hs
  obtain ⟨t, ht, hlaws, t', hsteps, hall⟩ :=
    transfer_completes shortFlow (by decide) (by decide) hs
  exact ⟨t, ht, hlaws, t', hsteps, hall 0 (by decide), hall 1 (by decide)⟩

end TcpTransfer

end P4Survey.Ndp
