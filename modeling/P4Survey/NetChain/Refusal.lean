import P4Survey.NetChain.Config

/-! # Refused writes

A write that is not newer than what a switch stores is refused: the registers
stay as they are and `drop_packet` sets the drop port. The control goes on after
that, so the packet stays dropped only if `ipv4_route` has no entry for the
destination it ends up with.
-/

namespace P4Survey.NetChain
open Lib

/-- A write served by a switch that is not the head and that stores a sequence
number at least as large. -/
def Refused (t : Tables) (regs : Switch) (h : Headers) : Prop :=
  t.Serves h ∧ h.ncHdr.op = 12#8 ∧ t.role h.ncHdr.key ≠ 100#16 ∧
    h.ncHdr.seq ≤ regs.seq (t.index h.ncHdr.key)

/-- The registers are unchanged and no packet leaves the switch. -/
def NoEffect (t : Tables) (regs : Switch) (h : Headers) : Prop :=
  (ingress t regs h).regs = regs ∧ (ingress t regs h).egressSpec = dropPort

namespace Tables

variable (t : Tables) (h : Headers)

/-- Source and destination of a refused write when `failure_recovery` sees it:
the tail turns it around, the others send it to the top of the overlay. -/
def refusedAddrs : BitVec 32 × BitVec 32 :=
  if t.role h.ncHdr.key = 102#16 then
    if (t.genReply 12#8).isSome then (h.ipv4.dstAddr, h.ipv4.srcAddr)
    else (h.ipv4.srcAddr, h.ipv4.dstAddr)
  else (h.ipv4.srcAddr, h.swip 0)

/-- The second overlay entry `failure_recovery` sees. -/
def refusedNext : BitVec 32 :=
  if t.role h.ncHdr.key = 102#16 ∧ t.popChainAgain then h.swip 2 else h.swip 1

/-- The destination of a refused write when `ipv4_route` looks it up. -/
def refusedDst : BitVec 32 :=
  match t.failureRecovery (t.refusedAddrs h).2 (t.refusedNext h) h.ncHdr.vgroup with
  | .failoverAct => t.refusedNext h
  | .failoverWriteReplyAct => (t.refusedAddrs h).1
  | .failureRecoveryAct nexthop => nexthop
  | .nop => (t.refusedAddrs h).2
  | .dropPacketAct => (t.refusedAddrs h).2

/-- No route leads out of the switch for a refused write. -/
def NoWayOut : Prop :=
  (h.tcpValid || h.udpValid) = true →
    ∀ spec, t.ipv4Route (t.refusedDst h) = some spec → spec = dropPort

end Tables

namespace Pipe

/-- What the rest of the control reads of a refused write. -/
structure IsRefused (p : Pipe) (h : Headers) (addrs : BitVec 32 × BitVec 32)
    (next : BitVec 32) : Prop where
  addrs : (p.hdr.ipv4.srcAddr, p.hdr.ipv4.dstAddr) = addrs
  next : p.hdr.swip 1 = next
  vgroup : p.hdr.ncHdr.vgroup = h.ncHdr.vgroup
  valid : (p.hdr.tcpValid || p.hdr.udpValid) = (h.tcpValid || h.udpValid)
  egressSpec : p.egressSpec = dropPort

theorem popChainAct_isRefused {p : Pipe} {h : Headers} {addrs : BitVec 32 × BitVec 32}
    {next : BitVec 32} (hp : p.IsRefused h addrs next) :
    p.popChainAct.IsRefused h addrs (p.hdr.swip 2) := by
  constructor
  · simpa using hp.addrs
  · rw [Headers.swip, popChainAct_overlay, Headers.swip]
    cases p.hdr.overlay <;> simp
  · simpa using hp.vgroup
  · simpa using hp.valid
  · simpa using hp.egressSpec

theorem answer_isRefused (t : Tables) {regs : Switch} {h : Headers} (hop : h.ncHdr.op = 12#8) :
    ((located t regs h).dropPacketAct.answer t).IsRefused h (t.refusedAddrs h)
      (t.refusedNext h) := by
  set p := (located t regs h).dropPacketAct with hp
  have h0 : p.IsRefused h (h.ipv4.srcAddr, h.ipv4.dstAddr) (h.swip 1) := ⟨rfl, rfl, rfl, rfl, rfl⟩
  unfold answer Tables.refusedAddrs Tables.refusedNext
  by_cases hr : t.role h.ncHdr.key = 102#16
  · have hr' : p.role = 102#16 := hr
    have h1 : (p.popChainAgain t).IsRefused h (h.ipv4.srcAddr, h.ipv4.dstAddr)
        (if t.popChainAgain then h.swip 2 else h.swip 1) := by
      unfold popChainAgain
      split
      · exact popChainAct_isRefused h0
      · exact h0
    have hop' : (p.popChainAgain t).hdr.ncHdr.op = 12#8 := by
      unfold popChainAgain
      split
      · rw [popChainAct_ncHdr]
        exact hop
      · exact hop
    have hsrc := congrArg Prod.fst h1.addrs
    have hdst := congrArg Prod.snd h1.addrs
    rw [if_pos hr', if_pos hr, genReply, hop']
    cases hg : t.genReply 12#8 with
    | some m =>
      refine ⟨?_, ?_, h1.vgroup, h1.valid, h1.egressSpec⟩
      · exact Prod.ext hdst hsrc
      · simpa [hr, genReplyAct, Headers.swip] using h1.next
    | none =>
      refine ⟨h1.addrs, ?_, h1.vgroup, h1.valid, h1.egressSpec⟩
      simpa [hr] using h1.next
  · have hr' : ¬ p.role = 102#16 := hr
    rw [if_neg hr', if_neg hr]
    exact ⟨rfl, by simp [hr, getNextHopAct, hp, Headers.swip, located, dropPacketAct], rfl, rfl, rfl⟩

theorem failureRecovery_isRefused {t : Tables} {p : Pipe} {h : Headers}
    (hp : p.IsRefused h (t.refusedAddrs h) (t.refusedNext h)) :
    (p.failureRecovery t).hdr.ipv4.dstAddr = t.refusedDst h ∧
      ((p.failureRecovery t).hdr.tcpValid || (p.failureRecovery t).hdr.udpValid) =
        (h.tcpValid || h.udpValid) ∧
      (p.failureRecovery t).egressSpec = dropPort := by
  have hsrc := congrArg Prod.fst hp.addrs
  have hdst := congrArg Prod.snd hp.addrs
  unfold failureRecovery Tables.refusedDst
  rw [show p.hdr.ipv4.dstAddr = _ from hdst, hp.next, hp.vgroup]
  cases t.failureRecovery (t.refusedAddrs h).2 (t.refusedNext h) h.ncHdr.vgroup with
  | failoverAct =>
    refine ⟨?_, ?_, ?_⟩
    · rw [failoverAct, popChainAct_dstAddr]
      exact hp.next
    · simpa [failoverAct] using hp.valid
    · simpa [failoverAct] using hp.egressSpec
  | failoverWriteReplyAct => exact ⟨hsrc, hp.valid, hp.egressSpec⟩
  | failureRecoveryAct nexthop => exact ⟨rfl, hp.valid, hp.egressSpec⟩
  | nop => exact ⟨hdst, hp.valid, hp.egressSpec⟩
  | dropPacketAct => exact ⟨hdst, hp.valid, rfl⟩

end Pipe

/-- A refused write reaches `ipv4_route` with its registers unchanged, the drop
port set and the destination `refusedDst`. -/
theorem beforeRoute_of_refused {t : Tables} {regs : Switch} {h : Headers}
    (hr : Refused t regs h) :
    (beforeRoute t regs h).regs = regs ∧
      (beforeRoute t regs h).hdr.ipv4.dstAddr = t.refusedDst h ∧
      ((beforeRoute t regs h).hdr.tcpValid || (beforeRoute t regs h).hdr.udpValid) =
        (h.tcpValid || h.udpValid) ∧
      (beforeRoute t regs h).egressSpec = dropPort := by
  obtain ⟨hs, hop, hrole, hseq⟩ := hr
  have hnot : ¬ (Pipe.located t regs h).seq < (Pipe.located t regs h).hdr.ncHdr.seq :=
    BitVec.not_lt.mpr hseq
  rw [beforeRoute_of_serves hs, Pipe.operate_refuse hop hrole hnot]
  exact ⟨by simp [Pipe.dropPacketAct, Pipe.located],
    Pipe.failureRecovery_isRefused (Pipe.answer_isRefused t hop)⟩

theorem ingress_refused_regs {t : Tables} {regs : Switch} {h : Headers}
    (hr : Refused t regs h) : (ingress t regs h).regs = regs :=
  (ingress_regs t regs h).trans (beforeRoute_of_refused hr).1

theorem ingress_refused_egressSpec {t : Tables} {regs : Switch} {h : Headers}
    (hr : Refused t regs h) :
    (ingress t regs h).egressSpec = dropPort ↔ t.NoWayOut h := by
  obtain ⟨-, hdst, hvalid, hspec⟩ := beforeRoute_of_refused hr
  unfold ingress Tables.NoWayOut
  dsimp only
  rw [hvalid, ← hdst]
  by_cases hv : (h.tcpValid || h.udpValid) = true
  · rw [if_pos hv, Pipe.ipv4Route]
    cases hroute : t.ipv4Route (beforeRoute t regs h).hdr.ipv4.dstAddr with
    | some spec => simp [Pipe.setEgress, hv]
    | none => simpa using hspec
  · simp [hv, hspec]

/-- A refused write never changes the registers; it has no effect at all exactly
when no route leads out of the switch for its final destination. -/
theorem refused_noEffect_iff {t : Tables} {regs : Switch} {h : Headers}
    (hr : Refused t regs h) : NoEffect t regs h ↔ t.NoWayOut h := by
  unfold NoEffect
  rw [ingress_refused_egressSpec hr, ingress_refused_regs hr]
  simp

/-- A write to key 2018 with sequence number 1, from the client `10.0.0.2`, that
has arrived at the given position of `lab`. -/
def labWrite (j : Fin 3) : Headers where
  ethernetValid := true
  ethernet := ⟨0#48, 0#48, 0x800#16⟩
  ipv4Valid := true
  ipv4 := ⟨4#4, 5#4, 0#8, 0#16, 0#16, 0#3, 0#13, 64#8, 17#8, 0#16, 0x0a000002#32, lab.ip j⟩
  udpValid := true
  udp := ⟨8888#16, 8888#16, 0#16, 0#16⟩
  tcpValid := false
  tcp := default
  overlay := lab.overlayFrom j
  ncHdrValid := true
  ncHdr := ⟨12#8, 4#8, 1#16, 2018#128, 222#128, 0#16⟩

/-- Registers that store sequence number 1 for every key. -/
def seqOne : Switch := ⟨.fill regSize 1#16, .fill regSize 7#128⟩

theorem seqOne_refused (j : Fin 3) (hj : j ≠ 0) : Refused (lab.tables j) seqOne (labWrite j) := by
  have hk : lab.index 2018#128 = some 0#16 := by decide
  refine ⟨⟨rfl, (Chain.tables_myAddress hk).symm⟩, rfl, ?_, ?_⟩
  · rw [show (labWrite j).ncHdr.key = 2018#128 from rfl, Chain.tables_role hk]
    revert j
    decide
  · rw [show (labWrite j).ncHdr.key = 2018#128 from rfl, Chain.tables_index hk]
    change 1#16 ≤ seqOne.seq 0#16
    decide

/-- At the middle switch of `lab` the refused write stays in the switch. -/
theorem refused_noEffect_lab :
    Refused (lab.tables 1) seqOne (labWrite 1) ∧
      (NoEffect (lab.tables 1) seqOne (labWrite 1) ↔ (lab.tables 1).NoWayOut (labWrite 1)) := by
  have hr := seqOne_refused 1 (by decide)
  exact ⟨hr, refused_noEffect_iff hr⟩

/-- At the tail of `lab` the refused write leaves as a reply on port 1. -/
theorem refused_effect_tail :
    Refused (lab.tables 2) seqOne (labWrite 2) ∧
      ¬ NoEffect (lab.tables 2) seqOne (labWrite 2) := by
  have hr := seqOne_refused 2 (by decide)
  refine ⟨hr, fun hn => ?_⟩
  have hout := (ingress_refused_egressSpec hr).mp hn.2 rfl 1#9 (by decide)
  exact absurd hout (by decide)

end P4Survey.NetChain
