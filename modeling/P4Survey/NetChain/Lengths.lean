import P4Survey.NetChain.Client
import P4Survey.NetChain.RecoveryPairs
import P4Survey.NetChain.Reparse

/-! # The length fields of a request on its way

A switch that takes an address off the overlay list adjusts the count of the
NetChain header and the lengths of UDP and IPv4 by hand. Along every way of a
request, with failed switches and recovery rules on it, the three fields agree
with what the packet holds.
-/

namespace P4Survey.NetChain
open Lib

/-- The bytes of a NetChain header. -/
abbrev ncHdrSize : ℕ := 38

theorem NcHdr.bits_length (h : NcHdr) : h.bits.length = 8 * ncHdrSize := by
  simp only [NcHdr.bits, List.length_append, Lib.bits_length]
  rfl

theorem NcHdr.length_of_extract {l : List Bool} {p : NcHdr × List Bool}
    (h : NcHdr.extract l = some p) : 8 * ncHdrSize ≤ l.length := by
  obtain ⟨op, l1, rfl, h1⟩ := take_eq_some h
  obtain ⟨sc, l2, rfl, h2⟩ := take_eq_some h1
  obtain ⟨seq, l3, rfl, h3⟩ := take_eq_some h2
  obtain ⟨key, l4, rfl, h4⟩ := take_eq_some h3
  obtain ⟨value, l5, rfl, h5⟩ := take_eq_some h4
  obtain ⟨vgroup, l6, rfl, -⟩ := take_eq_some h5
  simp only [List.length_append, Lib.bits_length, ncHdrSize]
  omega

@[simp] theorem overlayBits_nil : overlayBits [] = [] := rfl

theorem overlayBits_length (l : List (BitVec 32)) : (overlayBits l).length = 32 * l.length := by
  induction l with
  | nil => rfl
  | cons x l ih =>
    rw [overlayBits, List.flatMap_cons, List.length_append, bits_length, List.length_cons]
    rw [overlayBits] at ih
    omega

namespace Headers

/-- The count and the two lengths are those of the overlay list and the header. -/
structure LengthsAgree (h : Headers) : Prop where
  sc : h.ncHdr.sc.toNat = h.overlay.length
  udpLen : h.udp.len.toNat = 8 + 4 * h.overlay.length + ncHdrSize
  totalLen : h.ipv4.totalLen.toNat = h.udp.len.toNat + 20

theorem LengthsAgree.congr {g h : Headers} (ha : h.LengthsAgree) (hsc : g.ncHdr.sc = h.ncHdr.sc)
    (ho : g.overlay.length = h.overlay.length) (hu : g.udp.len = h.udp.len)
    (hi : g.ipv4.totalLen = h.ipv4.totalLen) : g.LengthsAgree :=
  ⟨by rw [hsc, ho, ha.sc], by rw [hu, ho, ha.udpLen], by rw [hi, hu, ha.totalLen]⟩

/-- The packet is a request, and not the reply to one. -/
def Asks (h : Headers) : Prop := h.ncHdr.op = 10#8 ∨ h.ncHdr.op = 12#8

end Headers

/-- The switches of a network and a client beside them, by their addresses. The zero
address ends an overlay list, so no host has it. -/
structure Site where
  switches : Set (BitVec 32)
  zero_notMem : 0#32 ∉ switches
  client : BitVec 32
  client_notMem : client ∉ switches
  client_ne_zero : client ≠ 0#32

namespace Site

variable (S : Site)

/-- Tables as the controller fills them: a switch answers to one of the addresses,
and `failure_recovery` has entries for packets to a switch only. -/
structure Configures (t : Tables) : Prop where
  address : ∀ {k x}, t.getMyAddress k = some x → x.1 ∈ S.switches
  genReply : t.genReply = Chain.genReply
  recovery : ∀ {dst} next vgroup, dst ∉ S.switches → t.failureRecovery dst next vgroup = .nop
  nexthop : ∀ {dst next vgroup x},
    t.failureRecovery dst next vgroup = .failureRecoveryAct x → x ∈ S.switches

/-- A packet that a switch can still take addresses off. -/
structure Underway (h : Headers) : Prop where
  terminated : Terminated h.overlay
  ahead : h.Asks → h.ipv4.dstAddr ≠ 0#32 → h.swip 0 ≠ 0#32
  src : h.Asks → h.ipv4.srcAddr = S.client
  dst : ¬ h.Asks → h.ipv4.dstAddr = S.client

/-- A packet with all its headers. Without an overlay list no switch recognises it. -/
structure OnWire (h : Headers) : Prop where
  framed : Framed h
  lengths : h.LengthsAgree
  state : h.overlay = [] ∨ S.Underway h

end Site

theorem Terminated.eq_cons {l : List (BitVec 32)} (hl : Terminated l) (h0 : l.getD 0 0#32 ≠ 0#32) :
    ∃ x rest, l = x :: rest ∧ Terminated rest := by
  obtain ⟨hops, rfl, hne, hlen⟩ := hl
  cases hops with
  | nil => simp at h0
  | cons x hops =>
    refine ⟨x, hops ++ [0#32], rfl, hops, rfl, ?_, ?_⟩
    · exact fun y hy => hne y (List.mem_cons_of_mem _ hy)
    · exact Nat.lt_of_succ_lt hlen

theorem Terminated.tail {l : List (BitVec 32)} (hl : Terminated l) :
    l.tail = [] ∨ Terminated l.tail := by
  by_cases h0 : l.getD 0 0#32 = 0#32
  · left
    obtain ⟨hops, rfl, hne, hlen⟩ := hl
    cases hops with
    | nil => rfl
    | cons x hops => exact absurd h0 (hne x List.mem_cons_self)
  · right
    obtain ⟨x, rest, rfl, hr⟩ := hl.eq_cons h0
    exact hr

theorem Terminated.length_le {l : List (BitVec 32)} (hl : Terminated l) :
    l.length ≤ overlaySize := by
  obtain ⟨hops, rfl, -, hlen⟩ := hl
  rw [List.length_append, List.length_singleton]
  exact hlen

theorem Terminated.ne_nil {l : List (BitVec 32)} (hl : Terminated l) : l ≠ [] := by
  obtain ⟨hops, rfl, -⟩ := hl
  simp

namespace Pipe

variable {p : Pipe}

theorem popChainAct_lengths : p.popChainAct.hdr.udp.len = p.hdr.udp.len + 65532#16 ∧
    p.popChainAct.hdr.ipv4.totalLen = p.hdr.ipv4.totalLen + 65532#16 := by
  rcases p with ⟨_, ⟨_, _, _, ⟨⟩, _, ⟨⟩, _⟩, _⟩
  simp only [popChainAct, and_self]

theorem popChainAct_asks (hasks : p.hdr.Asks) : p.popChainAct.hdr.Asks := by
  unfold Headers.Asks
  rw [popChainAct_ncHdr]
  exact hasks

/-- Popping keeps the lengths right as long as there is something to pop. -/
theorem popChainAct_agree (ha : p.hdr.LengthsAgree) (hne : p.hdr.overlay ≠ []) :
    p.popChainAct.hdr.LengthsAgree := by
  have hpos : 0 < p.hdr.overlay.length := List.length_pos_iff.mpr hne
  obtain ⟨hsc, hudp, htotal⟩ := ha
  have hlt := p.hdr.ncHdr.sc.isLt
  have hlt' := p.hdr.ipv4.totalLen.isLt
  constructor
  · rw [popChainAct_ncHdr, popChainAct_overlay, List.length_tail, BitVec.toNat_add,
      BitVec.toNat_ofNat]
    omega
  · rw [popChainAct_lengths.1, popChainAct_overlay, List.length_tail, BitVec.toNat_add,
      BitVec.toNat_ofNat]
    omega
  · rw [popChainAct_lengths.1, popChainAct_lengths.2, BitVec.toNat_add, BitVec.toNat_add,
      BitVec.toNat_ofNat]
    omega

/-- The operation changes the NetChain header but not its count, and may pop. -/
theorem operate_cases (p : Pipe) : ∃ q : Pipe, ∃ nc : NcHdr,
    q.hdr = { p.hdr with ncHdr := nc } ∧ nc.op = p.hdr.ncHdr.op ∧ nc.sc = p.hdr.ncHdr.sc ∧
      q.role = p.role ∧ (p.operate = q ∨ p.operate = q.popChainAct) := by
  by_cases h10 : p.hdr.ncHdr.op = 10#8
  · exact ⟨p.readValueAct, _, rfl, rfl, rfl, rfl, .inl (operate_read h10)⟩
  by_cases h12 : p.hdr.ncHdr.op = 12#8
  · by_cases hr : p.role = 100#16
    · exact ⟨p.maintainSequenceAct.assignValueAct, _, rfl, rfl, rfl, rfl,
        .inr (operate_head h12 hr)⟩
    · by_cases hs : p.seq < p.hdr.ncHdr.seq
      · exact ⟨p.assignValueAct, _, rfl, rfl, rfl, rfl, .inr (operate_accept h12 hr hs)⟩
      · exact ⟨p.dropPacketAct, _, rfl, rfl, rfl, rfl, .inl (operate_refuse h12 hr hs)⟩
  · refine ⟨p, p.hdr.ncHdr, rfl, rfl, rfl, rfl, .inl ?_⟩
    rw [operate, if_neg h10, if_neg h12]

end Pipe

namespace Site

variable {S : Site} {t : Tables} {h : Headers} {p : Pipe}

/-- The pipeline before the table `failure_recovery`: only a packet to a switch has
an entry there. -/
structure Processed (S : Site) (h : Headers) : Prop where
  framed : Framed h
  lengths : h.LengthsAgree
  state : (h.overlay = [] ∧ h.ipv4.dstAddr ∉ S.switches) ∨ S.Underway h

theorem Underway.asks_of_mem (hu : S.Underway h) (hd : h.ipv4.dstAddr ∈ S.switches) : h.Asks := by
  by_contra hno
  rw [hu.dst hno] at hd
  exact S.client_notMem hd

theorem ne_zero {x : BitVec 32} (hx : x ∈ S.switches) : x ≠ 0#32 := by
  rintro rfl
  exact S.zero_notMem hx

theorem Underway.eq_cons (hu : S.Underway h) (hd : h.ipv4.dstAddr ∈ S.switches) :
    ∃ x rest, h.overlay = x :: rest ∧ Terminated rest :=
  hu.terminated.eq_cons (hu.ahead (hu.asks_of_mem hd) (ne_zero hd))

theorem Configures.myAddress (ht : S.Configures t) (k : BitVec 128) :
    t.myAddress k = 0#32 ∧ t.role k = 0#16 ∨ t.myAddress k ∈ S.switches := by
  unfold Tables.myAddress Tables.role
  cases hk : t.getMyAddress k with
  | none => exact .inl ⟨rfl, rfl⟩
  | some x => exact .inr (ht.address hk)

/-- A switch serves requests only. -/
theorem Configures.asks_of_serves (ht : S.Configures t) (hu : S.Underway h) (hs : t.Serves h) :
    h.Asks := by
  by_contra hno
  have hd := hs.2
  rw [hu.dst hno] at hd
  rcases ht.myAddress h.ncHdr.key with ⟨h0, -⟩ | hmem
  · exact S.client_ne_zero (hd.trans h0)
  · exact S.client_notMem (hd ▸ hmem)

/-- The tail's reply goes to the client, whatever is left of the overlay list. -/
theorem genReply_processed (ht : S.Configures t) (hf : Framed p.hdr) (hl : p.hdr.LengthsAgree)
    (hasks : p.hdr.Asks) (hsrc : p.hdr.ipv4.srcAddr = S.client)
    (ho : p.hdr.overlay = [] ∨ Terminated p.hdr.overlay) : S.Processed (p.genReply t).hdr := by
  obtain ⟨m, hm, hop⟩ : ∃ m, t.genReply p.hdr.ncHdr.op = some m ∧ ¬ (m = 10#8 ∨ m = 12#8) := by
    rw [ht.genReply]
    rcases hasks with h10 | h12
    · exact ⟨11#8, by rw [h10]; rfl, by decide⟩
    · exact ⟨13#8, by rw [h12]; rfl, by decide⟩
  rw [Pipe.genReply, hm]
  refine ⟨Pipe.genReplyAct_framed hf m, hl.congr rfl rfl rfl rfl, ?_⟩
  rcases ho with ho | ho
  · left
    refine ⟨ho, ?_⟩
    change p.hdr.ipv4.srcAddr ∉ S.switches
    rw [hsrc]
    exact S.client_notMem
  · right
    exact ⟨ho, fun h => absurd h hop, fun h => absurd h hop, fun _ => hsrc⟩

/-- What the operation leaves of a request that a switch serves: at most one address
is gone, and one is left to pop where the packet came with a switch in its list. -/
theorem operate_served (regs : Switch) (hf : Framed h) (hl : h.LengthsAgree)
    (hu : S.Underway h) (hasks : h.Asks) :
    ∃ q, (Pipe.located t regs h).operate = q ∧ Framed q.hdr ∧ q.hdr.LengthsAgree ∧ q.hdr.Asks ∧
      q.hdr.ipv4.srcAddr = h.ipv4.srcAddr ∧ q.role = t.role h.ncHdr.key ∧
      (q.hdr.overlay = h.overlay ∨ q.hdr.overlay = h.overlay.tail) := by
  obtain ⟨q, nc, hq, hop, hsc, hr, he⟩ := (Pipe.located t regs h).operate_cases
  have hqf : Framed q.hdr := hq ▸ hf.setNcHdr nc
  have hql : q.hdr.LengthsAgree := by
    rw [hq]
    exact hl.congr hsc rfl rfl rfl
  have hqa : q.hdr.Asks := by
    rw [hq]
    unfold Headers.Asks
    rw [hop]
    exact hasks
  have hqo : q.hdr.overlay = h.overlay := by rw [hq]; rfl
  rcases he with he | he
  · exact ⟨q, he, hqf, hql, hqa, by rw [hq]; rfl, hr, .inl hqo⟩
  · have hne : q.hdr.overlay ≠ [] := hqo ▸ hu.terminated.ne_nil
    refine ⟨_, he, Pipe.popChainAct_framed hqf, Pipe.popChainAct_agree hql hne,
      Pipe.popChainAct_asks hqa, ?_, ?_, .inr ?_⟩
    · rw [Pipe.popChainAct_srcAddr, hq]
      rfl
    · rw [Pipe.popChainAct_role, hr]
      rfl
    · rw [Pipe.popChainAct_overlay, hqo]

/-- The tail may take one more address off before it replies. -/
theorem tail_processed (ht : S.Configures t) (hf : Framed p.hdr) (hl : p.hdr.LengthsAgree)
    (hasks : p.hdr.Asks) (hsrc : p.hdr.ipv4.srcAddr = S.client) (ho : Terminated p.hdr.overlay) :
    S.Processed ((p.popChainAgain t).genReply t).hdr := by
  unfold Pipe.popChainAgain
  split_ifs
  · apply genReply_processed ht (Pipe.popChainAct_framed hf)
      (Pipe.popChainAct_agree hl ho.ne_nil) (Pipe.popChainAct_asks hasks)
    · rw [Pipe.popChainAct_srcAddr, hsrc]
    · rw [Pipe.popChainAct_overlay]
      exact ho.tail
  · exact genReply_processed ht hf hl hasks hsrc (.inr ho)

theorem answer_processed (ht : S.Configures t) (regs : Switch) (hf : Framed h)
    (hl : h.LengthsAgree) (hu : S.Underway h) (hs : t.Serves h) :
    S.Processed ((Pipe.located t regs h).operate.answer t).hdr := by
  have hasks := ht.asks_of_serves hu hs
  obtain ⟨q, hq, hqf, hql, hqa, hqs, hqr, hqo⟩ :=
    operate_served (t := t) regs hf hl hu hasks
  have hsrc : q.hdr.ipv4.srcAddr = S.client := hqs.trans (hu.src hasks)
  rw [hq, Pipe.answer]
  by_cases hr : q.role = 102#16
  · rw [if_pos hr]
    -- the tail knows its own address, so the list came with a switch and the terminator
    have hd : h.ipv4.dstAddr ∈ S.switches := by
      rcases ht.myAddress h.ncHdr.key with ⟨-, h0⟩ | hmem
      · rw [hqr, h0] at hr
        exact absurd hr (by decide)
      · exact hs.2 ▸ hmem
    obtain ⟨x, rest, ho, hrest⟩ := hu.eq_cons hd
    apply tail_processed ht hqf hql hqa hsrc
    rcases hqo with hqo | hqo
    · rw [hqo]
      exact hu.terminated
    · rw [hqo, ho]
      exact hrest
  · rw [if_neg hr]
    refine ⟨hqf.setDstAddr _, hql.congr rfl rfl rfl rfl, ?_⟩
    have hqt : q.hdr.overlay = [] ∨ Terminated q.hdr.overlay := by
      rcases hqo with ho | ho
      · exact .inr (ho ▸ hu.terminated)
      · exact ho ▸ hu.terminated.tail
    rcases hqt with ho | ho
    · left
      refine ⟨ho, ?_⟩
      change q.hdr.swip 0 ∉ S.switches
      rw [Headers.swip, ho]
      exact S.zero_notMem
    · right
      exact ⟨ho, fun _ h0 => h0, fun _ => hsrc, fun hno => absurd hqa hno⟩

theorem failoverAct_onWire (hf : Framed p.hdr) (hl : p.hdr.LengthsAgree) (hu : S.Underway p.hdr)
    (hd : p.hdr.ipv4.dstAddr ∈ S.switches) : S.OnWire p.failoverAct.hdr := by
  have hasks := hu.asks_of_mem hd
  obtain ⟨x, rest, ho, hrest⟩ := hu.eq_cons hd
  have hov : p.failoverAct.hdr.overlay = rest := by
    rw [Pipe.failoverAct, Pipe.popChainAct_overlay]
    change p.hdr.overlay.tail = rest
    rw [ho]
    rfl
  have hdst : p.failoverAct.hdr.ipv4.dstAddr = p.failoverAct.hdr.swip 0 := by
    rw [Headers.swip, hov, Pipe.failoverAct, Pipe.popChainAct_dstAddr]
    change p.hdr.swip 1 = _
    rw [Headers.swip, ho]
    rfl
  have hasks' : p.failoverAct.hdr.Asks := Pipe.popChainAct_asks hasks
  refine ⟨Pipe.popChainAct_framed (hf.setDstAddr _), ?_, .inr ⟨?_, ?_, ?_, ?_⟩⟩
  · apply Pipe.popChainAct_agree
    · exact hl.congr rfl rfl rfl rfl
    · exact hu.terminated.ne_nil
  · rw [hov]
    exact hrest
  · intro _ h0
    exact hdst ▸ h0
  · intro _
    rw [Pipe.failoverAct, Pipe.popChainAct_srcAddr]
    exact hu.src hasks
  · exact fun hno => absurd hasks' hno

theorem failureRecoveryAct_onWire {nexthop : BitVec 32} (hn : nexthop ∈ S.switches)
    (hf : Framed p.hdr) (hl : p.hdr.LengthsAgree) (hu : S.Underway p.hdr)
    (hd : p.hdr.ipv4.dstAddr ∈ S.switches) : S.OnWire (p.failureRecoveryAct nexthop).hdr := by
  have hasks := hu.asks_of_mem hd
  obtain ⟨x, rest, ho, hops, hrest, hne, hlen⟩ := hu.eq_cons hd
  have hov : (p.failureRecoveryAct nexthop).hdr.overlay = nexthop :: rest := by
    change p.hdr.overlay.set 0 nexthop = _
    rw [ho]
    rfl
  have hlen' : (nexthop :: hops).length < overlaySize := by
    have hle := hu.terminated.length_le
    rw [ho, hrest] at hle
    simpa using hle
  refine ⟨(hf.setDstAddr nexthop).setOverlay _, hl.congr rfl ?_ rfl rfl, .inr ⟨?_, ?_, ?_, ?_⟩⟩
  · exact List.length_set
  · refine ⟨nexthop :: hops, ?_, ?_, hlen'⟩
    · rw [hov, hrest]
      rfl
    · intro y hy
      rcases List.mem_cons.mp hy with rfl | hy
      · exact ne_zero hn
      · exact hne y hy
  · intro _ _
    rw [Headers.swip, hov]
    exact ne_zero hn
  · exact fun _ => hu.src hasks
  · exact fun hno => absurd hasks hno

/-- The table `failure_recovery` keeps the lengths right. -/
theorem Configures.failureRecovery (ht : S.Configures t) (hp : S.Processed p.hdr) :
    S.OnWire (p.failureRecovery t).hdr := by
  have hsame : S.OnWire p.hdr := ⟨hp.framed, hp.lengths, hp.state.imp And.left id⟩
  by_cases hd : p.hdr.ipv4.dstAddr ∈ S.switches
  · have hu : S.Underway p.hdr := hp.state.resolve_left fun hno => hno.2 hd
    unfold Pipe.failureRecovery
    cases hact : t.failureRecovery p.hdr.ipv4.dstAddr (p.hdr.swip 1) p.hdr.ncHdr.vgroup with
    | failoverAct => exact failoverAct_onWire hp.framed hp.lengths hu hd
    | failoverWriteReplyAct =>
      refine ⟨Pipe.genReplyAct_framed hp.framed _, hp.lengths.congr rfl rfl rfl rfl, .inr ?_⟩
      have hno : ¬ (p.genReplyAct 13#8).hdr.Asks := by
        rintro (h10 | h12)
        · exact absurd h10 (by decide : (13#8 : BitVec 8) ≠ 10#8)
        · exact absurd h12 (by decide : (13#8 : BitVec 8) ≠ 12#8)
      exact ⟨hu.terminated, fun h => absurd h hno, fun h => absurd h hno,
        fun _ => hu.src (hu.asks_of_mem hd)⟩
    | failureRecoveryAct nexthop =>
      exact failureRecoveryAct_onWire (ht.nexthop hact) hp.framed hp.lengths hu hd
    | nop => exact hsame
    | dropPacketAct => exact hsame
  · rw [Pipe.failureRecovery, ht.recovery _ _ hd]
    exact hsame

theorem Configures.beforeRoute (ht : S.Configures t) (regs : Switch) (hf : Framed h)
    (hl : h.LengthsAgree) (hu : S.Underway h) : S.OnWire (beforeRoute t regs h).hdr := by
  rw [NetChain.beforeRoute, if_pos hf.ncHdr]
  apply ht.failureRecovery
  by_cases hs : t.Serves h
  · rw [Pipe.process_of_serves hs]
    exact answer_processed ht regs hf hl hu hs
  · rw [Pipe.process_of_not_serves hf.ncHdr hs]
    exact ⟨hf, hl, .inr hu⟩

end Site

/-- What a switch changes in every packet: time to live, MAC addresses, checksums. -/
def Headers.touch (h : Headers) (ttl : BitVec 8) (smac dmac : BitVec 48) (a b : BitVec 16) :
    Headers :=
  { h with
    ethernet := { h.ethernet with srcAddr := smac, dstAddr := dmac }
    ipv4 := { h.ipv4 with ttl := ttl, hdrChecksum := a }
    udp := { h.udp with checksum := b } }

theorem hop_eq_some {t : Tables} {regs : Switch} {x : List Bool} {o : Headers × List Bool}
    (ho : hop t regs x = some o) : ∃ ttl smac dmac a b,
      o = ((beforeRoute t regs (parse x).1).hdr.touch ttl smac dmac a b, (parse x).2) := by
  obtain ⟨g, hg, rfl⟩ := Option.map_eq_some_iff.mp ho
  obtain ⟨ttl, hi⟩ := ingress_hdr t regs (parse x).1
  unfold emit at hg
  split_ifs at hg
  obtain rfl := Option.some.inj hg
  unfold egress
  split
  · rename_i smac dmac _
    rw [hi]
    exact ⟨ttl, smac, dmac, _, _, rfl⟩
  · rw [hi]
    exact ⟨ttl, _, _, _, _, rfl⟩

theorem Site.OnWire.touch {S : Site} {h : Headers} (hw : S.OnWire h) (ttl : BitVec 8)
    (smac dmac : BitVec 48) (a b : BitVec 16) : S.OnWire (h.touch ttl smac dmac a b) := by
  refine ⟨?_, ?_, ?_⟩
  · exact ((hw.framed.setMac smac dmac).setTtl ttl).setChecksums a b
  · exact hw.lengths.congr rfl rfl rfl rfl
  · rcases hw.state with ho | hu
    · exact .inl ho
    · exact .inr ⟨hu.terminated, hu.ahead, hu.src, hu.dst⟩

/-- The bits of a NetChain header alone are no overlay list with a header behind it. -/
theorem parseOverlay_short (room : ℕ) {h : Headers} (hv : h.ncHdrValid = false) {l : List Bool}
    (hl : l.length ≤ 8 * ncHdrSize) : ∃ overlay,
      (parseOverlay room h l).1 = { h with overlay := overlay } ∧
        overlayBits overlay ++ (parseOverlay room h l).2 = overlayBits h.overlay ++ l := by
  induction room generalizing h l with
  | zero => exact ⟨h.overlay, rfl, rfl⟩
  | succ room ih =>
    unfold parseOverlay
    cases hx : field 32 l with
    | none => exact ⟨h.overlay, rfl, rfl⟩
    | some p =>
      obtain rfl : l = bits p.1 ++ p.2 := field_eq_some hx
      rw [List.length_append, Lib.bits_length] at hl
      have hcons : overlayBits (h.overlay ++ [p.1]) ++ p.2 =
          overlayBits h.overlay ++ (bits p.1 ++ p.2) := by
        simp [overlayBits]
      dsimp only
      by_cases h0 : p.1 = 0#32
      · rw [if_pos h0, parseNcHdr]
        cases hn : NcHdr.extract p.2 with
        | none => exact ⟨_, rfl, hcons⟩
        | some q =>
          have := NcHdr.length_of_extract hn
          omega
      · rw [if_neg h0]
        have hl' : p.2.length ≤ 8 * ncHdrSize := by omega
        obtain ⟨overlay, he, hb⟩ := ih (h := { h with overlay := h.overlay ++ [p.1] }) hv hl'
        exact ⟨overlay, he, hb.trans hcons⟩

theorem deparse_nil {h : Headers} (hf : Framed h) (ho : h.overlay = []) : deparse h [] =
    h.ethernet.bits ++ (h.ipv4.bits ++ (h.udp.bits ++ h.ncHdr.bits)) := by
  have htv : ¬ h.tcpValid = true := by
    rw [hf.tcp.1]
    exact Bool.false_ne_true
  rw [deparse, if_pos hf.ethernet.1, if_pos hf.ipv4.1, if_pos hf.udp.1, if_pos hf.ncHdr, if_neg htv,
    ho, overlayBits_nil, List.nil_append, List.nil_append, List.append_nil]

theorem deparse_unrecognised {h : Headers} (hf : Framed h) (overlay : List (BitVec 32))
    (payload : List Bool) :
    deparse { h with overlay := overlay, ncHdrValid := false, ncHdr := default } payload =
      h.ethernet.bits ++ (h.ipv4.bits ++ (h.udp.bits ++ (overlayBits overlay ++ payload))) := by
  have htv : ¬ h.tcpValid = true := by
    rw [hf.tcp.1]
    exact Bool.false_ne_true
  rw [deparse, if_pos hf.ethernet.1, if_pos hf.ipv4.1, if_pos hf.udp.1,
    if_neg Bool.false_ne_true, if_neg htv, List.nil_append, List.nil_append]

/-- A packet without an overlay list parses up to its UDP header; the NetChain header
is taken for overlay entries and payload. -/
theorem parse_deparse_nil {h : Headers} (hf : Framed h) (ho : h.overlay = []) :
    ∃ overlay, (parse (deparse h [])).1 =
        { h with overlay := overlay, ncHdrValid := false, ncHdr := default } ∧
      overlayBits overlay ++ (parse (deparse h [])).2 = h.ncHdr.bits := by
  have hbits := deparse_nil hf ho
  obtain ⟨⟨hev, het⟩, ⟨hiv, hip⟩, ⟨huv, hport⟩, ⟨htv, htcp⟩, -⟩ := hf
  have hproto : ¬ h.ipv4.protocol = 6#8 := by
    rw [hip]
    decide
  have hparse : parse (deparse h []) = parseOverlay overlaySize
      { h with overlay := [], ncHdrValid := false, ncHdr := default } h.ncHdr.bits := by
    rw [hbits, parse, parseEthernet, Ethernet.extract_bits]
    dsimp only
    rw [if_pos het, parseIpv4, Ipv4.extract_bits]
    dsimp only
    rw [if_neg hproto, if_pos hip, parseUdp, Udp.extract_bits]
    dsimp only
    rw [if_pos hport]
    rcases h with ⟨ev, e, iv, ip, uv, u, tv, tcp, overlay, nv, nc⟩
    dsimp only at hev hiv huv htv htcp
    subst ev iv uv tv tcp
    rfl
  rw [hparse]
  obtain ⟨overlay, he, hb⟩ := parseOverlay_short overlaySize
    (h := { h with overlay := [], ncHdrValid := false, ncHdr := default }) rfl
    h.ncHdr.bits_length.le
  rw [overlayBits_nil, List.nil_append] at hb
  exact ⟨overlay, he, hb⟩

namespace Site

variable {S : Site} {t : Tables} {h : Headers}

/-- A packet that no switch recognises any more keeps its NetChain header. -/
theorem hop_passive {regs : Switch} {o : Headers × List Bool} (hw : S.OnWire h)
    (hnil : h.overlay = []) (ho : hop t regs (deparse h []) = some o) :
    o.1.ncHdrValid = false ∧ ∃ g, deparse o.1 o.2 = deparse g [] ∧ S.OnWire g := by
  obtain ⟨overlay, hp, hb⟩ := parse_deparse_nil hw.framed hnil
  obtain ⟨ttl, smac, dmac, a, b, rfl⟩ := hop_eq_some ho
  have hsame : (NetChain.beforeRoute t regs (parse (deparse h [])).1).hdr =
      { h with overlay := overlay, ncHdrValid := false, ncHdr := default } := by
    rw [hp, NetChain.beforeRoute, if_neg Bool.false_ne_true]
    rfl
  have hw' := hw.touch ttl smac dmac a b
  rw [hsame]
  refine ⟨rfl, _, ?_, hw'⟩
  rw [deparse_nil hw'.framed hnil]
  refine (deparse_unrecognised hw'.framed overlay _).trans ?_
  rw [hb]
  rfl

/-- One hop of a packet: as headers where the switch has recognised it, and as bits
in every case. -/
theorem Configures.hop (ht : S.Configures t) {regs : Switch} {o : Headers × List Bool}
    (hw : S.OnWire h) (ho : hop t regs (deparse h []) = some o) :
    (o.1.ncHdrValid = true → o.1.LengthsAgree ∧ o.2 = []) ∧
      ∃ g, deparse o.1 o.2 = deparse g [] ∧ S.OnWire g := by
  rcases hw.state with hnil | hu
  · obtain ⟨hv, hg⟩ := hop_passive hw hnil ho
    refine ⟨fun h => ?_, hg⟩
    rw [hv] at h
    exact absurd h Bool.false_ne_true
  · obtain ⟨ttl, smac, dmac, a, b, rfl⟩ := hop_eq_some ho
    rw [parse_deparse hw.framed hu.terminated]
    have hg := (ht.beforeRoute regs hw.framed hw.lengths hu).touch ttl smac dmac a b
    exact ⟨fun _ => ⟨hg.lengths, rfl⟩, _, rfl, hg⟩

/-- The packets a request leads to, at switches in any state and with any tables the
controller may have given them. -/
inductive Trip (S : Site) (request : Headers) : List Bool → Prop
  | request : Trip S request (deparse request [])
  | hop {x : List Bool} {t : Tables} {regs : Switch} {o : Headers × List Bool} :
    Trip S request x → S.Configures t → NetChain.hop t regs x = some o →
      Trip S request (deparse o.1 o.2)

theorem Trip.onWire {request : Headers} (hr : S.OnWire request) {x : List Bool}
    (hx : S.Trip request x) : ∃ h, x = deparse h [] ∧ S.OnWire h := by
  induction hx with
  | request => exact ⟨request, rfl, hr⟩
  | hop _ ht ho ih =>
    obtain ⟨h, rfl, hw⟩ := ih
    exact (ht.hop hw ho).2

theorem getChainOfKey_mem {entry : ℕ → Option (List ℕ)} {key : ℕ}
    {chains : List (ℕ × List (BitVec 32))} {chain : List (BitVec 32)}
    (h : getChainOfKey entry key chains = some chain) :
    chain = [] ∨ ∃ i, (i, chain) ∈ chains := by
  induction chains with
  | nil => exact .inl (Option.some.inj h).symm
  | cons c chains ih =>
    rw [getChainOfKey] at h
    cases he : entry c.1 with
    | none => simp [he] at h
    | some keys =>
      simp only [he] at h
      split_ifs at h
      · obtain rfl := Option.some.inj h
        exact .inr ⟨c.1, List.mem_cons_self⟩
      · exact (ih h).imp id fun ⟨i, hi⟩ => ⟨i, List.mem_cons_of_mem _ hi⟩

/-- The chains of the ring are made of switches of the site. -/
def Holds (S : Site) (r : Ring) : Prop := ∀ c ∈ r.chains, ∀ ip ∈ c.2, ip ∈ S.switches

theorem Holds.mem {r : Ring} (hr : S.Holds r) {key : ℕ} {chain : List (BitVec 32)}
    (hc : getChainOfKey r.entry key r.chains = some chain) {i : ℕ} {ip : BitVec 32}
    (hi : chain[i]? = some ip) : ip ∈ S.switches := by
  rcases getChainOfKey_mem hc with rfl | ⟨v, hv⟩
  · simp at hi
  · exact hr _ hv ip (List.mem_of_getElem? hi)

theorem sendto_onWire {s : Socket} (hs : s.ipv4.srcAddr = S.client) {a b c dst : BitVec 32}
    (ha : a ∈ S.switches) (hb : b ∈ S.switches) (hc : c ∈ S.switches) {nc : NcHdr}
    (hsc : nc.sc = 4#8) (hop : nc.op = 10#8 ∨ nc.op = 12#8) :
    S.OnWire (s.sendto [a, b, c, 0#32] nc dst) := by
  have hsize : (overlayBits [a, b, c, 0#32] ++ nc.bits).length / 8 = 54 := by
    rw [List.length_append, overlayBits_length, nc.bits_length]
    norm_num [ncHdrSize]
  refine ⟨⟨⟨rfl, rfl⟩, ⟨rfl, rfl⟩, ⟨rfl, .inl rfl⟩, ⟨rfl, rfl⟩, rfl⟩, ⟨?_, ?_, ?_⟩, .inr ?_⟩
  · change nc.sc.toNat = 4
    rw [hsc]
    rfl
  · simp only [Socket.sendto, hsize]
    rfl
  · simp only [Socket.sendto, hsize]
    rfl
  · refine ⟨⟨[a, b, c], rfl, ?_, by simp [overlaySize]⟩, ?_, fun _ => hs, fun hno => absurd hop hno⟩
    · intro x hx
      simp only [List.mem_cons, List.not_mem_nil, or_false] at hx
      rcases hx with rfl | rfl | rfl
      · exact ne_zero ha
      · exact ne_zero hb
      · exact ne_zero hc
    · exact fun _ _ => ne_zero ha

theorem readReq_onWire {s : Socket} (hs : s.ipv4.srcAddr = S.client) {r : Ring} (hr : S.Holds r)
    {numKv sizeVgroup index : ℕ} {g : Headers}
    (h : readReq s r numKv sizeVgroup index = some g) : S.OnWire g := by
  simp only [readReq, Option.bind_eq_bind, Option.bind_eq_some_iff, Option.pure_def,
    Option.some.injEq] at h
  obtain ⟨keys, -, key, -, g, -, vgroup, -, chain, hc, s0, h0, s1, h1, s2, h2, ip, -, rfl⟩ := h
  exact sendto_onWire hs (hr.mem hc h2) (hr.mem hc h1) (hr.mem hc h0) rfl (.inl rfl)

theorem writeReq_onWire {s : Socket} (hs : s.ipv4.srcAddr = S.client) {r : Ring} (hr : S.Holds r)
    {numKv sizeVgroup index : ℕ} {g : Headers}
    (h : writeReq s r numKv sizeVgroup index = some g) : S.OnWire g := by
  simp only [writeReq, Option.bind_eq_bind, Option.bind_eq_some_iff, Option.pure_def,
    Option.some.injEq] at h
  obtain ⟨keys, -, key, -, g, -, vgroup, -, chain, hc, s0, h0, s1, h1, s2, h2, rfl⟩ := h
  exact sendto_onWire hs (hr.mem hc h0) (hr.mem hc h1) (hr.mem hc h2) rfl (.inr rfl)

/-- Whatever way a request of the client takes, a packet that a switch emits has the
lengths of its overlay list: the headers of the switch where it has recognised the
packet, and the bits on the wire in every case. -/
theorem request_lengths_agree (S : Site) {s : Socket} (hs : s.ipv4.srcAddr = S.client) {r : Ring}
    (hr : S.Holds r) {numKv sizeVgroup index : ℕ} {request : Headers}
    (hreq : readReq s r numKv sizeVgroup index = some request ∨
      writeReq s r numKv sizeVgroup index = some request)
    {x : List Bool} (hx : S.Trip request x) {t : Tables} (ht : S.Configures t) {regs : Switch}
    {o : Headers × List Bool} (ho : NetChain.hop t regs x = some o) :
    (o.1.ncHdrValid = true → o.1.LengthsAgree ∧ o.2 = []) ∧
      ∃ h, deparse o.1 o.2 = deparse h [] ∧ Framed h ∧ h.LengthsAgree := by
  have hw : S.OnWire request := by
    rcases hreq with hreq | hreq
    · exact readReq_onWire hs hr hreq
    · exact writeReq_onWire hs hr hreq
  obtain ⟨h, rfl, hw⟩ := hx.onWire hw
  obtain ⟨hv, g, hg, hgw⟩ := ht.hop hw ho
  exact ⟨hv, g, hg, hgw.framed, hgw.lengths⟩

end Site

namespace Plan

variable {n : ℕ} {P : Plan n}

/-- The entries of `failure_recovery` are for the failed switch, and point to the
backup. -/
def RulesKnown (P : Plan n) (rules : List Rule) : Prop :=
  ∀ r ∈ rules, r.dstAddr = P.chain.ip P.failed ∧
    ∀ x, r.action = .failureRecoveryAct x → x = P.backupIp

theorem RulesKnown.cons {rules : List Rule} (hr : P.RulesKnown rules) {r : Rule}
    (hd : r.dstAddr = P.chain.ip P.failed)
    (ha : ∀ x, r.action = .failureRecoveryAct x → x = P.backupIp) : P.RulesKnown (r :: rules) := by
  intro r' hr'
  rcases List.mem_cons.mp hr' with rfl | hr'
  · exact ⟨hd, ha⟩
  · exact hr r' hr'

theorem control_rulesKnown {s : World n} (hr : P.RulesKnown s.rules) :
    P.RulesKnown (P.control s).rules := by
  unfold control
  dsimp only
  split
  · split_ifs
    · exact hr.cons rfl fun x hx => by cases hx
    · exact hr
  all_goals first
    | exact hr
    | exact hr.cons rfl fun x hx => (RecoveryAction.failureRecoveryAct.inj hx).symm

theorem rulesKnown {s : World n} (h : P.recovery.Reachable s) : P.RulesKnown s.rules := by
  refine h.invariant (P := fun s => P.RulesKnown s.rules) ?_ ?_
  · rintro s ⟨hrules, -⟩ r hr
    rw [hrules, failoverRules] at hr
    split_ifs at hr
    · simp at hr
    · obtain rfl := List.mem_singleton.mp hr
      exact ⟨rfl, fun x hx => by cases hx⟩
    · obtain rfl := List.mem_singleton.mp hr
      exact ⟨rfl, fun x hx => by cases hx⟩
  · intro s a _ hr _
    cases a with
    | control => exact control_rulesKnown hr
    | send h => exact hr
    | deliver d h =>
      change P.RulesKnown (P.deliver s d h).rules
      rw [(deliver_frame P s d h).2.1]
      exact hr

/-- The switches of the plan with a client beside them. -/
def site (P : Plan n) (client : BitVec 32) (hc : ∀ j, P.chain.ip j ≠ client)
    (hb : P.backupIp ≠ client) (h0 : client ≠ 0#32) : Site where
  switches := {x | (∃ j, P.chain.ip j = x) ∨ P.backupIp = x}
  zero_notMem := by
    rintro (⟨j, hj⟩ | hj)
    · exact P.chain.ip_ne_zero j hj
    · exact P.backupIp_ne_zero hj
  client := client
  client_notMem := by
    rintro (⟨j, hj⟩ | hj)
    · exact hc j hj
    · exact hb hj
  client_ne_zero := h0

/-- At any time of a recovery the tables are as the journeys of requests need them. -/
theorem tables_configured {client : BitVec 32} (hc : ∀ j, P.chain.ip j ≠ client)
    (hb : P.backupIp ≠ client) (h0 : client ≠ 0#32) {s : World n} (h : P.recovery.Reachable s)
    (d : Node n) : (P.site client hc hb h0).Configures (P.tables s d) := by
  have hrules := rulesKnown h
  have hchain (j : Fin n) : (P.site client hc hb h0).Configures (P.chain.tables j) := by
    refine ⟨?_, rfl, fun _ _ _ => rfl, fun hx => by cases hx⟩
    intro k x hx
    obtain ⟨i, -, rfl⟩ := Option.map_eq_some_iff.mp hx
    exact .inl ⟨j, rfl⟩
  cases d with
  | member j =>
    rw [tables]
    split_ifs
    · refine ⟨(hchain j).address, rfl, ?_, ?_⟩
      · intro dst next vgroup hd
        change Rule.actionFor s.rules dst next vgroup = .nop
        rw [Rule.actionFor]
        cases hl : Rule.lookup s.rules dst vgroup with
        | none => rfl
        | some r =>
          obtain ⟨hr, hm⟩ := Rule.lookup_mem hl
          exact absurd (.inl ⟨P.failed, ((hrules r hr).1.symm.trans hm.1.symm)⟩) hd
      · intro dst next vgroup x hx
        change Rule.actionFor s.rules dst next vgroup = _ at hx
        rw [Rule.actionFor] at hx
        cases hl : Rule.lookup s.rules dst vgroup with
        | none =>
          rw [hl] at hx
          cases hx
        | some r =>
          rw [hl] at hx
          exact .inr ((hrules r (Rule.lookup_mem hl).1).2 x hx).symm
    · exact hchain j
  | backup =>
    refine ⟨?_, rfl, fun _ _ _ => rfl, fun hx => by cases hx⟩
    intro k x hx
    change (if k ∈ s.addresses then some (P.backupIp, Chain.role P.failed) else none) = some x at hx
    split_ifs at hx
    obtain rfl := Option.some.inj hx
    exact .inr rfl

end Plan

/-- The client `10.0.0.2` beside the switches of `labPlan`. -/
def labSite : Site := labPlan.site 0x0a000002#32 (by decide) (by decide) (by decide)

def labSocket : Socket where
  ethernet := ⟨0#48, 0#48, 0#16⟩
  ipv4 := ⟨4#4, 5#4, 0#8, 0#16, 0#16, 0#3, 0#13, 64#8, 17#8, 0#16, 0x0a000002#32, 0#32⟩
  udp := ⟨40000#16, 0#16, 0#16, 0#16⟩

/-- The first chain of `vring.txt` with the keys of `ENTRY`. -/
def labRing : Ring where
  entry i := if i = 1 then some ((List.range 200).map fun i => 2018 + i) else none
  chains := [(1, [0x0a006401#32, 0x0a006402#32, 0x0a006403#32])]

def labDatagram : Headers :=
  labSocket.sendto [0x0a006401#32, 0x0a006402#32, 0x0a006403#32, 0#32]
    ⟨12#8, 4#8, 0#16, 2018#128, 222#128, 0#16⟩ 0x0a006401#32

theorem labDatagram_eq : writeReq labSocket labRing 120 120 0 = some labDatagram := rfl

theorem labRing_holds : labSite.Holds labRing := by
  intro c hc ip hip
  obtain rfl := List.mem_singleton.mp hc
  simp only [List.mem_cons, List.not_mem_nil, or_false] at hip
  rcases hip with rfl | rfl | rfl
  · exact .inl ⟨0, rfl⟩
  · exact .inl ⟨1, rfl⟩
  · exact .inl ⟨2, rfl⟩

/-- With the second switch failed, the head takes two addresses off a write: its own
and that of the failed switch. -/
theorem request_lengths_agree_lab : ∃ o : Headers × List Bool,
    hop (labPlan.tables labFailed (.member 0)) seqZero (deparse labDatagram []) = some o ∧
      o.1.overlay = [0x0a006403#32, 0#32] ∧ o.1.LengthsAgree := by
  have hw : labSite.OnWire labDatagram := Site.writeReq_onWire rfl labRing_holds labDatagram_eq
  have hterm : Terminated labDatagram.overlay := (hw.state.resolve_left (by decide)).terminated
  have hsome : (emit (labPlan.tables labFailed (.member 0)) seqZero labDatagram).isSome := by decide
  have ho := hop_of_emit hw.framed hterm hsome
  have ht : labSite.Configures (labPlan.tables labFailed (.member 0)) :=
    Plan.tables_configured _ _ _ (.init labFailed_init) _
  exact ⟨_, ho, by decide, ((Site.request_lengths_agree labSite rfl labRing_holds (.inr labDatagram_eq)
    .request ht ho).1 rfl).1⟩

end P4Survey.NetChain
