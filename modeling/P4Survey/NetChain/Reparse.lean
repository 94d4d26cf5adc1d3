import P4Survey.NetChain.Parser
import P4Survey.NetChain.Write

/-! # Packets on their way parse again

The journey of a client request through the switches of a chain, as bit
strings. Every packet that a switch emits parses again as it was deparsed,
except the reply of the tail to a write it stored: there the pipeline pops the
overlay list twice and nothing is left of it, not even the terminating zero.
-/

namespace P4Survey.NetChain
open Lib

namespace Framed

variable {h : Headers} (hf : Framed h)
include hf

theorem setTtl (ttl : BitVec 8) : Framed { h with ipv4 := { h.ipv4 with ttl := ttl } } :=
  ⟨hf.ethernet, hf.ipv4, hf.udp, hf.tcp, hf.ncHdr⟩

theorem setDstAddr (dst : BitVec 32) : Framed { h with ipv4 := { h.ipv4 with dstAddr := dst } } :=
  ⟨hf.ethernet, hf.ipv4, hf.udp, hf.tcp, hf.ncHdr⟩

theorem setChecksums (a b : BitVec 16) : Framed { h with
    ipv4 := { h.ipv4 with hdrChecksum := a }, udp := { h.udp with checksum := b } } :=
  ⟨hf.ethernet, hf.ipv4, hf.udp, hf.tcp, hf.ncHdr⟩

theorem setMac (smac dmac : BitVec 48) : Framed { h with
    ethernet := { h.ethernet with srcAddr := smac, dstAddr := dmac } } :=
  ⟨hf.ethernet, hf.ipv4, hf.udp, hf.tcp, hf.ncHdr⟩

theorem setNcHdr (x : NcHdr) : Framed { h with ncHdr := x } :=
  ⟨hf.ethernet, hf.ipv4, hf.udp, hf.tcp, hf.ncHdr⟩

theorem setOverlay (l : List (BitVec 32)) : Framed { h with overlay := l } :=
  ⟨hf.ethernet, hf.ipv4, hf.udp, hf.tcp, hf.ncHdr⟩

end Framed

namespace Pipe

variable {p : Pipe}

theorem popChainAct_ethernet : p.popChainAct.hdr.ethernetValid = p.hdr.ethernetValid ∧
    p.popChainAct.hdr.ethernet = p.hdr.ethernet := by
  rcases p with ⟨_, ⟨⟩, _⟩
  simp only [popChainAct, and_self]

theorem popChainAct_protocol : p.popChainAct.hdr.ipv4Valid = p.hdr.ipv4Valid ∧
    p.popChainAct.hdr.ipv4.protocol = p.hdr.ipv4.protocol := by
  rcases p with ⟨_, ⟨_, _, _, ⟨⟩, _⟩, _⟩
  simp only [popChainAct, and_self]

theorem popChainAct_dstPort : p.popChainAct.hdr.udp.dstPort = p.hdr.udp.dstPort := by
  rcases p with ⟨_, ⟨_, _, _, _, _, ⟨⟩, _⟩, _⟩
  simp only [popChainAct]

theorem popChainAct_tcp : p.popChainAct.hdr.tcp = p.hdr.tcp := by
  rcases p with ⟨_, ⟨⟩, _⟩
  simp only [popChainAct]

theorem popChainAct_framed (hf : Framed p.hdr) : Framed p.popChainAct.hdr := by
  constructor
  · rw [popChainAct_ethernet.1, popChainAct_ethernet.2]
    exact hf.ethernet
  · rw [popChainAct_protocol.1, popChainAct_protocol.2]
    exact hf.ipv4
  · rw [(popChainAct_valid p).2.1, popChainAct_dstPort]
    exact hf.udp
  · rw [(popChainAct_valid p).1, popChainAct_tcp]
    exact hf.tcp
  · rw [(popChainAct_valid p).2.2]
    exact hf.ncHdr

theorem genReplyAct_framed (hf : Framed p.hdr) (m : BitVec 8) : Framed (p.genReplyAct m).hdr :=
  ⟨hf.ethernet, hf.ipv4, ⟨hf.udp.1, .inr rfl⟩, hf.tcp, hf.ncHdr⟩

theorem operate_framed (hf : Framed p.hdr) : Framed p.operate.hdr := by
  unfold operate
  split_ifs
  · exact hf.setNcHdr _
  · have hm : Framed p.maintainSequenceAct.hdr := hf.setNcHdr _
    by_cases hr : p.role = 100#16
    · simp only [writeRequest, hr, if_true, true_or, maintainSequenceAct]
      exact popChainAct_framed (p := p.maintainSequenceAct.assignValueAct) hm
    · by_cases hs : p.seq < p.hdr.ncHdr.seq
      · simp only [writeRequest, hr, hs, if_false, or_true, if_true]
        exact popChainAct_framed (p := p.assignValueAct) hf
      · simp only [writeRequest, hr, hs, if_false, or_self]
        exact hf
  · exact hf

theorem answer_framed (t : Tables) (hf : Framed p.hdr) : Framed (p.answer t).hdr := by
  unfold answer
  split_ifs
  · have ha : Framed (p.popChainAgain t).hdr := by
      unfold popChainAgain
      split_ifs
      · exact popChainAct_framed hf
      · exact hf
    unfold genReply
    split
    · exact genReplyAct_framed ha _
    · exact ha
  · exact hf.setDstAddr _

theorem failureRecovery_framed (t : Tables) (hf : Framed p.hdr) :
    Framed (p.failureRecovery t).hdr := by
  unfold failureRecovery
  cases t.failureRecovery p.hdr.ipv4.dstAddr (p.hdr.swip 1) p.hdr.ncHdr.vgroup with
  | failoverAct => exact popChainAct_framed (hf.setDstAddr _)
  | failoverWriteReplyAct => exact genReplyAct_framed hf _
  | failureRecoveryAct nexthop =>
    exact (hf.setDstAddr nexthop).setOverlay (p.hdr.overlay.set 0 nexthop)
  | nop => exact hf
  | dropPacketAct => exact hf

end Pipe

/-- No switch changes the kind of a NetChain packet, whatever its tables. -/
theorem emit_framed {t : Tables} {regs : Switch} {h g : Headers} (hf : Framed h)
    (hg : emit t regs h = some g) : Framed g := by
  have hb : Framed (beforeRoute t regs h).hdr := by
    rw [beforeRoute, if_pos hf.ncHdr]
    apply Pipe.failureRecovery_framed
    by_cases hs : t.Serves h
    · rw [Pipe.process_of_serves hs]
      exact Pipe.answer_framed t (Pipe.operate_framed (p := Pipe.located t regs h) hf)
    · rw [Pipe.process_of_not_serves hf.ncHdr hs]
      exact hf
  have hi : Framed (ingress t regs h).hdr := by
    obtain ⟨ttl, he⟩ := ingress_hdr t regs h
    rw [he]
    exact hb.setTtl ttl
  unfold emit at hg
  split_ifs at hg
  obtain rfl := Option.some.inj hg
  unfold egress
  split
  · exact hi.setMac _ _
  · exact hi

theorem computeChecksum_framed {h : Headers} (hf : Framed h) (payload : List Bool) :
    Framed (computeChecksum h payload) := hf.setChecksums _ _

theorem Pipe.operate_srcAddr (p : Pipe) :
    p.operate.hdr.ipv4.srcAddr = p.hdr.ipv4.srcAddr := by
  unfold operate
  split_ifs
  · rfl
  · by_cases hr : p.role = 100#16
    · simp only [writeRequest, hr, if_true, true_or, maintainSequenceAct, popChainAct_srcAddr]
      rfl
    · by_cases hs : p.seq < p.hdr.ncHdr.seq
      · simp only [writeRequest, hr, hs, if_false, or_true, if_true, popChainAct_srcAddr]
        rfl
      · simp only [writeRequest, hr, hs, if_false, or_self]
        rfl
  · rfl

namespace Chain

variable {n : ℕ} (c : Chain n)

def last : Fin n := ⟨n - 1, Nat.sub_lt c.pos Nat.one_pos⟩

/-- A request as the client at address `a` builds it: a write lists the chain from
the head on and goes to the head, a read lists it backwards and goes to the tail. -/
structure IsRequest (a : BitVec 32) (h : Headers) : Prop where
  framed : Framed h
  port : h.udp.dstPort = 8888#16
  src : h.ipv4.srcAddr = a
  seq : h.ncHdr.seq = 0#16
  kind : (h.ncHdr.op = 12#8 ∧ c.Bound 0 h.query) ∨
    (h.ncHdr.op = 10#8 ∧ h.overlay = (List.ofFn c.ip).reverse ++ [0#32] ∧
      h.ipv4.dstAddr = c.ip c.last)

/-- The tail gets a write that is newer than what it stores. -/
def TailStores (j : Fin n) (regs : Switch) (h : Headers) : Prop :=
  role j = 102#16 ∧ (c.tables j).Serves h ∧ h.ncHdr.op = 12#8 ∧
    regs.seq ((c.tables j).index h.ncHdr.key) < h.ncHdr.seq

/-- The packets a request leads to, at switches in any state, as long as the tail
stores nothing. -/
inductive Journey (request : Headers × List Bool) : List Bool → Prop
  | request : Journey request (deparse request.1 request.2)
  | hop {x : List Bool} {j : Fin n} {regs : Switch} {o : Headers × List Bool} :
    Journey request x → ¬ c.TailStores j regs (parse x).1 → hop (c.tables j) regs x = some o →
      Journey request (deparse o.1 o.2)

/-- What a packet of a client at address `a` looks like along its journey. -/
inductive Travels (a : BitVec 32) (h : Headers) : Prop
  | write (m : ℕ) : h.ncHdr.op = 12#8 → h.ipv4.srcAddr = a → c.Bound m h.query →
    (m = 0 ∨ ∃ i, c.index h.ncHdr.key = some i) → Travels a h
  | read : h.ncHdr.op = 10#8 → h.ipv4.srcAddr = a →
    h.overlay = (List.ofFn c.ip).reverse ++ [0#32] → h.ipv4.dstAddr = c.ip c.last → Travels a h
  | reply {i : BitVec 16} : h.ncHdr.op ≠ 10#8 → h.ncHdr.op ≠ 12#8 → h.ipv4.dstAddr = a →
    c.index h.ncHdr.key = some i → Terminated h.overlay → Travels a h

variable {c} {a : BitVec 32} {h g : Headers} {j : Fin n} {regs : Switch} {i : BitVec 16}

theorem Travels.congr (ht : c.Travels a h) (hq : g.query = h.query)
    (hs : g.ipv4.srcAddr = h.ipv4.srcAddr) : c.Travels a g := by
  have hop : g.ncHdr.op = h.ncHdr.op := congrArg Query.op hq
  have hkey : g.ncHdr.key = h.ncHdr.key := congrArg Query.key hq
  have hov : g.overlay = h.overlay := congrArg Query.overlay hq
  have hd : g.ipv4.dstAddr = h.ipv4.dstAddr := congrArg Query.dstAddr hq
  cases ht with
  | write m h12 hsrc hb hm => exact .write m (hop ▸ h12) (hs ▸ hsrc) (hq ▸ hb) (hkey ▸ hm)
  | read h10 hsrc ho hd' => exact .read (hop ▸ h10) (hs ▸ hsrc) (hov ▸ ho) (hd ▸ hd')
  | reply h10 h12 hd' hk ho => exact .reply (hop ▸ h10) (hop ▸ h12) (hd ▸ hd') (hkey ▸ hk) (hov ▸ ho)

theorem overlayFrom_terminated (hn : n < overlaySize) (m : ℕ) : Terminated (c.overlayFrom m) := by
  refine ⟨(List.ofFn c.ip).drop m, rfl, ?_, ?_⟩
  · intro x hx
    obtain ⟨j, rfl⟩ := List.mem_ofFn.mp (List.mem_of_mem_drop hx)
    exact c.ip_ne_zero j
  · rw [List.length_drop, List.length_ofFn]
    omega

theorem Travels.terminated (hn : n < overlaySize) (ht : c.Travels a h) :
    Terminated h.overlay := by
  cases ht with
  | write m _ _ hb _ =>
    rw [show h.overlay = _ from hb.1]
    exact overlayFrom_terminated hn m
  | read _ _ ho _ =>
    refine ⟨_, ho, ?_, ?_⟩
    · intro x hx
      obtain ⟨j, rfl⟩ := List.mem_ofFn.mp (List.mem_reverse.mp hx)
      exact c.ip_ne_zero j
    · rw [List.length_reverse, List.length_ofFn]
      exact hn
  | reply _ _ _ _ ho => exact ho

/-- The tail turns a request it knows into a reply to the client. -/
theorem answer_tail {p : Pipe} (hr : p.role = 102#16) (hj : role j = 102#16) {m : BitVec 8}
    (hm : genReply p.hdr.ncHdr.op = some m) :
    (p.answer (c.tables j)).hdr.ncHdr.op = m ∧
      (p.answer (c.tables j)).hdr.ncHdr.key = p.hdr.ncHdr.key ∧
      (p.answer (c.tables j)).hdr.ipv4.dstAddr = p.hdr.ipv4.srcAddr ∧
      (p.answer (c.tables j)).hdr.overlay = p.hdr.overlay.tail := by
  have hpop : p.popChainAgain (c.tables j) = p.popChainAct := by
    simp [Pipe.popChainAgain, tables, hj]
  have hgen : (c.tables j).genReply p.popChainAct.hdr.ncHdr.op = some m := by
    rw [Pipe.popChainAct_ncHdr]
    exact hm
  rw [Pipe.answer, if_pos hr, hpop, Pipe.genReply, hgen]
  simp only [Pipe.genReplyAct, Pipe.popChainAct_ncHdr, Pipe.popChainAct_srcAddr,
    Pipe.popChainAct_overlay, and_self]

/-- At the tail the operation is followed by the reply. -/
theorem beforeRoute_tail (hs : (c.tables j).Serves h) (hk : c.index h.ncHdr.key = some i)
    (hj : role j = 102#16) {p : Pipe} (hp : (Pipe.located (c.tables j) regs h).operate = p)
    {m : BitVec 8} (hm : genReply p.hdr.ncHdr.op = some m) :
    (beforeRoute (c.tables j) regs h).hdr.ncHdr.op = m ∧
      (beforeRoute (c.tables j) regs h).hdr.ncHdr.key = p.hdr.ncHdr.key ∧
      (beforeRoute (c.tables j) regs h).hdr.ipv4.dstAddr = h.ipv4.srcAddr ∧
      (beforeRoute (c.tables j) regs h).hdr.overlay = p.hdr.overlay.tail := by
  have hsrc := Pipe.operate_srcAddr (Pipe.located (c.tables j) regs h)
  obtain ⟨-, hrole⟩ := Pipe.operate_isWrite (Pipe.located (c.tables j) regs h)
  rw [hp] at hsrc hrole
  have hr : p.role = 102#16 := by
    rw [hrole]
    change (c.tables j).role h.ncHdr.key = 102#16
    rwa [tables_role hk]
  rw [beforeRoute_of_serves hs, Pipe.failureRecovery_nop fun _ _ _ => rfl, hp]
  obtain ⟨h1, h2, h3, h4⟩ := answer_tail hr hj hm (c := c)
  exact ⟨h1, h2, h3.trans hsrc, h4⟩

/-- A write at a switch before the tail stays a write of the same client. -/
theorem Travels.write_next (hs : (c.tables j).Serves h) (h12 : h.ncHdr.op = 12#8)
    (hk : c.index h.ncHdr.key = some i) (hsrc : h.ipv4.srcAddr = a) (hb : c.Bound j h.query)
    (hj : role j ≠ 102#16) : c.Travels a (beforeRoute (c.tables j) regs h).hdr := by
  have hw := beforeRoute_isWrite_of_ne_tail regs hs h12 hk hj
  have hsrc' : (beforeRoute (c.tables j) regs h).hdr.ipv4.srcAddr = a := by
    rw [beforeRoute_of_ne_tail regs hs hk hj]
    exact (Pipe.operate_srcAddr (Pipe.located (c.tables j) regs h)).trans hsrc
  rcases beforeRoute_write regs hs h12 hk hb with ⟨-, -, hp⟩ | ⟨-, -, -, hp⟩ | ⟨-, -, -, hp⟩
  · exact .write _ hw.2 hsrc' hp.bound (.inr ⟨i, hp.key ▸ hk⟩)
  · exact .write _ hw.2 hsrc' (hp hw).bound (.inr ⟨i, (hp hw).key ▸ hk⟩)
  · exact .write _ hw.2 hsrc' (hp hw).bound (.inr ⟨i, (hp hw).key ▸ hk⟩)

/-- A write that the tail refuses leaves as a reply with the terminator alone. -/
theorem Travels.write_refused (hs : (c.tables j).Serves h) (h12 : h.ncHdr.op = 12#8)
    (hk : c.index h.ncHdr.key = some i) (hsrc : h.ipv4.srcAddr = a) (hb : c.Bound j h.query)
    (hj : role j = 102#16) (hle : ¬ regs.seq i < h.ncHdr.seq) :
    c.Travels a (beforeRoute (c.tables j) regs h).hdr := by
  have hop : (Pipe.located (c.tables j) regs h).operate =
      (Pipe.located (c.tables j) regs h).dropPacketAct := by
    apply Pipe.operate_refuse h12
    · change (c.tables j).role h.ncHdr.key ≠ 100#16
      rw [tables_role hk, hj]
      decide
    · rwa [Pipe.located, tables_index hk]
  have hm : genReply (Pipe.located (c.tables j) regs h).dropPacketAct.hdr.ncHdr.op = some 13#8 := by
    change genReply h.ncHdr.op = _
    rw [h12]
    rfl
  obtain ⟨h1, h2, h3, h4⟩ := beforeRoute_tail hs hk hj hop hm
  refine .reply (by rw [h1]; decide) (by rw [h1]; decide) (h3.trans hsrc) (h2 ▸ hk) ?_
  rw [h4]
  change Terminated h.overlay.tail
  rw [hb.overlay_tail, (role_eq_tail.mp hj).2, overlayFrom_last]
  exact ⟨[], rfl, by simp, by decide⟩

/-- The reply of the tail to a write it stores has no overlay list at all. -/
theorem tailStores_overlay (ht : c.TailStores j regs h) (hk : c.index h.ncHdr.key = some i)
    (hb : c.Bound j h.query) : (beforeRoute (c.tables j) regs h).hdr.overlay = [] := by
  obtain ⟨hj, hs, h12, hlt⟩ := ht
  have hop : (Pipe.located (c.tables j) regs h).operate =
      (Pipe.located (c.tables j) regs h).assignValueAct.popChainAct := by
    apply Pipe.operate_accept h12
    · change (c.tables j).role h.ncHdr.key ≠ 100#16
      rw [tables_role hk, hj]
      decide
    · exact hlt
  have hm : genReply
      (Pipe.located (c.tables j) regs h).assignValueAct.popChainAct.hdr.ncHdr.op = some 13#8 := by
    rw [Pipe.popChainAct_ncHdr]
    change genReply h.ncHdr.op = _
    rw [h12]
    rfl
  obtain ⟨-, -, -, h4⟩ := beforeRoute_tail hs hk hj hop hm
  rw [h4, Pipe.popChainAct_overlay]
  change h.overlay.tail.tail = []
  rw [hb.overlay_tail, (role_eq_tail.mp hj).2, overlayFrom_last]
  rfl

theorem reverse_ofFn_ip : (List.ofFn c.ip).reverse = c.ip c.last :: (List.ofFn c.ip).reverse.tail := by
  have hne : (List.ofFn c.ip).reverse ≠ [] := by
    have := c.pos
    rw [Ne, List.reverse_eq_nil_iff, List.ofFn_eq_nil_iff]
    omega
  conv_lhs => rw [← List.cons_head_tail hne]
  rw [List.head_reverse, List.getLast_ofFn]
  rfl

theorem Travels.read_served (hn : n < overlaySize) (hs : (c.tables j).Serves h)
    (h10 : h.ncHdr.op = 10#8) (hk : c.index h.ncHdr.key = some i) (hsrc : h.ipv4.srcAddr = a)
    (ho : h.overlay = (List.ofFn c.ip).reverse ++ [0#32]) :
    c.Travels a (beforeRoute (c.tables j) regs h).hdr := by
  have hop : (Pipe.located (c.tables j) regs h).operate =
      (Pipe.located (c.tables j) regs h).readValueAct := Pipe.operate_read h10
  by_cases hj : role j = 102#16
  · have hm : genReply (Pipe.located (c.tables j) regs h).readValueAct.hdr.ncHdr.op = some 11#8 := by
      change genReply h.ncHdr.op = _
      rw [h10]
      rfl
    obtain ⟨h1, h2, h3, h4⟩ := beforeRoute_tail hs hk hj hop hm
    refine .reply (by rw [h1]; decide) (by rw [h1]; decide) (h3.trans hsrc) (h2 ▸ hk) ?_
    rw [h4]
    change Terminated h.overlay.tail
    rw [ho, reverse_ofFn_ip]
    refine ⟨(List.ofFn c.ip).reverse.tail, rfl, ?_, ?_⟩
    · intro x hx
      obtain ⟨j', rfl⟩ := List.mem_ofFn.mp (List.mem_reverse.mp (List.mem_of_mem_tail hx))
      exact c.ip_ne_zero j'
    · rw [List.length_tail, List.length_reverse, List.length_ofFn]
      omega
  · rw [beforeRoute_of_ne_tail regs hs hk hj, hop]
    refine .read h10 hsrc ho ?_
    change h.swip 0 = c.ip c.last
    rw [Headers.swip, ho, reverse_ofFn_ip]
    rfl

/-- Along a journey every packet that leaves a switch is as `Travels` says. -/
theorem Travels.beforeRoute (hn : n < overlaySize) (ha : ∀ j, c.ip j ≠ a)
    (ht : c.Travels a h) (hno : ¬ c.TailStores j regs h) :
    c.Travels a (beforeRoute (c.tables j) regs h).hdr := by
  by_cases hs : (c.tables j).Serves h
  · cases ht with
    | write m h12 hsrc hb hm =>
      have hk : ∃ i, c.index h.ncHdr.key = some i := by
        rcases hm with rfl | hm
        · exact hb.index_isSome hs
        · exact hm
      obtain ⟨i, hk⟩ := hk
      obtain rfl := hb.eq_of_serves hs hk
      by_cases hj : role j = 102#16
      · apply Travels.write_refused hs h12 hk hsrc hb hj
        intro hlt
        exact hno ⟨hj, hs, h12, by rwa [tables_index hk]⟩
      · exact Travels.write_next hs h12 hk hsrc hb hj
    | read h10 hsrc ho hd =>
      obtain ⟨i, hk⟩ := index_isSome_of_serves hs (hd ▸ c.ip_ne_zero _)
      exact Travels.read_served hn hs h10 hk hsrc ho
    | reply _ _ hd hk _ => exact absurd (dst_of_serves hs hk ▸ hd) (ha j)
  · rw [beforeRoute_tables_not_serves hs]
    exact ht

theorem emit_srcAddr {t : Tables} (hg : emit t regs h = some g) :
    g.ipv4.srcAddr = (NetChain.beforeRoute t regs h).hdr.ipv4.srcAddr := by
  have hi : (ingress t regs h).hdr.ipv4.srcAddr =
      (NetChain.beforeRoute t regs h).hdr.ipv4.srcAddr := by
    obtain ⟨ttl, he⟩ := ingress_hdr t regs h
    rw [he]
  unfold emit at hg
  split_ifs at hg
  obtain rfl := Option.some.inj hg
  unfold egress
  split
  · exact hi
  · exact hi

theorem setChecksums_query (h : Headers) (x y : BitVec 16) :
    ({ h with
      ipv4 := { h.ipv4 with hdrChecksum := x }
      udp := { h.udp with checksum := y } } : Headers).query = h.query ∧
    ({ h with
      ipv4 := { h.ipv4 with hdrChecksum := x }
      udp := { h.udp with checksum := y } } : Headers).ipv4.srcAddr = h.ipv4.srcAddr :=
  ⟨rfl, rfl⟩

theorem computeChecksum_query (h : Headers) (payload : List Bool) :
    (computeChecksum h payload).query = h.query ∧
      (computeChecksum h payload).ipv4.srcAddr = h.ipv4.srcAddr :=
  setChecksums_query h _ _

/-- One hop of a packet on its journey. -/
theorem hop_travels (hn : n < overlaySize) (ha : ∀ j, c.ip j ≠ a) {payload : List Bool}
    {o : Headers × List Bool} (hf : Framed h) (ht : c.Travels a h)
    (ho : hop (c.tables j) regs (deparse h payload) = some o) :
    Framed o.1 ∧ (Terminated o.1.overlay ↔ ¬ c.TailStores j regs h) ∧
      (¬ c.TailStores j regs h → c.Travels a o.1) := by
  rw [hop, parse_deparse hf (ht.terminated hn)] at ho
  obtain ⟨g, hg, rfl⟩ := Option.map_eq_some_iff.mp ho
  obtain ⟨hq, hsrc⟩ := computeChecksum_query g payload
  have hov : (computeChecksum g payload).overlay =
      (beforeRoute (c.tables j) regs h).hdr.overlay :=
    congrArg Query.overlay (hq.trans (emit_query hg))
  have hnext (hno : ¬ c.TailStores j regs h) : c.Travels a (computeChecksum g payload) :=
    (ht.beforeRoute hn ha hno).congr (hq.trans (emit_query hg)) (hsrc.trans (emit_srcAddr hg))
  refine ⟨computeChecksum_framed (emit_framed hf hg) payload, ⟨?_, ?_⟩, hnext⟩
  · rintro ⟨hops, he, -⟩ hst
    cases ht with
    | write m h12 _ hb hm =>
      have hk : ∃ i, c.index h.ncHdr.key = some i := by
        rcases hm with rfl | hm
        · exact hb.index_isSome hst.2.1
        · exact hm
      obtain ⟨i, hk⟩ := hk
      obtain rfl := hb.eq_of_serves hst.2.1 hk
      rw [hov, tailStores_overlay hst hk hb] at he
      simp at he
    | read h10 =>
      exact absurd (h10.symm.trans hst.2.2.1) (by decide)
    | reply _ h12 => exact h12 hst.2.2.1
  · intro hno
    exact (hnext hno).terminated hn

theorem Journey.travels (hn : n < overlaySize) (ha : ∀ j, c.ip j ≠ a)
    {request : Headers × List Bool} (hr : c.IsRequest a request.1) {x : List Bool}
    (hx : c.Journey request x) :
    ∃ h payload, x = deparse h payload ∧ Framed h ∧ c.Travels a h := by
  induction hx with
  | request =>
    refine ⟨_, _, rfl, hr.framed, ?_⟩
    rcases hr.kind with ⟨h12, hb⟩ | ⟨h10, ho, hd⟩
    · exact .write 0 h12 hr.src hb (.inl rfl)
    · exact .read h10 hr.src ho hd
  | hop _ hno ho ih =>
    obtain ⟨h, payload, rfl, hf, ht⟩ := ih
    rw [parse_deparse hf (ht.terminated hn)] at hno
    obtain ⟨hf', -, hnext⟩ := hop_travels hn ha hf ht ho
    exact ⟨_, _, rfl, hf', hnext hno⟩

/-- A packet that a switch emits on the journey of a request parses again as it was
deparsed exactly if it is not the tail's reply to a write it stored. -/
theorem journey_reparses_iff (c : Chain n) (hn : n < overlaySize) (ha : ∀ j, c.ip j ≠ a)
    {request : Headers × List Bool} (hr : c.IsRequest a request.1) {x : List Bool}
    (hx : c.Journey request x) (j : Fin n) (regs : Switch) {o : Headers × List Bool}
    (ho : hop (c.tables j) regs x = some o) :
    parse (deparse o.1 o.2) = o ↔ ¬ c.TailStores j regs (parse x).1 := by
  obtain ⟨h, payload, rfl, hf, ht⟩ := hx.travels hn ha hr
  obtain ⟨hf', hterm, -⟩ := hop_travels hn ha hf ht ho
  rw [parse_deparse hf (ht.terminated hn)]
  exact (parse_deparse_iff hf' o.2).trans hterm

end Chain

open Chain

/-- Registers that store sequence number 0 for every key. -/
def seqZero : Switch := ⟨.fill regSize 0#16, .fill regSize 7#128⟩

theorem pairRequest_isRequest : pair.IsRequest 0x0a000002#32 pairRequest where
  framed := ⟨⟨rfl, rfl⟩, ⟨rfl, rfl⟩, ⟨rfl, .inl rfl⟩, ⟨rfl, rfl⟩, rfl⟩
  port := rfl
  src := rfl
  seq := rfl
  kind := .inl ⟨rfl, rfl, rfl⟩

section

local instance pair_switches : NeZero 2 := ⟨by decide⟩

/-- The write of `pairRequest` as the head passes it on. -/
def pairNumbered : Headers :=
  computeChecksum ((emit (pair.tables 0) seqZero pairRequest).getD default) []

end

theorem hop_of_emit {t : Tables} {regs : Switch} {h : Headers} (hf : Framed h)
    (ht : Terminated h.overlay) (he : (emit t regs h).isSome) :
    hop t regs (deparse h []) = some (computeChecksum ((emit t regs h).getD default) [], []) := by
  obtain ⟨g, hg⟩ := Option.isSome_iff_exists.mp he
  rw [hop, parse_deparse hf ht, hg]
  rfl

theorem pairRequest_travels : pair.Travels 0x0a000002#32 pairRequest :=
  .write 0 rfl rfl ⟨rfl, rfl⟩ (.inl rfl)

theorem pairRequest_hop :
    hop (pair.tables 0) seqZero (deparse pairRequest []) = some (pairNumbered, []) :=
  hop_of_emit pairRequest_isRequest.framed (pairRequest_travels.terminated (by decide)) (by decide)

theorem pairRequest_journey : pair.Journey (pairRequest, []) (deparse pairRequest []) := .request

theorem pair_not_tailStores (h : Headers) : ¬ pair.TailStores 0 seqZero h :=
  fun ht => absurd ht.1 (by decide)

/-- The head's packet for `pairRequest` parses again. -/
theorem journey_reparses_pair :
    ∃ o, hop (pair.tables 0) seqZero (deparse pairRequest []) = some o ∧
      (parse (deparse o.1 o.2) = o ↔
        ¬ pair.TailStores 0 seqZero (parse (deparse pairRequest [])).1) :=
  ⟨_, pairRequest_hop, journey_reparses_iff pair (by decide) (by decide) pairRequest_isRequest
    pairRequest_journey 0 seqZero pairRequest_hop⟩

theorem pairNumbered_travels : Framed pairNumbered ∧ pair.Travels 0x0a000002#32 pairNumbered := by
  obtain ⟨hf, -, hnext⟩ := hop_travels (by decide) (by decide) pairRequest_isRequest.framed
    pairRequest_travels pairRequest_hop
  exact ⟨hf, hnext (pair_not_tailStores _)⟩

/-- The tail's reply to the stored write of `pairRequest` does not parse again. -/
theorem pair_reply_not_reparsed :
    ∃ x o, pair.Journey (pairRequest, []) x ∧ hop (pair.tables 1) seqZero x = some o ∧
      parse (deparse o.1 o.2) ≠ o := by
  have hx : pair.Journey (pairRequest, []) (deparse pairNumbered []) :=
    .hop pairRequest_journey (pair_not_tailStores _) pairRequest_hop
  obtain ⟨hf, htravels⟩ := pairNumbered_travels
  have hst : pair.TailStores 1 seqZero pairNumbered := ⟨by decide, by decide, by decide, by decide⟩
  have hsome : (emit (pair.tables 1) seqZero pairNumbered).isSome := by decide
  have ho := hop_of_emit hf (htravels.terminated (by decide)) hsome
  obtain ⟨hf', hterm, -⟩ := hop_travels (by decide) (by decide) hf htravels ho
  refine ⟨_, _, hx, ho, fun he => ?_⟩
  exact hterm.mp ((parse_deparse_iff hf' _).mp he) hst

end P4Survey.NetChain
