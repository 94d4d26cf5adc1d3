import P4Survey.NetChain.Config

/-! # What a write does at one switch of a chain

The outcome of a write on its way down the chain, at the switch it is addressed
to: the head numbers and stores it, a later switch stores it if it is newer than
what it has, and what is forwarded is addressed to the next switch.
-/

namespace P4Survey.NetChain
open Lib

/-- The part of the headers that decides what a switch does with a request. -/
@[ext] structure Query where
  valid : Bool
  op : BitVec 8
  seq : BitVec 16
  key : BitVec 128
  value : BitVec 128
  vgroup : BitVec 16
  overlay : List (BitVec 32)
  dstAddr : BitVec 32
  deriving DecidableEq

def Headers.query (h : Headers) : Query :=
  ⟨h.ncHdrValid, h.ncHdr.op, h.ncHdr.seq, h.ncHdr.key, h.ncHdr.value, h.ncHdr.vgroup, h.overlay,
    h.ipv4.dstAddr⟩

theorem Headers.swip_zero (h : Headers) : h.swip 0 = h.query.overlay.headD 0#32 := by
  unfold swip query
  cases h.overlay <;> rfl

namespace Switch

/-- Both registers of one index written together. -/
def store (st : Switch) (i : BitVec 16) (s : BitVec 16) (v : BitVec 128) : Switch :=
  ⟨st.sequenceReg.write i.toNat s, st.valueReg.write i.toNat v⟩

variable {st : Switch} {i : BitVec 16} {s : BitVec 16} {v : BitVec 128}

theorem store_seq_self (hi : i.toNat < regSize) : (st.store i s v).seq i = s :=
  Register.read_write_self _ hi _

theorem store_value_self (hi : i.toNat < regSize) : (st.store i s v).value i = v :=
  Register.read_write_self _ hi _

theorem store_seq_of_ne {i' : BitVec 16} (h : i ≠ i') : (st.store i s v).seq i' = st.seq i' :=
  Register.read_write_of_ne _ (fun he => h (BitVec.toNat_inj.mp he)) _

theorem store_value_of_ne {i' : BitVec 16} (h : i ≠ i') :
    (st.store i s v).value i' = st.value i' :=
  Register.read_write_of_ne _ (fun he => h (BitVec.toNat_inj.mp he)) _

end Switch

namespace Pipe

theorem popChainAct_query (p : Pipe) :
    p.popChainAct.hdr.query = { p.hdr.query with overlay := p.hdr.overlay.tail } := by
  simp only [Headers.query, popChainAct_ncHdr, popChainAct_overlay, popChainAct_dstAddr,
    popChainAct_valid]

theorem answer_query {t : Tables} {p : Pipe} (hr : p.role ≠ 102#16) :
    (p.answer t).hdr.query = { p.hdr.query with dstAddr := p.hdr.swip 0 } := by
  rw [answer, if_neg hr]
  rfl

end Pipe

theorem ingress_query (t : Tables) (regs : Switch) (h : Headers) :
    (ingress t regs h).hdr.query = (beforeRoute t regs h).hdr.query := by
  obtain ⟨ttl, he⟩ := ingress_hdr t regs h
  rw [he]
  rfl

theorem egress_query (t : Tables) (p : Pipe) : (egress t p).query = p.hdr.query := by
  unfold egress
  split <;> rfl

theorem emit_query {t : Tables} {regs : Switch} {h g : Headers} (hg : emit t regs h = some g) :
    g.query = (beforeRoute t regs h).hdr.query := by
  unfold emit at hg
  split_ifs at hg
  obtain rfl := Option.some.inj hg
  rw [egress_query, ingress_query]

theorem isWrite_of_query {g h : Headers} (hq : g.query = h.query) (hw : g.IsWrite) :
    h.IsWrite :=
  ⟨(congrArg Query.valid hq).symm.trans hw.1, (congrArg Query.op hq).symm.trans hw.2⟩

namespace Pipe

@[simp] theorem popChainAct_isWrite (p : Pipe) : p.popChainAct.hdr.IsWrite ↔ p.hdr.IsWrite := by
  simp [Headers.IsWrite]

/-- The operation changes neither what a packet asks for nor the switch's role. -/
theorem operate_isWrite (p : Pipe) :
    (p.operate.hdr.IsWrite ↔ p.hdr.IsWrite) ∧ p.operate.role = p.role := by
  unfold operate
  split_ifs with h10 h12
  · exact ⟨Iff.rfl, rfl⟩
  · unfold writeRequest
    by_cases hr : p.role = 100#16
    · simp [hr, maintainSequenceAct, assignValueAct, Headers.IsWrite]
    · by_cases hs : p.seq < p.hdr.ncHdr.seq
      · simp [hr, hs, assignValueAct, Headers.IsWrite]
      · simp [hr, hs, dropPacketAct, Headers.IsWrite]
  · exact ⟨Iff.rfl, rfl⟩

theorem genReplyAct_isWrite {m : BitVec 8} (hm : m ≠ 12#8) {p : Pipe} :
    ¬ (p.genReplyAct m).hdr.IsWrite := fun hw => hm hw.2

theorem answer_isWrite {t : Tables} (ht : ∀ op, t.genReply op ≠ some 12#8) {p : Pipe}
    (hw : (p.answer t).hdr.IsWrite) : p.hdr.IsWrite := by
  unfold answer at hw
  split_ifs at hw with hr
  · unfold genReply at hw
    split at hw
    · rename_i m hm
      exact absurd hw (genReplyAct_isWrite fun h12 => ht _ (h12 ▸ hm))
    · unfold popChainAgain at hw
      split_ifs at hw
      · exact (popChainAct_isWrite p).mp hw
      · exact hw
  · exact hw

theorem failureRecovery_isWrite {t : Tables} {p : Pipe}
    (hw : (p.failureRecovery t).hdr.IsWrite) : p.hdr.IsWrite := by
  unfold failureRecovery at hw
  split at hw
  · exact (popChainAct_isWrite _).mp hw
  · exact absurd hw (genReplyAct_isWrite (by decide))
  · exact hw
  · exact hw
  · exact hw

end Pipe

/-- A write pops the overlay list when it is stored and is left alone otherwise. -/
theorem Pipe.operate_write {p : Pipe} (hop : p.hdr.ncHdr.op = 12#8) :
    (∃ s, p.operate.hdr.query = { p.hdr.query with seq := s, overlay := p.hdr.overlay.tail }) ∨
      p.operate.hdr.query = p.hdr.query := by
  by_cases hr : p.role = 100#16
  · left
    rw [operate_head hop hr, popChainAct_query]
    exact ⟨_, rfl⟩
  · by_cases hs : p.seq < p.hdr.ncHdr.seq
    · left
      rw [operate_accept hop hr hs, popChainAct_query]
      exact ⟨p.hdr.ncHdr.seq, rfl⟩
    · right
      rw [operate_refuse hop hr hs]
      rfl

/-- A write up to the table `failure_recovery`, at a switch with any tables: it is
as it came, or the switch served it and it goes on to the next hop of its list. -/
theorem process_write {t : Tables} {m : BitVec 8} (ht : t.genReply 12#8 = some m) (hm : m ≠ 12#8)
    {regs : Switch} {h : Headers} {x : BitVec 32} {rest : List (BitVec 32)}
    (ho : h.overlay = x :: rest) (hd : h.ipv4.dstAddr = x) (hw : h.IsWrite)
    (hp : ((Pipe.start regs h).process t).hdr.IsWrite) :
    ((Pipe.start regs h).process t).hdr.ncHdr.key = h.ncHdr.key ∧
      ((Pipe.start regs h).process t).hdr.ncHdr.vgroup = h.ncHdr.vgroup ∧
      ((((Pipe.start regs h).process t).hdr.overlay = x :: rest ∧
          ((Pipe.start regs h).process t).hdr.ipv4.dstAddr = x) ∨
        (t.Serves h ∧ t.role h.ncHdr.key ≠ 102#16 ∧
          ((Pipe.start regs h).process t).hdr.overlay = rest ∧
          ((Pipe.start regs h).process t).hdr.ipv4.dstAddr = rest.headD 0#32)) := by
  by_cases hs : t.Serves h
  · rw [Pipe.process_of_serves hs] at hp ⊢
    obtain ⟨hiff, hrole⟩ := Pipe.operate_isWrite (Pipe.located t regs h)
    have hop : (Pipe.located t regs h).operate.hdr.ncHdr.op = 12#8 := (hiff.mpr hw).2
    by_cases hr : t.role h.ncHdr.key = 102#16
    · have hop' : ((Pipe.located t regs h).operate.popChainAgain t).hdr.ncHdr.op = 12#8 := by
        unfold Pipe.popChainAgain
        split
        · simpa using hop
        · exact hop
      rw [Pipe.answer, if_pos (hrole.trans hr), Pipe.genReply, hop', ht] at hp
      exact absurd hp (Pipe.genReplyAct_isWrite hm)
    · have hq := Pipe.answer_query (t := t) (hrole.trans_ne hr)
      rw [Headers.swip_zero] at hq
      rcases Pipe.operate_write (p := Pipe.located t regs h) hw.2 with ⟨s, he⟩ | he
      · rw [he] at hq
        have htail : (Pipe.located t regs h).hdr.overlay.tail = rest := by
          change h.overlay.tail = rest
          rw [ho]
          rfl
        refine ⟨congrArg Query.key hq, congrArg Query.vgroup hq, .inr ⟨hs, hr, ?_, ?_⟩⟩
        · exact (congrArg Query.overlay hq).trans htail
        · rw [← htail]
          exact congrArg Query.dstAddr hq
      · rw [he] at hq
        refine ⟨congrArg Query.key hq, congrArg Query.vgroup hq, .inl ⟨?_, ?_⟩⟩
        · exact (congrArg Query.overlay hq).trans ho
        · have hh : h.overlay.headD 0#32 = x := by
            rw [ho]
            rfl
          exact (congrArg Query.dstAddr hq).trans hh
  · rw [Pipe.process_of_not_serves hw.1 hs]
    exact ⟨rfl, rfl, .inl ⟨ho, hd⟩⟩

/-- The switch stores the write: it is the head, or the write is newer. -/
def Stores (t : Tables) (regs : Switch) (h : Headers) : Prop :=
  t.Serves h ∧ h.ncHdr.op = 12#8 ∧
    (t.role h.ncHdr.key = 100#16 ∨ regs.seq (t.index h.ncHdr.key) < h.ncHdr.seq)

instance (t : Tables) (regs : Switch) (h : Headers) : Decidable (Stores t regs h) :=
  inferInstanceAs (Decidable (_ ∧ _))

theorem ingress_regs_of_not_stores {t : Tables} {regs : Switch} {h : Headers}
    (hn : ¬ Stores t regs h) : (ingress t regs h).regs = regs := by
  by_cases hw : t.Serves h ∧ h.ncHdr.op = 12#8
  · have hr : t.role h.ncHdr.key ≠ 100#16 := fun hr => hn ⟨hw.1, hw.2, .inl hr⟩
    have hs : ¬ regs.seq (t.index h.ncHdr.key) < h.ncHdr.seq := fun hs => hn ⟨hw.1, hw.2, .inr hs⟩
    rw [ingress_regs, beforeRoute_of_serves hw.1, Pipe.failureRecovery_regs, Pipe.answer_regs,
      Pipe.operate_refuse hw.2 hr hs]
    rfl
  · exact ingress_regs_eq hw regs

/-- A packet changes the registers at the index of its key only. -/
theorem ingress_regs_of_ne {t : Tables} (regs : Switch) {h : Headers} {i : BitVec 16}
    (hi : t.index h.ncHdr.key ≠ i) :
    (ingress t regs h).regs.seq i = regs.seq i ∧
      (ingress t regs h).regs.value i = regs.value i := by
  have hne : (t.index h.ncHdr.key).toNat ≠ i.toNat := fun he => hi (BitVec.toNat_inj.mp he)
  by_cases hst : Stores t regs h
  · obtain ⟨hs, hop, -⟩ := hst
    rw [ingress_regs, beforeRoute_of_serves hs, Pipe.failureRecovery_regs, Pipe.answer_regs]
    by_cases hr : t.role h.ncHdr.key = 100#16
    · rw [Pipe.operate_head hop hr, Pipe.popChainAct_regs]
      constructor
      · exact (Register.read_write_of_ne _ hne _).trans (Register.read_write_of_ne _ hne _)
      · exact Register.read_write_of_ne _ hne _
    · by_cases hlt : regs.seq (t.index h.ncHdr.key) < h.ncHdr.seq
      · rw [Pipe.operate_accept hop hr hlt, Pipe.popChainAct_regs]
        exact ⟨Register.read_write_of_ne _ hne _, Register.read_write_of_ne _ hne _⟩
      · rw [Pipe.operate_refuse hop hr hlt]
        exact ⟨rfl, rfl⟩
  · rw [ingress_regs_of_not_stores hst]
    exact ⟨rfl, rfl⟩

/-- Only a write can leave a switch as a write. -/
theorem beforeRoute_isWrite {t : Tables} (ht : ∀ op, t.genReply op ≠ some 12#8) {regs : Switch}
    {h : Headers} (hw : (beforeRoute t regs h).hdr.IsWrite) : h.IsWrite := by
  unfold beforeRoute at hw
  split_ifs at hw with hv
  · have hp := Pipe.failureRecovery_isWrite hw
    by_cases hs : t.Serves h
    · rw [Pipe.process_of_serves hs] at hp
      exact (Pipe.operate_isWrite _).1.mp (Pipe.answer_isWrite ht hp)
    · rwa [Pipe.process_of_not_serves hv hs] at hp
  · exact hw

/-- A write that the switch does not serve meets `failure_recovery` as it came. -/
theorem beforeRoute_of_not_serves {t : Tables} {regs : Switch} {h : Headers}
    (hv : h.ncHdrValid = true) (hs : ¬ t.Serves h) :
    (beforeRoute t regs h).hdr = ((Pipe.start regs h).failureRecovery t).hdr := by
  rw [beforeRoute, if_pos hv, Pipe.process_of_not_serves hv hs]
  unfold Pipe.failureRecovery Pipe.start
  dsimp only
  split <;> rfl

namespace Chain

variable {n : ℕ} (c : Chain n)

/-- The packet is on its way to position `j`; past the end it has no destination. -/
def Bound (j : ℕ) (q : Query) : Prop :=
  q.overlay = c.overlayFrom j ∧ q.dstAddr = (c.overlayFrom j).headD 0#32

/-- A write with the given contents on its way to position `j`. -/
structure Passes (g : Headers) (j : ℕ) (k : BitVec 128) (s : BitVec 16) (v : BitVec 128) :
    Prop where
  key : g.ncHdr.key = k
  seq : g.ncHdr.seq = s
  value : g.ncHdr.value = v
  bound : c.Bound j g.query

/-- A write as a client sends it: to the head, unnumbered, with the whole chain. -/
def IsClientWrite (h : Headers) : Prop :=
  h.IsWrite ∧ h.ncHdr.seq = 0#16 ∧ c.Bound 0 h.query

variable {c}

theorem Passes.congr {g g' : Headers} {m : ℕ} {k : BitVec 128} {s : BitVec 16} {v : BitVec 128}
    (hp : c.Passes g' m k s v) (hq : g.query = g'.query) : c.Passes g m k s v :=
  ⟨(congrArg Query.key hq).trans hp.key, (congrArg Query.seq hq).trans hp.seq,
    (congrArg Query.value hq).trans hp.value, hq ▸ hp.bound⟩

theorem Bound.eq_of_serves {j : Fin n} {m : ℕ} {h : Headers} {i : BitVec 16}
    (hb : c.Bound m h.query) (hs : (c.tables j).Serves h) (hk : c.index h.ncHdr.key = some i) :
    m = j := by
  have hd : (c.overlayFrom m).headD 0#32 = c.ip j := hb.2.symm.trans (dst_of_serves hs hk)
  by_cases hm : m < n
  · rw [c.overlayFrom_eq_cons ⟨m, hm⟩] at hd
    exact congrArg Fin.val (c.ip_injective hd)
  · have hnil : (List.ofFn c.ip).drop m = [] := by
      apply List.drop_eq_nil_of_le
      simpa using hm
    rw [overlayFrom, hnil] at hd
    exact absurd hd.symm (c.ip_ne_zero j)

theorem Bound.overlay_tail {j : Fin n} {h : Headers} (hb : c.Bound j h.query) :
    h.overlay.tail = c.overlayFrom (j + 1) := by
  rw [show h.overlay = c.overlayFrom j from hb.1, c.overlayFrom_eq_cons j]
  rfl

/-- A client write that the head serves has a known key. -/
theorem Bound.index_isSome {j : Fin n} {h : Headers} (hb : c.Bound 0 h.query)
    (hs : (c.tables j).Serves h) : ∃ i, c.index h.ncHdr.key = some i := by
  apply index_isSome_of_serves hs
  have hd : h.ipv4.dstAddr = c.ip c.head := by
    rw [show h.ipv4.dstAddr = (c.overlayFrom 0).headD 0#32 from hb.2,
      show c.overlayFrom 0 = _ from c.overlayFrom_eq_cons c.head]
    rfl
  rw [hd]
  exact c.ip_ne_zero _

theorem tables_genReply_ne (j : Fin n) (op : BitVec 8) :
    (c.tables j).genReply op ≠ some 12#8 := by
  unfold tables genReply
  dsimp only
  split_ifs <;> simp

theorem beforeRoute_tables_not_serves {j : Fin n} {regs : Switch} {h : Headers}
    (hs : ¬ (c.tables j).Serves h) : (beforeRoute (c.tables j) regs h).hdr = h := by
  by_cases hv : h.ncHdrValid = true
  · rw [beforeRoute_of_not_serves hv hs, Pipe.failureRecovery_nop fun _ _ _ => rfl]
    rfl
  · rw [beforeRoute, if_neg hv]
    rfl

theorem answer_tables_query {j : Fin n} {p : Pipe} (hop : p.hdr.ncHdr.op = 12#8)
    (hw : (p.answer (c.tables j)).hdr.IsWrite) :
    (p.answer (c.tables j)).hdr.query = { p.hdr.query with dstAddr := p.hdr.swip 0 } := by
  by_cases hr : p.role = 102#16
  · have hop' : (p.popChainAgain (c.tables j)).hdr.ncHdr.op = 12#8 := by
      unfold Pipe.popChainAgain
      split
      · simpa using hop
      · exact hop
    have hg : (c.tables j).genReply 12#8 = some 13#8 := rfl
    rw [Pipe.answer, if_pos hr, Pipe.genReply, hop', hg] at hw
    exact absurd hw (Pipe.genReplyAct_isWrite (by decide))
  · exact Pipe.answer_query hr

/-- Before the tail, a served packet goes on to the next hop after its operation. -/
theorem beforeRoute_of_ne_tail {j : Fin n} (regs : Switch) {h : Headers} {i : BitVec 16}
    (hs : (c.tables j).Serves h) (hk : c.index h.ncHdr.key = some i) (hj : role j ≠ 102#16) :
    beforeRoute (c.tables j) regs h =
      (Pipe.located (c.tables j) regs h).operate.getNextHopAct := by
  obtain ⟨-, hrole⟩ := Pipe.operate_isWrite (Pipe.located (c.tables j) regs h)
  have hr : (Pipe.located (c.tables j) regs h).operate.role ≠ 102#16 := by
    rw [hrole]
    change (c.tables j).role h.ncHdr.key ≠ 102#16
    rwa [tables_role hk]
  rw [beforeRoute_of_serves hs, Pipe.failureRecovery_nop fun _ _ _ => rfl, Pipe.answer, if_neg hr]

theorem beforeRoute_isWrite_of_ne_tail {j : Fin n} (regs : Switch) {h : Headers} {i : BitVec 16}
    (hs : (c.tables j).Serves h) (hop : h.ncHdr.op = 12#8) (hk : c.index h.ncHdr.key = some i)
    (hj : role j ≠ 102#16) : (beforeRoute (c.tables j) regs h).hdr.IsWrite := by
  have hw : (Pipe.located (c.tables j) regs h).hdr.IsWrite := ⟨hs.1, hop⟩
  rw [beforeRoute_of_ne_tail regs hs hk hj]
  exact (Pipe.operate_isWrite _).1.mpr hw

theorem passes_of_query {g h : Headers} {m : ℕ} {s : BitVec 16}
    (hg : g.query = { h.query with
      seq := s, overlay := c.overlayFrom m, dstAddr := (c.overlayFrom m).headD 0#32 }) :
    c.Passes g m h.ncHdr.key s h.ncHdr.value :=
  ⟨congrArg Query.key hg, congrArg Query.seq hg, congrArg Query.value hg,
    congrArg Query.overlay hg, congrArg Query.dstAddr hg⟩

theorem head_store (t : Tables) (regs : Switch) (h : Headers)
    (hi : (t.index h.ncHdr.key).toNat < regSize) :
    (Pipe.located t regs h).maintainSequenceAct.assignValueAct.popChainAct.regs =
        regs.store (t.index h.ncHdr.key) (regs.seq (t.index h.ncHdr.key) + 1#16) h.ncHdr.value ∧
      (Pipe.located t regs h).maintainSequenceAct.assignValueAct.popChainAct.hdr.query =
        { h.query with
          seq := regs.seq (t.index h.ncHdr.key) + 1#16, overlay := h.overlay.tail } := by
  have hread := Register.read_write_self regs.sequenceReg hi (regs.seq (t.index h.ncHdr.key) + 1#16)
  constructor
  · rw [Pipe.popChainAct_regs]
    simp only [Pipe.assignValueAct, Pipe.maintainSequenceAct, Pipe.located, Switch.store, hread,
      Register.write_write]
  · rw [Pipe.popChainAct_query]
    simp only [Pipe.assignValueAct, Pipe.maintainSequenceAct, Pipe.located, Headers.query, hread]

/-- The three outcomes of a write at the switch it is addressed to. -/
theorem beforeRoute_write (regs : Switch) {j : Fin n} {h : Headers} {i : BitVec 16}
    (hs : (c.tables j).Serves h) (hop : h.ncHdr.op = 12#8) (hk : c.index h.ncHdr.key = some i)
    (hb : c.Bound j h.query) :
    (j = c.head ∧
        (beforeRoute (c.tables j) regs h).regs = regs.store i (regs.seq i + 1#16) h.ncHdr.value ∧
        c.Passes (beforeRoute (c.tables j) regs h).hdr (j + 1) h.ncHdr.key (regs.seq i + 1#16)
          h.ncHdr.value) ∨
      (j ≠ c.head ∧ regs.seq i < h.ncHdr.seq ∧
        (beforeRoute (c.tables j) regs h).regs = regs.store i h.ncHdr.seq h.ncHdr.value ∧
        ((beforeRoute (c.tables j) regs h).hdr.IsWrite →
          c.Passes (beforeRoute (c.tables j) regs h).hdr (j + 1) h.ncHdr.key h.ncHdr.seq
            h.ncHdr.value)) ∨
      (j ≠ c.head ∧ h.ncHdr.seq ≤ regs.seq i ∧
        (beforeRoute (c.tables j) regs h).regs = regs ∧
        ((beforeRoute (c.tables j) regs h).hdr.IsWrite →
          c.Passes (beforeRoute (c.tables j) regs h).hdr j h.ncHdr.key h.ncHdr.seq
            h.ncHdr.value)) := by
  have hrole : (c.tables j).role h.ncHdr.key = role j := tables_role hk
  have hidx : (c.tables j).index h.ncHdr.key = i := tables_index hk
  have htail := hb.overlay_tail
  rw [beforeRoute_of_serves hs, Pipe.failureRecovery_nop fun _ _ _ => rfl]
  by_cases hj : j = c.head
  · have hr : role j = 100#16 := c.role_eq_head.mpr hj
    left
    rw [Pipe.operate_head hop (hrole.trans hr)]
    obtain ⟨hregs, hq⟩ := head_store (c.tables j) regs h (by rw [hidx]; exact c.index_lt hk)
    rw [hidx] at hregs hq
    refine ⟨hj, by rw [Pipe.answer_regs]; exact hregs, passes_of_query ?_⟩
    rw [Pipe.answer_query, Headers.swip_zero, hq, htail]
    simp [Pipe.assignValueAct, Pipe.maintainSequenceAct, Pipe.located, hrole, hr]
  · have hr : (c.tables j).role h.ncHdr.key ≠ 100#16 := by
      rw [hrole]
      exact fun h100 => hj (c.role_eq_head.mp h100)
    have hseq : (Pipe.located (c.tables j) regs h).seq = regs.seq i := by
      rw [Pipe.located, hidx]
    right
    by_cases hlt : regs.seq i < h.ncHdr.seq
    · left
      rw [Pipe.operate_accept hop hr (by rw [hseq]; exact hlt)]
      refine ⟨hj, hlt, ?_, fun hw => passes_of_query ?_⟩
      · rw [Pipe.answer_regs, Pipe.popChainAct_regs]
        simp only [Pipe.assignValueAct, Pipe.located, hidx, Switch.store]
      · rw [answer_tables_query (by simpa [Pipe.assignValueAct, Pipe.located] using hop) hw,
          Headers.swip_zero, Pipe.popChainAct_query]
        simp only [Pipe.assignValueAct, Pipe.located, htail, Headers.query]
    · right
      rw [Pipe.operate_refuse hop hr (by rw [hseq]; exact hlt)]
      refine ⟨hj, BitVec.not_lt.mp hlt, ?_, fun hw => passes_of_query ?_⟩
      · rw [Pipe.answer_regs]
        rfl
      · rw [answer_tables_query hop hw, Headers.swip_zero]
        simp only [Pipe.dropPacketAct, Pipe.located, Headers.query,
          show h.overlay = c.overlayFrom j from hb.1]

end Chain

end P4Survey.NetChain
