import P4Survey.Lib.Replicas
import P4Survey.NetChain.Consistency
import P4Survey.NetChain.Reparse

/-! # A chain with a failed switch

One switch after the head stops, and `failover` of the controller adds an entry
to `failure_recovery` at the switch before it. For each key the chain follows
the replicas of `Lib.Replicas`, with the failed position as the only one that
copies may skip.
-/

namespace P4Survey.NetChain
open Lib

/-- Whether a packet is a NetChain packet, and of which key: no switch changes that. -/
def Headers.subject (h : Headers) : Bool × BitVec 128 := (h.ncHdrValid, h.ncHdr.key)

namespace Pipe

variable (p : Pipe) (t : Tables)

@[simp] theorem popChainAct_subject : p.popChainAct.hdr.subject = p.hdr.subject := by
  simp [Headers.subject]

theorem operate_subject : p.operate.hdr.subject = p.hdr.subject := by
  unfold operate
  split_ifs
  · rfl
  · unfold writeRequest
    by_cases hr : p.role = 100#16
    · rw [if_pos hr, if_pos (.inl hr), popChainAct_subject]
      rfl
    · dsimp only
      rw [if_neg hr]
      split_ifs
      · rw [popChainAct_subject]
        rfl
      · rfl
  · rfl

theorem answer_subject : (p.answer t).hdr.subject = p.hdr.subject := by
  unfold answer
  split_ifs
  · have hp : (p.popChainAgain t).hdr.subject = p.hdr.subject := by
      unfold popChainAgain
      split_ifs
      · exact popChainAct_subject p
      · rfl
    unfold genReply
    split
    · exact hp
    · exact hp
  · rfl

theorem genReplyAct_egressSpec (m : BitVec 8) : (p.genReplyAct m).egressSpec = p.egressSpec := rfl

theorem answer_egressSpec : (p.answer t).egressSpec = p.egressSpec := by
  unfold answer
  split_ifs
  · have hp : (p.popChainAgain t).egressSpec = p.egressSpec := by
      unfold popChainAgain
      split_ifs
      · exact popChainAct_egressSpec p
      · rfl
    unfold genReply
    split
    · rw [genReplyAct_egressSpec, hp]
    · exact hp
  · rfl

theorem failureRecovery_subject : (p.failureRecovery t).hdr.subject = p.hdr.subject := by
  unfold failureRecovery
  split
  · exact popChainAct_subject _
  · rfl
  · rfl
  · rfl
  · rfl

end Pipe

theorem beforeRoute_subject (t : Tables) (regs : Switch) (h : Headers) :
    (beforeRoute t regs h).hdr.subject = h.subject := by
  unfold beforeRoute
  split_ifs with hv
  · rw [Pipe.failureRecovery_subject]
    by_cases hs : t.Serves h
    · rw [Pipe.process_of_serves hs, Pipe.answer_subject, Pipe.operate_subject]
      rfl
    · rw [Pipe.process_of_not_serves hv hs]
  · rfl

namespace Chain

variable {n : ℕ} (c : Chain n)

/-- The action for packets to the failed switch: the switch before a failed tail
replies in its place, any other failed switch is skipped. -/
def failoverRule (f : Fin n) : RecoveryAction :=
  if f.val + 1 = n then .failoverWriteReplyAct else .failoverAct

/-- The tables of position `j`, with the entry of `failover` once it is there. -/
def failoverTables (f : Fin n) (installed : Bool) (j : Fin n) : Tables :=
  { c.tables j with
    failureRecovery := fun dst _ _ =>
      if installed = true ∧ j.val + 1 = f.val ∧ dst = c.ip f then failoverRule f else .nop }

/-- A read as a client sends it: to the tail, with the chain in reverse. -/
def IsClientRead (h : Headers) : Prop :=
  h.ncHdrValid = true ∧ h.ncHdr.op = 10#8 ∧ h.ncHdr.seq = 0#16 ∧
    h.overlay = (List.ofFn c.ip).reverse ++ [0#32] ∧ h.ipv4.dstAddr = c.ip c.last

end Chain

/-- The chain, whether the switch has failed and whether the controller has reacted. -/
structure FailNet (n : ℕ) where
  net : Net n
  failed : Bool
  installed : Bool

inductive FailLabel (n : ℕ) where
  | send (h : Headers)
  | deliver (j : Fin n) (h : Headers)
  | stopSwitch
  | failover

/-- The registers of one key and the writes the head has numbered are those of the replicas. -/
structure Net.Mirrors {n : ℕ} (k : BitVec 128) (i : BitVec 16) (s : Net n) (a : Replicas n (BitVec 128)) :
    Prop where
  number : ∀ j, a.number j = ((s.switch j).seq i).toNat
  value : ∀ j, a.value j = (s.switch j).value i
  log : ∀ q v, ⟨k, q, v⟩ ∈ s.log ↔ 0 < q.toNat ∧ a.log[q.toNat]? = some v
  length : a.log.length = s.writes k + 1

namespace Chain

variable {n : ℕ} (c : Chain n)

def failDeliver (f : Fin n) (installed : Bool) (s : Net n) (j : Fin n) (h : Headers) : Net n :=
  let t := c.failoverTables f installed j
  let regs := (ingress t (s.switch j) h).regs
  { switch := Function.update s.switch j regs
    sent := (emit t (s.switch j) h).toList ++ s.sent
    log := c.headLog j regs h s.log }

/-- The chain of `replication`, with clients as in `nc_socket.py`, where the switch at
`f` may stop and the controller then runs `failover`. -/
def surviving (f : Fin n) (init : Register 128 regSize) : System (FailNet n) (FailLabel n) where
  init s := s = ⟨⟨fun _ => ⟨.fill regSize 0#16, init⟩, [], []⟩, false, false⟩
  enabled
    | _, .send h => h.ncHdrValid = true → c.IsClientWrite h ∨ c.IsClientRead h
    | s, .deliver j h => h ∈ s.net.sent ∧ ¬(s.failed = true ∧ j = f)
    | s, .stopSwitch => s.failed = false
    | s, .failover => s.failed = true
  next
    | s, .send h => { s with net := { s.net with sent := h :: s.net.sent } }
    | s, .deliver j h => { s with net := c.failDeliver f s.installed s.net j h }
    | s, .stopSwitch => { s with failed := true }
    | s, .failover => { s with installed := true }

/-- What a packet of key `k` stands for: a write is a copy that has reached the
position it is bound for, anything else tells of a copy that has passed the tail. -/
def Fits (k : BitVec 128) (a : Replicas n (BitVec 128)) (q : Query) : Prop :=
  q.valid = true → q.key = k →
    (q.op = 12#8 → ∃ m, c.Bound m q ∧
      (m = 0 ∨ ((m, q.seq.toNat) ∈ a.passed ∧ a.log[q.seq.toNat]? = some q.value))) ∧
    (q.op ≠ 12#8 → (n, q.seq.toNat) ∈ a.passed ∧ (q.op = 10#8 → q.dstAddr = c.ip c.last) ∧
      (q.op = 11#8 → ∃ p, (n, p) ∈ a.passed ∧ a.log[p]? = some q.value))

variable {c} {k : BitVec 128} {i : BitVec 16} {a a' : Replicas n (BitVec 128)} {f : Fin n}

theorem Fits.mono {q : Query} (h : c.Fits k a q) (hg : Replicas.Grows a a') : c.Fits k a' q := by
  intro hv hk
  obtain ⟨hw, ho⟩ := h hv hk
  constructor
  · intro hop
    obtain ⟨m, hb, hm⟩ := hw hop
    refine ⟨m, hb, hm.imp_right fun hm => ⟨hg.passed hm.1, hg.entry hm.2⟩⟩
  · intro hop
    obtain ⟨hseq, hread, hreply⟩ := ho hop
    refine ⟨hg.passed hseq, hread, fun h11 => ?_⟩
    obtain ⟨p, hp, hv⟩ := hreply h11
    exact ⟨p, hg.passed hp, hg.entry hv⟩

theorem process_failover (b : Bool) (j : Fin n) (regs : Switch) (h : Headers) :
    (Pipe.start regs h).process (c.failoverTables f b j) =
      (Pipe.start regs h).process (c.tables j) := rfl

/-- With the entry of `failover` the pipeline is the old one followed by the redirection. -/
theorem beforeRoute_failover (b : Bool) (j : Fin n) (regs : Switch) {h : Headers}
    (hv : h.ncHdrValid = true) :
    beforeRoute (c.failoverTables f b j) regs h =
      (beforeRoute (c.tables j) regs h).failureRecovery (c.failoverTables f b j) := by
  rw [beforeRoute, beforeRoute, if_pos hv, if_pos hv, process_failover]
  rw [Pipe.failureRecovery_nop (t := c.tables j) fun _ _ _ => rfl]

theorem ingress_failover_regs (b : Bool) (j : Fin n) (regs : Switch) (h : Headers) :
    (ingress (c.failoverTables f b j) regs h).regs = (ingress (c.tables j) regs h).regs := by
  rw [ingress_regs, ingress_regs]
  by_cases hv : h.ncHdrValid = true
  · rw [beforeRoute_failover b j regs hv, Pipe.failureRecovery_regs]
  · rw [beforeRoute, beforeRoute, if_neg hv, if_neg hv]

/-- The redirection: packets for the failed switch, one hop before it. -/
theorem failureRecovery_eq (b : Bool) (j : Fin n) (p : Pipe) :
    p.failureRecovery (c.failoverTables f b j) =
      if b = true ∧ j.val + 1 = f.val ∧ p.hdr.ipv4.dstAddr = c.ip f then
        if f.val + 1 = n then p.failoverWriteReplyAct else p.failoverAct
      else p := by
  unfold Pipe.failureRecovery failoverTables
  dsimp only
  by_cases hr : b = true ∧ j.val + 1 = f.val ∧ p.hdr.ipv4.dstAddr = c.ip f
  · rw [if_pos hr, if_pos hr, failoverRule]
    by_cases hf : f.val + 1 = n
    · rw [if_pos hf, if_pos hf]
    · rw [if_neg hf, if_neg hf]
  · rw [if_neg hr, if_neg hr]

theorem failureRecovery_failover (b : Bool) (j : Fin n) (p : Pipe) :
    p.failureRecovery (c.failoverTables f b j) = p ∨
      (j.val + 1 = f.val ∧ p.hdr.ipv4.dstAddr = c.ip f ∧
        ((f.val + 1 = n ∧
            p.failureRecovery (c.failoverTables f b j) = p.failoverWriteReplyAct) ∨
          (f.val + 1 ≠ n ∧ p.failureRecovery (c.failoverTables f b j) = p.failoverAct))) := by
  rw [failureRecovery_eq]
  split_ifs with hr hf
  · exact .inr ⟨hr.2.1, hr.2.2, .inl ⟨hf, rfl⟩⟩
  · exact .inr ⟨hr.2.1, hr.2.2, .inr ⟨hf, rfl⟩⟩
  · exact .inl rfl

theorem failoverWriteReplyAct_query (p : Pipe) : p.failoverWriteReplyAct.hdr.query =
    { p.hdr.query with op := 13#8, dstAddr := p.hdr.ipv4.srcAddr } := rfl

theorem failoverAct_query (p : Pipe) : p.failoverAct.hdr.query =
    { p.hdr.query with overlay := p.hdr.overlay.tail, dstAddr := p.hdr.overlay.tail.headD 0#32 } := by
  rw [Pipe.failoverAct, Pipe.popChainAct_query]
  have hs : p.hdr.swip 1 = p.hdr.overlay.tail.headD 0#32 := by
    unfold Headers.swip
    rcases p.hdr.overlay with _ | ⟨x, _ | ⟨y, l⟩⟩ <;> rfl
  simp only [Headers.query, hs]

/-- A position whose address is that of a switch is the position of the switch. -/
theorem Bound.eq_of_dst {j : Fin n} {m : ℕ} {q : Query} (hb : c.Bound m q)
    (hd : q.dstAddr = c.ip j) : m = j := by
  have he := hb.2.symm.trans hd
  by_cases hm : m < n
  · rw [c.overlayFrom_eq_cons ⟨m, hm⟩] at he
    exact congrArg Fin.val (c.ip_injective he)
  · have hnil : (List.ofFn c.ip).drop m = [] := by
      apply List.drop_eq_nil_of_le
      simpa using hm
    rw [overlayFrom, hnil] at he
    exact absurd he.symm (c.ip_ne_zero j)

/-- A write bound for the failed switch goes on to the switch after it. -/
theorem failoverAct_bound {p : Pipe} {m : ℕ} (hb : c.Bound m p.hdr.query)
    (hd : p.hdr.ipv4.dstAddr = c.ip f) :
    m = f ∧ c.Bound (f + 1) p.failoverAct.hdr.query := by
  obtain rfl := hb.eq_of_dst hd
  have htail : p.hdr.overlay.tail = c.overlayFrom (f + 1) := by
    rw [show p.hdr.overlay = c.overlayFrom f from hb.1, c.overlayFrom_eq_cons f]
    rfl
  rw [failoverAct_query, htail]
  exact ⟨rfl, rfl, rfl⟩

section Redirect

variable {init : BitVec 128}

/-- The replicas that the chain follows: copies may skip the failed position. -/
abbrev replicas (c : Chain n) (f : Fin n) (init : BitVec 128) :
    System (Replicas n (BitVec 128)) (Replicas.Label n (BitVec 128)) :=
  Replicas.chain c.head {f} init

theorem fits_of_reply {q : Query} (h10 : q.op ≠ 10#8) (h12 : q.op ≠ 12#8)
    (hp : (n, q.seq.toNat) ∈ a.passed)
    (hv : q.op = 11#8 → ∃ p, (n, p) ∈ a.passed ∧ a.log[p]? = some q.value) : c.Fits k a q :=
  fun _ _ => ⟨fun h => absurd h h12, fun _ => ⟨hp, fun h => absurd h h10, hv⟩⟩

theorem fits_of_writeReply {q : Query} (hop : q.op = 13#8) (hp : (n, q.seq.toNat) ∈ a.passed) :
    c.Fits k a q := by
  apply fits_of_reply
  · rw [hop]
    decide
  · rw [hop]
    decide
  · exact hp
  · intro h11
    rw [hop] at h11
    exact absurd h11 (by decide)

/-- The redirection keeps what a packet stands for, with at most one copy more. -/
theorem Fits.redirect (ha : (c.replicas f init).Reachable a) (hf : f ≠ c.head) (b : Bool)
    (j : Fin n) {p : Pipe} (hq : c.Fits k a p.hdr.query) :
    ∃ P, a.passed ⊆ P ∧ (c.replicas f init).Reachable { a with passed := P } ∧
      c.Fits k { a with passed := P }
        (p.failureRecovery (c.failoverTables f b j)).hdr.query := by
  rcases failureRecovery_failover b j p with he | ⟨-, hd, hcase⟩
  · rw [he]
    exact ⟨a.passed, subset_rfl, ha, hq⟩
  · by_cases hw : p.hdr.query.valid = true ∧ p.hdr.query.key = k ∧ p.hdr.query.op = 12#8
    · obtain ⟨hv, hk, hop⟩ := hw
      obtain ⟨m, hb, hm⟩ := (hq hv hk).1 hop
      obtain ⟨rfl, hb'⟩ := failoverAct_bound hb hd
      obtain ⟨hp, hl⟩ := hm.resolve_left fun h0 => hf (Fin.ext h0)
      have hen : (c.replicas f init).enabled a (.pass f p.hdr.query.seq.toNat) := ⟨hp, .inl rfl⟩
      refine ⟨insert (f.val + 1, p.hdr.query.seq.toNat) a.passed, Set.subset_insert _ _,
        ha.step hen, ?_⟩
      rcases hcase with ⟨hn, he⟩ | ⟨hn, he⟩
      · rw [he, failoverWriteReplyAct_query]
        exact fits_of_writeReply rfl (.inl (by rw [hn]))
      · rw [he]
        have hq' := failoverAct_query p
        intro _ _
        refine ⟨fun _ => ⟨f + 1, hb', .inr ?_⟩, fun h12 => absurd ?_ h12⟩
        · rw [hq']
          exact ⟨.inl rfl, hl⟩
        · rw [hq']
          exact hop
    · refine ⟨a.passed, subset_rfl, ha, ?_⟩
      rcases hcase with ⟨hn, he⟩ | ⟨hn, he⟩
      · rw [he, failoverWriteReplyAct_query]
        intro hv hk
        have hseq := ((hq hv hk).2 fun hop => hw ⟨hv, hk, hop⟩).1
        exact fits_of_writeReply rfl hseq hv hk
      · rw [he, failoverAct_query]
        intro hv hk
        refine ⟨fun hop => absurd ⟨hv, hk, hop⟩ hw, fun hop => ?_⟩
        obtain ⟨hseq, hread, hreply⟩ := (hq hv hk).2 hop
        refine ⟨hseq, fun h10 => ?_, hreply⟩
        have hlast := c.ip_injective ((hread h10).symm.trans hd)
        rw [← hlast] at hn
        have := c.pos
        exact absurd (Nat.succ_pred_eq_of_pos this) hn

end Redirect

section Other

variable {s : Net n} {j : Fin n} {h : Headers}

theorem answer_tail_query {p : Pipe} (hr : p.role = 102#16) (hj : role j = 102#16) {m : BitVec 8}
    (hm : genReply p.hdr.ncHdr.op = some m) :
    (p.answer (c.tables j)).hdr.query =
      { p.hdr.query with
        op := m, overlay := p.hdr.overlay.tail, dstAddr := p.hdr.ipv4.srcAddr } := by
  have hpop : p.popChainAgain (c.tables j) = p.popChainAct := by
    simp [Pipe.popChainAgain, tables, hj]
  have hgen : (c.tables j).genReply p.popChainAct.hdr.ncHdr.op = some m := by
    rw [Pipe.popChainAct_ncHdr]
    exact hm
  rw [Pipe.answer, if_pos hr, hpop, Pipe.genReply, hgen]
  have hq := Pipe.popChainAct_query p
  have hsrc := Pipe.popChainAct_srcAddr p
  simp only [Headers.query, Query.mk.injEq] at hq
  simp only [Pipe.genReplyAct, Headers.query, hq, hsrc]

/-- Where there is no reply to give, only the way of the packet changes. -/
theorem answer_other {p : Pipe} (h10 : p.hdr.ncHdr.op ≠ 10#8) (h12 : p.hdr.ncHdr.op ≠ 12#8) :
    ∃ o d, (p.answer (c.tables j)).hdr.query =
      { p.hdr.query with overlay := o, dstAddr := d } := by
  by_cases hr : p.role = 102#16
  · have hgen : genReply p.hdr.ncHdr.op = none := by
      rw [genReply, if_neg h10, if_neg h12]
    rw [Pipe.answer, if_pos hr, Pipe.popChainAgain]
    split_ifs
    · have hg : (c.tables j).genReply p.popChainAct.hdr.ncHdr.op = none := by
        rw [Pipe.popChainAct_ncHdr]
        exact hgen
      rw [Pipe.genReply, hg, Pipe.popChainAct_query]
      exact ⟨_, p.hdr.ipv4.dstAddr, rfl⟩
    · have hg : (c.tables j).genReply p.hdr.ncHdr.op = none := hgen
      rw [Pipe.genReply, hg]
      exact ⟨p.hdr.overlay, p.hdr.ipv4.dstAddr, rfl⟩
  · rw [Pipe.answer_query hr]
    exact ⟨p.hdr.overlay, _, rfl⟩

/-- A packet that is no write stands for the same after a switch: a read the tail
serves brings back what the tail has stored and so passed on. -/
theorem Fits.other (ha : Replicas.Inv c.head {f} a) (hs : s.Mirrors k i a) (hn : n ≠ 1)
    (hk : c.index h.ncHdr.key = some i) (hq : c.Fits k a h.query) (hop : h.ncHdr.op ≠ 12#8) :
    c.Fits k a (beforeRoute (c.tables j) (s.switch j) h).hdr.query := by
  by_cases hserves : (c.tables j).Serves h
  · have hbefore := beforeRoute_of_serves hserves (s.switch j)
    rw [Pipe.failureRecovery_nop fun _ _ _ => rfl] at hbefore
    rw [hbefore]
    by_cases h10 : h.ncHdr.op = 10#8
    · intro hv' hk'
      have hsub := beforeRoute_subject (c.tables j) (s.switch j) h
      rw [hbefore] at hsub
      have hkey : h.ncHdr.key = k := (congrArg Prod.snd hsub).symm.trans hk'
      obtain ⟨hseq, hread, -⟩ := (hq hserves.1 hkey).2 hop
      have hlast : c.last = j := c.ip_injective ((hread h10).symm.trans (dst_of_serves hserves hk))
      have hj : role j = 102#16 := by
        rw [role_eq_tail, ← hlast]
        have := c.pos
        simp only [last]
        omega
      have hr : (Pipe.located (c.tables j) (s.switch j) h).readValueAct.role = 102#16 :=
        (tables_role hk).trans hj
      have hm : genReply (Pipe.located (c.tables j) (s.switch j) h).readValueAct.hdr.ncHdr.op =
          some 11#8 := by
        change genReply h.ncHdr.op = some 11#8
        rw [h10]
        rfl
      rw [Pipe.operate_read h10, answer_tail_query hr hj hm] at hv' hk' ⊢
      have h11 : (11#8 : BitVec 8) ≠ 10#8 ∧ (11#8 : BitVec 8) ≠ 12#8 := by decide
      refine fits_of_reply h11.1 h11.2 hseq (fun _ => ⟨a.number j, ?_, ?_⟩) hv' hk'
      · have hahead := ha.ahead j
        rwa [(role_eq_tail.mp hj).2] at hahead
      · rw [ha.stored j, hs.value j]
        change some _ = some ((s.switch j).value ((c.tables j).index h.ncHdr.key))
        rw [tables_index hk]
    · have hoper : (Pipe.located (c.tables j) (s.switch j) h).operate =
          Pipe.located (c.tables j) (s.switch j) h := by
        rw [Pipe.operate, if_neg (show ¬(Pipe.located _ _ h).hdr.ncHdr.op = 10#8 from h10),
          if_neg (show ¬(Pipe.located _ _ h).hdr.ncHdr.op = 12#8 from hop)]
      obtain ⟨o, d, he⟩ := answer_other (c := c) (j := j)
        (p := Pipe.located (c.tables j) (s.switch j) h) h10 hop
      rw [hoper, he]
      intro hv' hk'
      obtain ⟨hseq, -, hreply⟩ := (hq hv' hk').2 hop
      exact ⟨fun h12 => absurd h12 hop, fun _ => ⟨hseq, fun h => absurd h h10, hreply⟩⟩
  · rw [beforeRoute_tables_not_serves hserves]
    exact hq

end Other

section Write

variable {s : Net n} {j : Fin n} {h : Headers}

theorem failDeliver_switch (b : Bool) (s : Net n) (j : Fin n) (h : Headers) :
    (c.failDeliver f b s j h).switch = (c.deliver s j h).switch := by
  rw [failDeliver, deliver, ingress_failover_regs]

theorem failDeliver_log (b : Bool) (s : Net n) (j : Fin n) (h : Headers) :
    (c.failDeliver f b s j h).log = (c.deliver s j h).log := by
  rw [failDeliver, deliver, ingress_failover_regs]

theorem mirrors_failDeliver {b : Bool} :
    (c.failDeliver f b s j h).Mirrors k i a ↔ (c.deliver s j h).Mirrors k i a := by
  have hw : (c.failDeliver f b s j h).writes k = (c.deliver s j h).writes k := by
    rw [Net.writes, failDeliver_log, Net.writes]
  constructor
  · rintro ⟨h1, h2, h3, h4⟩
    rw [failDeliver_switch] at h1 h2
    rw [failDeliver_log] at h3
    exact ⟨h1, h2, h3, hw ▸ h4⟩
  · rintro ⟨h1, h2, h3, h4⟩
    rw [← failDeliver_switch (f := f) b] at h1 h2
    rw [← failDeliver_log (f := f) b] at h3
    exact ⟨h1, h2, h3, hw ▸ h4⟩

/-- The tail answers a write it serves, stored or refused, with the number it came with. -/
theorem beforeRoute_write_tail (regs : Switch) (hserves : (c.tables j).Serves h)
    (hop : h.ncHdr.op = 12#8) (hk : c.index h.ncHdr.key = some i) (hj : role j = 102#16) :
    (beforeRoute (c.tables j) regs h).hdr.query.op = 13#8 ∧
      (beforeRoute (c.tables j) regs h).hdr.query.seq = h.ncHdr.seq := by
  have hrole : (c.tables j).role h.ncHdr.key = 102#16 := (tables_role hk).trans hj
  have hne : (c.tables j).role h.ncHdr.key ≠ 100#16 := by
    rw [hrole]
    decide
  have hgen : genReply 12#8 = some 13#8 := rfl
  rw [beforeRoute_of_serves hserves, Pipe.failureRecovery_nop fun _ _ _ => rfl]
  by_cases hlt : (Pipe.located (c.tables j) regs h).seq < h.ncHdr.seq
  · have hm : genReply
        (Pipe.located (c.tables j) regs h).assignValueAct.popChainAct.hdr.ncHdr.op = some 13#8 := by
      rw [Pipe.popChainAct_ncHdr]
      exact (congrArg genReply hop).trans hgen
    have hr : (Pipe.located (c.tables j) regs h).assignValueAct.popChainAct.role = 102#16 := by
      rw [Pipe.popChainAct_role]
      exact hrole
    rw [Pipe.operate_accept hop hne hlt, answer_tail_query hr hj hm]
    refine ⟨rfl, ?_⟩
    change (Pipe.located (c.tables j) regs h).assignValueAct.popChainAct.hdr.ncHdr.seq = _
    rw [Pipe.popChainAct_ncHdr]
    rfl
  · have hm : genReply (Pipe.located (c.tables j) regs h).dropPacketAct.hdr.ncHdr.op =
        some 13#8 := (congrArg genReply hop).trans hgen
    rw [Pipe.operate_refuse hop hne hlt, answer_tail_query hrole hj hm]
    exact ⟨rfl, rfl⟩

theorem mirrors_quiet (hs : s.Mirrors k i a)
    (hregs : (ingress (c.tables j) (s.switch j) h).regs.seq i = (s.switch j).seq i ∧
      (ingress (c.tables j) (s.switch j) h).regs.value i = (s.switch j).value i)
    (hlog : (∀ w : HeadWrite, w.key = k → (w ∈ (c.deliver s j h).log ↔ w ∈ s.log)) ∧
      (c.deliver s j h).writes k = s.writes k) : (c.deliver s j h).Mirrors k i a := by
  refine ⟨fun j' => ?_, fun j' => ?_, fun q v => ?_, ?_⟩
  · rw [hs.number, deliver_switch]
    split_ifs with he
    · rw [hregs.1, he]
    · rfl
  · rw [hs.value, deliver_switch]
    split_ifs with he
    · rw [hregs.2, he]
    · rfl
  · rw [hlog.1 ⟨k, q, v⟩ rfl]
    exact hs.log q v
  · rw [hlog.2]
    exact hs.length

/-- What a delivery leads to before any redirection: a state of the replicas that the
switches mirror, in which the packet stands for something. -/
def Leads (c : Chain n) (f : Fin n) (init : BitVec 128) (k : BitVec 128) (i : BitVec 16)
    (a : Replicas n (BitVec 128)) (s : Net n) (q : Query) : Prop :=
  ∃ a', (c.replicas f init).Reachable a' ∧ Replicas.Grows a a' ∧ s.Mirrors k i a' ∧
    c.Fits k a' q

variable {init : BitVec 128}

theorem leads_head (ha : (c.replicas f init).Reachable a) (hs : s.Mirrors k i a)
    (hki : c.index k = some i) (hkey : h.ncHdr.key = k) (hserves : (c.tables c.head).Serves h)
    (hop : h.ncHdr.op = 12#8) (hcount : (c.deliver s c.head h).writes k < 2 ^ 16)
    (hregs : (ingress (c.tables c.head) (s.switch c.head) h).regs =
      (s.switch c.head).store i ((s.switch c.head).seq i + 1#16) h.ncHdr.value)
    (hp : c.Passes (beforeRoute (c.tables c.head) (s.switch c.head) h).hdr 1 k
      ((s.switch c.head).seq i + 1#16) h.ncHdr.value) :
    c.Leads f init k i a (c.deliver s c.head h)
      (beforeRoute (c.tables c.head) (s.switch c.head) h).hdr.query := by
  have hinv := Replicas.inv_reachable rfl ha
  have hlt := c.index_lt hki
  set q := (s.switch c.head).seq i + 1#16 with hq
  have hlog : (c.deliver s c.head h).log = ⟨k, q, h.ncHdr.value⟩ :: s.log := by
    have hidx : (c.tables c.head).index k = i := tables_index hki
    simp only [deliver, headLog, hserves, hop, and_self, if_true, hkey, hidx, hregs,
      Switch.store_seq_self hlt, Switch.store_value_self hlt]
  have hwrites : (c.deliver s c.head h).writes k = s.writes k + 1 := by
    rw [Net.writes, hlog, List.countP_cons_of_pos (by simp)]
    rfl
  have hqnat : q.toNat = a.log.length := by
    have h1 := hs.number c.head
    have h2 := hinv.last
    have h3 := hs.length
    rw [hq]
    bv_omega
  have hne : role c.head ≠ 102#16 := by
    rw [Ne, role_eq_tail]
    exact fun hr => hr.1 rfl
  have hen : (c.replicas f init).enabled a (.issue h.ncHdr.value) := trivial
  refine ⟨a.issue c.head h.ncHdr.value, ha.step hen,
    hinv.grows_issue _, ⟨fun j' => ?_, fun j' => ?_, fun p v => ?_, ?_⟩, ?_⟩
  · rw [deliver_seq hlt hregs]
    simp only [Replicas.issue, Function.update_apply]
    split_ifs
    · exact hqnat.symm
    · exact hs.number j'
  · rw [deliver_switch, hregs]
    simp only [Replicas.issue, Function.update_apply]
    split_ifs
    · rw [Switch.store_value_self hlt]
    · exact hs.value j'
  · rw [hlog, List.mem_cons, hs.log]
    simp only [Replicas.issue, HeadWrite.mk.injEq, true_and]
    by_cases hpq : p = q
    · rw [hpq, hqnat, List.getElem?_concat_length]
      have hnone : a.log[a.log.length]? = none := List.getElem?_eq_none le_rfl
      have := hinv.last
      simp only [hnone, reduceCtorEq, and_false, or_false, true_and, Option.some.injEq]
      constructor
      · rintro rfl
        exact ⟨by omega, rfl⟩
      · rintro ⟨-, rfl⟩
        rfl
    · have hpn : p.toNat ≠ a.log.length := fun he => hpq (BitVec.toNat_inj.mp (he.trans hqnat.symm))
      simp only [hpq, false_and, false_or]
      by_cases hlen : p.toNat < a.log.length
      · rw [List.getElem?_append_left hlen]
      · rw [List.getElem?_eq_none (by omega), List.getElem?_eq_none (by simp; omega)]
  · rw [hwrites]
    simp only [Replicas.issue, List.length_append, List.length_singleton, hs.length]
  · have hw := beforeRoute_isWrite_of_ne_tail (s.switch c.head) hserves hop (hkey ▸ hki) hne
    intro _ _
    refine ⟨fun _ => ⟨1, hp.bound, .inr ?_⟩, fun hno => absurd hw.2 hno⟩
    rw [show Query.seq _ = q from hp.seq, show Query.value _ = h.ncHdr.value from hp.value, hqnat]
    refine ⟨.inl rfl, ?_⟩
    simp [Replicas.issue]

/-- A served write past the head is a copy that has reached this position. -/
theorem Fits.arrived (hq : c.Fits k a h.query) (hki : c.index k = some i) (hkey : h.ncHdr.key = k)
    (hserves : (c.tables j).Serves h) (hop : h.ncHdr.op = 12#8) (hj : j ≠ c.head) :
    (j.val, h.ncHdr.seq.toNat) ∈ a.passed ∧ a.log[h.ncHdr.seq.toNat]? = some h.ncHdr.value := by
  obtain ⟨m, hb, hm⟩ := (hq hserves.1 hkey).1 hop
  obtain rfl := hb.eq_of_serves hserves (hkey ▸ hki)
  exact hm.resolve_left fun h0 => hj (Fin.ext h0)

theorem leads_accept (ha : (c.replicas f init).Reachable a) (hs : s.Mirrors k i a)
    (hki : c.index k = some i) (hkey : h.ncHdr.key = k) (hserves : (c.tables j).Serves h)
    (hop : h.ncHdr.op = 12#8) (hj : j ≠ c.head) (hlt : (s.switch j).seq i < h.ncHdr.seq)
    (harr : (j.val, h.ncHdr.seq.toNat) ∈ a.passed ∧
      a.log[h.ncHdr.seq.toNat]? = some h.ncHdr.value)
    (hregs : (ingress (c.tables j) (s.switch j) h).regs =
      (s.switch j).store i h.ncHdr.seq h.ncHdr.value)
    (hp : (beforeRoute (c.tables j) (s.switch j) h).hdr.IsWrite →
      c.Passes (beforeRoute (c.tables j) (s.switch j) h).hdr (j + 1) k h.ncHdr.seq h.ncHdr.value) :
    c.Leads f init k i a (c.deliver s j h)
      (beforeRoute (c.tables j) (s.switch j) h).hdr.query := by
  have hi := c.index_lt hki
  have hlog : (c.deliver s j h).log = s.log := headLog_of_ne hj _ _
  have hnum : a.number j < h.ncHdr.seq.toNat := by
    rw [hs.number]
    exact hlt
  have hen : (c.replicas f init).enabled a (.store j h.ncHdr.seq.toNat h.ncHdr.value) :=
    ⟨harr.1, hnum, harr.2⟩
  refine ⟨a.store j h.ncHdr.seq.toNat h.ncHdr.value, ha.step hen, Replicas.grows_store hnum _,
    ⟨fun j' => ?_, fun j' => ?_, fun p v => ?_, ?_⟩, ?_⟩
  · rw [deliver_seq hi hregs]
    simp only [Replicas.store, Function.update_apply]
    split_ifs
    · rfl
    · exact hs.number j'
  · rw [deliver_switch, hregs]
    simp only [Replicas.store, Function.update_apply]
    split_ifs
    · rw [Switch.store_value_self hi]
    · exact hs.value j'
  · rw [hlog]
    exact hs.log p v
  · rw [Net.writes, hlog]
    exact hs.length
  · by_cases hr : role j = 102#16
    · obtain ⟨h13, hseq⟩ := beforeRoute_write_tail (s.switch j) hserves hop (hkey ▸ hki) hr
      apply fits_of_writeReply h13
      rw [hseq]
      exact .inl (Prod.ext (role_eq_tail.mp hr).2.symm rfl)
    · have hw := beforeRoute_isWrite_of_ne_tail (s.switch j) hserves hop (hkey ▸ hki) hr
      have hpass := hp hw
      intro _ _
      refine ⟨fun _ => ⟨j + 1, hpass.bound, .inr ?_⟩, fun hno => absurd hw.2 hno⟩
      rw [show Query.seq _ = h.ncHdr.seq from hpass.seq,
        show Query.value _ = h.ncHdr.value from hpass.value]
      exact ⟨.inl rfl, harr.2⟩

theorem leads_refuse (ha : (c.replicas f init).Reachable a) (hs : s.Mirrors k i a)
    (hki : c.index k = some i) (hkey : h.ncHdr.key = k) (hserves : (c.tables j).Serves h)
    (hop : h.ncHdr.op = 12#8) (hj : j ≠ c.head) (hle : h.ncHdr.seq ≤ (s.switch j).seq i)
    (harr : (j.val, h.ncHdr.seq.toNat) ∈ a.passed ∧
      a.log[h.ncHdr.seq.toNat]? = some h.ncHdr.value)
    (hregs : (ingress (c.tables j) (s.switch j) h).regs = s.switch j)
    (hp : (beforeRoute (c.tables j) (s.switch j) h).hdr.IsWrite →
      c.Passes (beforeRoute (c.tables j) (s.switch j) h).hdr j k h.ncHdr.seq h.ncHdr.value) :
    c.Leads f init k i a (c.deliver s j h)
      (beforeRoute (c.tables j) (s.switch j) h).hdr.query := by
  have hlog : (c.deliver s j h).log = s.log := headLog_of_ne hj _ _
  have hs' : (c.deliver s j h).Mirrors k i a := by
    apply mirrors_quiet hs
    · rw [hregs]
      exact ⟨rfl, rfl⟩
    · rw [Net.writes, hlog]
      exact ⟨fun _ _ => Iff.rfl, rfl⟩
  by_cases hr : role j = 102#16
  · have hnum : h.ncHdr.seq.toNat ≤ a.number j := by
      rw [hs.number]
      exact hle
    have hen : (c.replicas f init).enabled a (.pass j h.ncHdr.seq.toNat) := ⟨harr.1, .inr hnum⟩
    obtain ⟨h13, hseq⟩ := beforeRoute_write_tail (s.switch j) hserves hop (hkey ▸ hki) hr
    refine ⟨a.pass j h.ncHdr.seq.toNat, ha.step hen, Replicas.grows_pass _ _,
      ⟨hs'.number, hs'.value, hs'.log, hs'.length⟩, fits_of_writeReply h13 ?_⟩
    rw [hseq]
    exact .inl (Prod.ext (role_eq_tail.mp hr).2.symm rfl)
  · have hw := beforeRoute_isWrite_of_ne_tail (s.switch j) hserves hop (hkey ▸ hki) hr
    have hpass := hp hw
    refine ⟨a, ha, .refl a, hs', fun _ _ => ⟨fun _ => ⟨j, hpass.bound, .inr ?_⟩,
      fun hno => absurd hw.2 hno⟩⟩
    rw [show Query.seq _ = h.ncHdr.seq from hpass.seq,
      show Query.value _ = h.ncHdr.value from hpass.value]
    exact harr

theorem leads_deliver (ha : (c.replicas f init).Reachable a) (hs : s.Mirrors k i a)
    (hsound : c.Sound s) (hki : c.index k = some i) (hn : n ≠ 1) (hh : h ∈ s.sent)
    (hq : c.Fits k a h.query) (hcount : (c.deliver s j h).writes k < 2 ^ 16) :
    c.Leads f init k i a (c.deliver s j h)
      (beforeRoute (c.tables j) (s.switch j) h).hdr.query := by
  by_cases hserves : (c.tables j).Serves h ∧ h.ncHdr.op = 12#8
  · obtain ⟨i', hk, hb⟩ := hsound.served hh hserves.1 hserves.2
    have hout := beforeRoute_write (s.switch j) hserves.1 hserves.2 hk hb
    simp only [← ingress_regs] at hout
    by_cases hkey : h.ncHdr.key = k
    · obtain rfl : i' = i := by
        rw [hkey, hki] at hk
        exact (Option.some.inj hk).symm
      rw [hkey] at hout
      rcases hout with ⟨rfl, hregs, hp⟩ | ⟨hj, hlt, hregs, hp⟩ | ⟨hj, hle, hregs, hp⟩
      · exact leads_head ha hs hki hkey hserves.1 hserves.2 hcount hregs hp
      · have harr := hq.arrived hki hkey hserves.1 hserves.2 hj
        exact leads_accept ha hs hki hkey hserves.1 hserves.2 hj hlt harr hregs hp
      · have harr := hq.arrived hki hkey hserves.1 hserves.2 hj
        exact leads_refuse ha hs hki hkey hserves.1 hserves.2 hj hle harr hregs hp
    · have hne : i' ≠ i := fun he => hkey (c.index_injective hk (he ▸ hki))
      have hidx : (c.tables j).index h.ncHdr.key ≠ i := by
        rw [tables_index hk]
        exact hne
      have hsub := beforeRoute_subject (c.tables j) (s.switch j) h
      refine ⟨a, ha, .refl a, mirrors_quiet hs (ingress_regs_of_ne (s.switch j) hidx)
        (headLog_of_key_ne hkey _ s.log), fun _ hk' => ?_⟩
      exact absurd ((congrArg Prod.snd hsub).symm.trans hk') hkey
  · have hregs := ingress_regs_eq hserves (s.switch j)
    have hlog : (c.deliver s j h).log = s.log := by
      have hno : ¬ (j = c.head ∧ (c.tables j).Serves h ∧ h.ncHdr.op = 12#8) :=
        fun hy => hserves hy.2
      simp only [Chain.deliver, headLog, if_neg hno]
    have hs' : (c.deliver s j h).Mirrors k i a := by
      apply mirrors_quiet hs
      · rw [hregs]
        exact ⟨rfl, rfl⟩
      · rw [Net.writes, hlog]
        exact ⟨fun _ _ => Iff.rfl, rfl⟩
    refine ⟨a, ha, .refl a, hs', ?_⟩
    by_cases hop : h.ncHdr.op = 12#8
    · rw [beforeRoute_tables_not_serves fun hy => hserves ⟨hy, hop⟩]
      exact hq
    · by_cases hkey : h.ncHdr.key = k
      · exact hq.other (Replicas.inv_reachable rfl ha) hs hn (hkey ▸ hki) hop
      · intro _ hk'
        have hsub := beforeRoute_subject (c.tables j) (s.switch j) h
        exact absurd ((congrArg Prod.snd hsub).symm.trans hk') hkey

end Write

section Run

variable {s : Net n} {j : Fin n} {h : Headers} {init : Register 128 regSize} {b : Bool}

theorem mem_emit_failover {g : Headers}
    (hg : g ∈ (emit (c.failoverTables f b j) (s.switch j) h).toList) :
    g.query = (beforeRoute (c.failoverTables f b j) (s.switch j) h).hdr.query :=
  emit_query (Option.mem_toList.mp hg)

/-- A write in flight stays bound for some position, whatever is delivered. -/
theorem Sound.goesOn (hs : c.Sound s) (hh : h ∈ s.sent)
    (hw : (beforeRoute (c.tables j) (s.switch j) h).hdr.IsWrite) :
    ∃ m, c.Bound m (beforeRoute (c.tables j) (s.switch j) h).hdr.query ∧
      (m = 0 ∨ ∃ i, c.index (beforeRoute (c.tables j) (s.switch j) h).hdr.ncHdr.key = some i) := by
  have hwh := beforeRoute_isWrite (tables_genReply_ne j) hw
  by_cases hserves : (c.tables j).Serves h
  · obtain ⟨i, hk, hb⟩ := hs.served hh hserves hwh.2
    rcases beforeRoute_write (s.switch j) hserves hwh.2 hk hb with
      ⟨-, -, hp⟩ | ⟨-, -, -, hp⟩ | ⟨-, -, -, hp⟩
    · exact ⟨_, hp.bound, .inr ⟨i, by rw [hp.key, hk]⟩⟩
    · exact ⟨_, (hp hw).bound, .inr ⟨i, by rw [(hp hw).key, hk]⟩⟩
    · exact ⟨_, (hp hw).bound, .inr ⟨i, by rw [(hp hw).key, hk]⟩⟩
  · rw [beforeRoute_tables_not_serves hserves]
    exact hs h hh hwh

theorem Sound.failDeliver (hs : c.Sound s) (hf : f ≠ c.head) (hh : h ∈ s.sent) :
    c.Sound (c.failDeliver f b s j h) := by
  intro g hg hw
  rcases List.mem_append.mp hg with hg | hg
  · have hq := mem_emit_failover hg
    have hw' := isWrite_of_query hq hw
    have hkey : g.ncHdr.key = (beforeRoute (c.failoverTables f b j) (s.switch j) h).hdr.ncHdr.key :=
      congrArg Query.key hq
    rw [hq, hkey]
    by_cases hv : h.ncHdrValid = true
    · rw [beforeRoute_failover b j _ hv] at hw' ⊢
      obtain ⟨m, hb, hm⟩ := hs.goesOn hh (Pipe.failureRecovery_isWrite hw')
      rcases failureRecovery_failover b j (beforeRoute (c.tables j) (s.switch j) h) with
        he | ⟨-, hd, hcase⟩
      · rw [he]
        exact ⟨m, hb, hm⟩
      · rcases hcase with ⟨-, he⟩ | ⟨-, he⟩
        · rw [he] at hw'
          exact absurd hw' (Pipe.genReplyAct_isWrite (by decide))
        · obtain ⟨rfl, hb'⟩ := failoverAct_bound hb hd
          have hkey' := congrArg Query.key
            (failoverAct_query (beforeRoute (c.tables j) (s.switch j) h))
          rw [he]
          refine ⟨f + 1, hb', .inr ?_⟩
          obtain ⟨i, hi⟩ := hm.resolve_left fun h0 => hf (Fin.ext h0)
          exact ⟨i, (congrArg c.index hkey').trans hi⟩
    · have hsub := beforeRoute_subject (c.failoverTables f b j) (s.switch j) h
      exact absurd ((congrArg Prod.fst hsub).symm.trans hw'.1) hv
  · exact hs g hg hw

/-- The network follows the replicas: registers and log are theirs, and every packet
stands for one of their copies. -/
def Follows (c : Chain n) (k : BitVec 128) (i : BitVec 16) (s : Net n)
    (a : Replicas n (BitVec 128)) : Prop :=
  s.Mirrors k i a ∧ ∀ h ∈ s.sent, c.Fits k a h.query

theorem follows_start (k : BitVec 128) (i : BitVec 16) :
    c.Follows k i ⟨fun _ => ⟨.fill regSize 0#16, init⟩, [], []⟩
      (Replicas.start (init.read i.toNat)) := by
  refine ⟨⟨fun j => ?_, fun j => ?_, fun q v => ?_, ?_⟩, fun h hh => ?_⟩
  · simp [Replicas.start, Switch.seq]
  · rfl
  · simp only [Replicas.start, List.not_mem_nil, false_iff, not_and]
    intro hq
    rw [List.getElem?_eq_none (Nat.succ_le_of_lt hq)]
    simp
  · simp [Replicas.start, Net.writes]
  · simp at hh

/-- A delivery through the tables with the entry of `failover` is a run of the replicas. -/
theorem follows_failDeliver {a : Replicas n (BitVec 128)} {v : BitVec 128}
    (ha : (c.replicas f v).Reachable a) (hs : c.Follows k i s a) (hsound : c.Sound s)
    (hf : f ≠ c.head) (hki : c.index k = some i) (hh : h ∈ s.sent)
    (hcount : (c.failDeliver f b s j h).writes k < 2 ^ 16) :
    ∃ a', (c.replicas f v).Reachable a' ∧ Replicas.Grows a a' ∧
      c.Follows k i (c.failDeliver f b s j h) a' := by
  have hn : n ≠ 1 := by
    rintro rfl
    exact hf (Subsingleton.elim f c.head)
  have hcount' : (c.deliver s j h).writes k < 2 ^ 16 := by
    rwa [Net.writes, failDeliver_log] at hcount
  obtain ⟨a₁, hr₁, hg₁, hm₁, hq₁⟩ :=
    leads_deliver ha hs.1 hsound hki hn hh (hs.2 h hh) hcount' (j := j)
  obtain ⟨P, hP, hr₂, hq₂⟩ := hq₁.redirect hr₁ hf b j
  have hg₂ : Replicas.Grows a₁ { a₁ with passed := P } := ⟨fun _ => le_rfl, List.prefix_rfl, hP⟩
  refine ⟨_, hr₂, hg₁.trans hg₂,
    mirrors_failDeliver.mpr ⟨hm₁.number, hm₁.value, hm₁.log, hm₁.length⟩, fun g hg => ?_⟩
  rcases List.mem_append.mp hg with hg | hg
  · rw [mem_emit_failover hg]
    by_cases hv : h.ncHdrValid = true
    · rwa [beforeRoute_failover b j _ hv]
    · intro hv'
      have hsub := beforeRoute_subject (c.failoverTables f b j) (s.switch j) h
      exact absurd ((congrArg Prod.fst hsub).symm.trans hv') hv
  · exact (hs.2 g hg).mono (hg₁.trans hg₂)

theorem follows_send {a : Replicas n (BitVec 128)} {v : BitVec 128}
    (ha : (c.replicas f v).Reachable a) (hs : c.Follows k i s a)
    (hh : h.ncHdrValid = true → c.IsClientWrite h ∨ c.IsClientRead h) :
    c.Follows k i { s with sent := h :: s.sent } a := by
  refine ⟨⟨hs.1.number, hs.1.value, hs.1.log, hs.1.length⟩, fun g hg => ?_⟩
  rcases List.mem_cons.mp hg with rfl | hg
  · intro hv _
    rcases hh hv with ⟨hw, -, hb⟩ | ⟨-, hop, hseq, -, hd⟩
    · exact ⟨fun _ => ⟨0, hb, .inl rfl⟩, fun hno => absurd hw.2 hno⟩
    · have h10 : g.query.op = 10#8 := hop
      rw [h10]
      refine ⟨fun h12 => absurd h12 (by decide), fun _ => ⟨?_, fun _ => hd, fun h11 => ?_⟩⟩
      · rw [show g.query.seq = 0#16 from hseq]
        exact (Replicas.inv_reachable rfl ha).zero n
      · exact absurd h11 (by decide)
  · exact hs.2 g hg

variable {t : FailNet n}

theorem surviving_sound (hf : f ≠ c.head) (ht : (c.surviving f init).Reachable t) :
    c.Sound t.net := by
  apply ht.invariant
  · rintro t rfl h hh
    simp at hh
  · intro t l _ ih he
    cases l with
    | send g =>
      intro h hh hw
      rcases List.mem_cons.mp hh with rfl | hh
      · rcases he hw.1 with hc | hc
        · exact ⟨0, hc.2.2, .inl rfl⟩
        · have hop := hw.2
          rw [hc.2.1] at hop
          exact absurd hop (by decide)
      · exact ih h hh hw
    | deliver j g => exact ih.failDeliver hf he.1
    | stopSwitch => exact ih
    | failover => exact ih

variable (c init) in
theorem writes_le_surviving (k : BitVec 128) (t : FailNet n) (l : FailLabel n) :
    t.net.writes k ≤ ((c.surviving f init).next t l).net.writes k := by
  cases l with
  | send h => exact Nat.le_refl _
  | deliver j h =>
    have hle := writes_le_deliver (c := c) k t.net j h
    rwa [Net.writes, Net.writes, ← failDeliver_log (f := f) t.installed] at hle
  | stopSwitch => exact Nat.le_refl _
  | failover => exact Nat.le_refl _

theorem follows_step {a : Replicas n (BitVec 128)} {v : BitVec 128}
    (ha : (c.replicas f v).Reachable a) (hs : c.Follows k i t.net a)
    (hsound : c.Sound t.net) (hf : f ≠ c.head) (hki : c.index k = some i) {l : FailLabel n}
    (he : (c.surviving f init).enabled t l)
    (hcount : ((c.surviving f init).next t l).net.writes k < 2 ^ 16) :
    ∃ a', (c.replicas f v).Reachable a' ∧ Replicas.Grows a a' ∧
      c.Follows k i ((c.surviving f init).next t l).net a' := by
  cases l with
  | send h => exact ⟨a, ha, .refl a, follows_send ha hs he⟩
  | deliver j h => exact follows_failDeliver ha hs hsound hf hki he.1 hcount
  | stopSwitch => exact ⟨a, ha, .refl a, hs⟩
  | failover => exact ⟨a, ha, .refl a, hs⟩

/-- Every run with at most `2 ^ 16 - 1` writes of a key follows a run of the replicas. -/
theorem follows_reachable (hf : f ≠ c.head) (ht : (c.surviving f init).Reachable t)
    (hki : c.index k = some i) (hcount : t.net.writes k < 2 ^ 16) :
    ∃ a, (c.replicas f (init.read i.toNat)).Reachable a ∧ c.Follows k i t.net a := by
  induction ht with
  | init h =>
    obtain rfl := h
    exact ⟨_, .init rfl, follows_start k i⟩
  | @step t l hr he ih =>
    have hle := writes_le_surviving c init (f := f) k t l
    obtain ⟨a, ha, hs⟩ := ih (Nat.lt_of_le_of_lt hle hcount)
    obtain ⟨a', ha', -, hs'⟩ := follows_step ha hs (surviving_sound hf hr) hf hki he hcount
    exact ⟨a', ha', hs'⟩

/-- The entry of the replicas' log behind a stored or answered number. -/
theorem Follows.entry {a : Replicas n (BitVec 128)} {v : BitVec 128} {s : Net n}
    (ha : (c.replicas f v).Reachable a) (hs : c.Follows k i s a) {q : BitVec 16} {w : BitVec 128}
    (hw : a.log[q.toNat]? = some w) : q = 0#16 ∧ w = v ∨ ⟨k, q, w⟩ ∈ s.log := by
  by_cases h0 : q = 0#16
  · left
    have hzero := Replicas.log_zero ha
    rw [h0] at hw
    exact ⟨h0, Option.some.inj (hw.symm.trans hzero)⟩
  · right
    rw [hs.1.log]
    exact ⟨by bv_omega, hw⟩

end Run

section Results

variable (c) (init : Register 128 regSize) {t : FailNet n}

end Results

section Available

variable {init : Register 128 regSize} {t : FailNet n} {j : Fin n} {h g : Headers}
  {q : BitVec 16} {v : BitVec 128}

/-- A write that a switch stores is not dropped there. -/
theorem beforeRoute_egressSpec {regs : Switch} {b : Bool}
    (hst : Stores (c.failoverTables f b j) regs h) :
    (beforeRoute (c.failoverTables f b j) regs h).egressSpec = 0#9 := by
  obtain ⟨hserves, hop, hnew⟩ := hst
  rw [beforeRoute_of_serves hserves]
  have hoper : (Pipe.located (c.failoverTables f b j) regs h).operate.egressSpec = 0#9 := by
    by_cases hr : (c.failoverTables f b j).role h.ncHdr.key = 100#16
    · rw [Pipe.operate_head hop hr, Pipe.popChainAct_egressSpec]
      rfl
    · rw [Pipe.operate_accept hop hr (hnew.resolve_left hr), Pipe.popChainAct_egressSpec]
      rfl
  rw [failureRecovery_eq]
  split_ifs
  · exact (Pipe.answer_egressSpec _ _).trans hoper
  · rw [Pipe.failoverAct, Pipe.popChainAct_egressSpec]
    exact (Pipe.answer_egressSpec _ _).trans hoper
  · exact (Pipe.answer_egressSpec _ _).trans hoper

/-- A write that a switch stores leaves it, unless a route leads to the drop port. -/
theorem emit_of_stores {regs : Switch} {b : Bool}
    (hroute : ∀ j dst spec, c.ipv4Route j dst = some spec → spec ≠ dropPort)
    (hst : Stores (c.failoverTables f b j) regs h) :
    ∃ g, emit (c.failoverTables f b j) regs h = some g := by
  have hspec := beforeRoute_egressSpec hst
  have hne : (ingress (c.failoverTables f b j) regs h).egressSpec ≠ dropPort := by
    unfold ingress Pipe.ipv4Route
    dsimp only
    split_ifs
    · split
      · rename_i spec hs
        exact hroute j _ spec hs
      · rw [hspec]
        decide
    · rw [hspec]
      decide
  rw [emit, if_neg hne]
  exact ⟨_, rfl⟩

/-- A write numbered `q` has reached position `m`, stored by the working switches before it
and newer than what the others hold. -/
structure Wave (c : Chain n) (f : Fin n) (k : BitVec 128) (i : BitVec 16) (q : BitVec 16)
    (v : BitVec 128) (t : FailNet n) (m : Fin n) (g : Headers) : Prop where
  sent : g ∈ t.net.sent
  write : g.IsWrite
  passes : c.Passes g m k q v
  working : m ≠ f
  before : ∀ j, j ≠ f → j < m → (t.net.switch j).seq i = q ∧ (t.net.switch j).value i = v
  behind : ∀ j, j ≠ f → m ≤ j → (t.net.switch j).seq i < q

/-- The write is answered, and every working switch holds it. -/
structure Done (f : Fin n) (k : BitVec 128) (i : BitVec 16) (q : BitVec 16) (v : BitVec 128)
    (t : FailNet n) : Prop where
  stored : ∀ j, j ≠ f → (t.net.switch j).seq i = q ∧ (t.net.switch j).value i = v
  answered : ∃ g ∈ t.net.sent, g.ncHdrValid = true ∧ g.ncHdr.op = 13#8 ∧ g.ncHdr.key = k ∧
    g.ncHdr.seq = q

/-- Switch `j` has stored the write and sent `g`: the working switches up to it hold the write, and
those after it an older one. -/
structure Relayed (f : Fin n) (k : BitVec 128) (i : BitVec 16) (q : BitVec 16) (v : BitVec 128)
    (t : FailNet n) (j : Fin n) (g : Headers) : Prop where
  sent : g ∈ t.net.sent
  valid : g.ncHdrValid = true
  key : g.ncHdr.key = k
  upto : ∀ j', j' ≠ f → j' ≤ j → (t.net.switch j').seq i = q ∧ (t.net.switch j').value i = v
  beyond : ∀ j', j' ≠ f → j < j' → (t.net.switch j').seq i < q

/-- No working switch is left, and the packet is the answer. -/
theorem Relayed.done (h : Relayed f k i q v t j g) (hlast : ∀ j', j' ≠ f → j' ≤ j)
    (hop : g.ncHdr.op = 13#8) (hseq : g.ncHdr.seq = q) : Done f k i q v t :=
  ⟨fun j' hj' => h.upto j' hj' (hlast j' hj'), g, h.sent, h.valid, hop, h.key, hseq⟩

/-- The packet is the write on its way to the next working switch. -/
theorem Relayed.wave (h : Relayed f k i q v t j g) {m : Fin n} (hm : m ≠ f)
    (hnext : ∀ j', j' ≠ f → (j' < m ↔ j' ≤ j)) (hw : g.IsWrite) (hp : c.Passes g m k q v) :
    Wave c f k i q v t m g := by
  refine ⟨h.sent, hw, hp, hm, fun j' hj' hlt => ?_, fun j' hj' hle => ?_⟩
  · exact h.upto j' hj' ((hnext j' hj').mp hlt)
  · exact h.beyond j' hj' (lt_of_not_ge fun hge => absurd ((hnext j' hj').mpr hge) hle.not_gt)

variable (init) in
/-- One more switch stores the write. -/
theorem deliver_relayed (hroute : ∀ j dst spec, c.ipv4Route j dst = some spec → spec ≠ dropPort)
    (hk : c.index k = some i) (hkey : g.ncHdr.key = k)
    (hst : Stores (c.tables j) (t.net.switch j) g)
    (hregs : (ingress (c.tables j) (t.net.switch j) g).regs = (t.net.switch j).store i q v)
    (hbefore : ∀ j', j' ≠ f → j' < j → (t.net.switch j').seq i = q ∧ (t.net.switch j').value i = v)
    (hbehind : ∀ j', j' ≠ f → j < j' → (t.net.switch j').seq i < q) :
    ∃ g', g'.query = ((beforeRoute (c.tables j) (t.net.switch j) g).failureRecovery
        (c.failoverTables f t.installed j)).hdr.query ∧
      Relayed f k i q v ((c.surviving f init).next t (.deliver j g)) j g' := by
  have hi := c.index_lt hk
  have hv := hst.1.1
  obtain ⟨g', hg'⟩ := emit_of_stores hroute (b := t.installed) (f := f) hst
  have hsub := beforeRoute_subject (c.failoverTables f t.installed j) (t.net.switch j) g
  have hseq (j' : Fin n) : (((c.surviving f init).next t (.deliver j g)).net.switch j').seq i =
      if j' = j then q else (t.net.switch j').seq i := by
    change ((c.failDeliver f t.installed t.net j g).switch j').seq i = _
    rw [failDeliver_switch, deliver_seq hi hregs]
  have hvalue (j' : Fin n) : (((c.surviving f init).next t (.deliver j g)).net.switch j').value i =
      if j' = j then v else (t.net.switch j').value i := by
    change ((c.failDeliver f t.installed t.net j g).switch j').value i = _
    rw [failDeliver_switch, deliver_switch, hregs]
    split_ifs
    · exact Switch.store_value_self hi
    · rfl
  refine ⟨g', ?_, List.mem_append.mpr (.inl (Option.mem_toList.mpr hg')), ?_, ?_, ?_, ?_⟩
  · rw [emit_query hg', beforeRoute_failover t.installed j _ hv]
  · have he : g'.query.valid = _ := congrArg Query.valid (emit_query hg')
    exact he.trans ((congrArg Prod.fst hsub).trans hv)
  · have he : g'.query.key = _ := congrArg Query.key (emit_query hg')
    exact he.trans ((congrArg Prod.snd hsub).trans hkey)
  · intro j' hjf hle
    rw [hseq, hvalue]
    by_cases he : j' = j
    · rw [if_pos he, if_pos he]
      exact ⟨rfl, rfl⟩
    · rw [if_neg he, if_neg he]
      exact hbefore j' hjf (lt_of_le_of_ne hle he)
  · intro j' hjf hlt
    rw [hseq, if_neg (ne_of_gt hlt)]
    exact hbehind j' hjf hlt

section Relay

variable {p : Pipe} {b : Bool}

/-- The tail answers the write. -/
theorem Relayed.tail (h : Relayed f k i q v t j g) (hr : role j = 102#16)
    (hq : g.query = (p.failureRecovery (c.failoverTables f b j)).hdr.query)
    (hop : p.hdr.query.op = 13#8) (hseq : p.hdr.query.seq = q) : Done f k i q v t := by
  have hlast := (role_eq_tail.mp hr).2
  have hno : ¬(b = true ∧ j.val + 1 = f.val ∧ p.hdr.ipv4.dstAddr = c.ip f) := by
    rintro ⟨-, hjf, -⟩
    have := f.isLt
    omega
  rw [failureRecovery_eq, if_neg hno] at hq
  refine h.done (fun j' _ => Fin.mk_le_of_le_val (by omega)) ?_ ?_
  · exact (congrArg Query.op hq).trans hop
  · exact (congrArg Query.seq hq).trans hseq

/-- The next switch has failed: the write is answered in its place or goes on to the one behind
it. -/
theorem Relayed.detour (h : Relayed f k i q v t j g) (hjf : j.val + 1 = f.val) (hb : b = true)
    (hq : g.query = (p.failureRecovery (c.failoverTables f b j)).hdr.query)
    (hw : p.hdr.IsWrite) (hp : c.Passes p.hdr (j + 1) k q v) :
    Done f k i q v t ∨ ∃ m, j < m ∧ Wave c f k i q v t m g := by
  have hover : c.overlayFrom (j + 1) = c.ip f :: c.overlayFrom (f + 1) := by
    rw [hjf]
    exact c.overlayFrom_eq_cons f
  have hd : p.hdr.ipv4.dstAddr = c.ip f := by
    have hd := hp.bound.2
    rw [hover] at hd
    exact hd
  rw [failureRecovery_eq, if_pos ⟨hb, hjf, hd⟩] at hq
  by_cases hfn : f.val + 1 = n
  · left
    rw [if_pos hfn, failoverWriteReplyAct_query] at hq
    refine h.done (fun j' hj' => Fin.mk_le_of_le_val ?_) (congrArg Query.op hq)
      ((congrArg Query.seq hq).trans hp.seq)
    have := j'.isLt
    have hne : j'.val ≠ f.val := fun he => hj' (Fin.ext he)
    omega
  · right
    rw [if_neg hfn] at hq
    have hfn' : f.val + 1 < n := by
      have := f.isLt
      omega
    have hbound := (failoverAct_bound hp.bound hd).2
    rw [failoverAct_query] at hq hbound
    refine ⟨⟨f + 1, hfn'⟩, Fin.mk_lt_mk.mpr (by omega), h.wave ?_ ?_ ?_ ?_⟩
    · intro he
      have := congrArg Fin.val he
      simp at this
    · intro j' hj'
      have hne : j'.val ≠ f.val := fun he => hj' (Fin.ext he)
      rw [Fin.lt_def, Fin.le_def]
      dsimp only
      omega
    · exact ⟨h.valid, (congrArg Query.op hq).trans hw.2⟩
    · refine ⟨h.key, (congrArg Query.seq hq).trans hp.seq,
        (congrArg Query.value hq).trans hp.value, ?_⟩
      rw [hq]
      exact hbound

/-- The next switch works, and the write goes on to it. -/
theorem Relayed.hop (h : Relayed f k i q v t j g) (hjf : j.val + 1 ≠ f.val) (hjn : j.val + 1 < n)
    (hq : g.query = (p.failureRecovery (c.failoverTables f b j)).hdr.query)
    (hw : p.hdr.IsWrite) (hp : c.Passes p.hdr (j + 1) k q v) :
    Wave c f k i q v t ⟨j + 1, hjn⟩ g := by
  rw [failureRecovery_eq, if_neg fun hc => hjf hc.2.1] at hq
  refine h.wave (fun he => hjf (congrArg Fin.val he)) (fun j' _ => ?_)
    (isWrite_of_query hq.symm hw) (hp.congr hq)
  rw [Fin.lt_def, Fin.le_def]
  exact Nat.lt_succ_iff

end Relay

variable (init) in
/-- One more switch stores the write: it is answered there, or it goes on. -/
theorem wave_store (hroute : ∀ j dst spec, c.ipv4Route j dst = some spec → spec ≠ dropPort)
    (hinst : t.installed = true) (hk : c.index k = some i) (hj : j ≠ f) (hkey : g.ncHdr.key = k)
    (hst : Stores (c.tables j) (t.net.switch j) g)
    (hregs : (ingress (c.tables j) (t.net.switch j) g).regs = (t.net.switch j).store i q v)
    (hpass : (beforeRoute (c.tables j) (t.net.switch j) g).hdr.IsWrite →
      c.Passes (beforeRoute (c.tables j) (t.net.switch j) g).hdr (j + 1) k q v)
    (htail : role j = 102#16 → (beforeRoute (c.tables j) (t.net.switch j) g).hdr.query.op = 13#8 ∧
      (beforeRoute (c.tables j) (t.net.switch j) g).hdr.query.seq = q)
    (hbefore : ∀ j', j' ≠ f → j' < j → (t.net.switch j').seq i = q ∧ (t.net.switch j').value i = v)
    (hbehind : ∀ j', j' ≠ f → j < j' → (t.net.switch j').seq i < q) :
    Done f k i q v ((c.surviving f init).next t (.deliver j g)) ∨
      ∃ m g', j < m ∧ Wave c f k i q v ((c.surviving f init).next t (.deliver j g)) m g' := by
  obtain ⟨g', hq, hrelayed⟩ := deliver_relayed init hroute hk hkey hst hregs hbefore hbehind
  by_cases hr : role j = 102#16
  · exact .inl (hrelayed.tail hr hq (htail hr).1 (htail hr).2)
  · have hw := beforeRoute_isWrite_of_ne_tail (t.net.switch j) hst.1 hst.2.1 (hkey ▸ hk) hr
    by_cases hjf : j.val + 1 = f.val
    · rcases hrelayed.detour hjf hinst hq hw (hpass hw) with hdone | ⟨m, hm, hwave⟩
      · exact .inl hdone
      · exact .inr ⟨m, g', hm, hwave⟩
    · have hjn : j.val + 1 < n := by
        have := j.isLt
        have := f.isLt
        have hne : j.val ≠ f.val := fun he => hj (Fin.ext he)
        by_contra hge
        exact hr (role_eq_tail.mpr ⟨by omega, by omega⟩)
      exact .inr ⟨⟨j + 1, hjn⟩, g', Fin.mk_lt_mk.mpr (by omega),
        hrelayed.hop hjf hjn hq hw (hpass hw)⟩

/-- A write on its way is delivered to one working switch after the other. -/
theorem Wave.finish {t₀ : FailNet n}
    (hroute : ∀ j dst spec, c.ipv4Route j dst = some spec → spec ≠ dropPort)
    (hk : c.index k = some i) (d : ℕ) {m : Fin n} (hd : n - m.val ≤ d)
    (hw : Wave c f k i q v t m g) (hm : m ≠ c.head) (hinst : t.installed = true)
    (hst : (c.surviving f init).Steps t₀ t) :
    ∃ t', (c.surviving f init).Steps t₀ t' ∧ Done f k i q v t' := by
  induction d generalizing t m g with
  | zero =>
    have := m.isLt
    omega
  | succ d ih =>
    have hkey := hw.passes.key
    have hki : c.index g.ncHdr.key = some i := hkey ▸ hk
    have hserves : (c.tables m).Serves g := by
      refine ⟨hw.write.1, ?_⟩
      rw [tables_myAddress hki, show g.ipv4.dstAddr = _ from hw.passes.bound.2,
        c.overlayFrom_eq_cons m]
      rfl
    have hlt : (t.net.switch m).seq i < g.ncHdr.seq := by
      rw [hw.passes.seq]
      exact hw.behind m hw.working le_rfl
    have hstores : Stores (c.tables m) (t.net.switch m) g := by
      refine ⟨hserves, hw.write.2, .inr ?_⟩
      rw [tables_index hki]
      exact hlt
    have hen : (c.surviving f init).enabled t (.deliver m g) := ⟨hw.sent, fun he => hw.working he.2⟩
    have hst' := hst.step hen
    rcases beforeRoute_write (t.net.switch m) hserves hw.write.2 hki hw.passes.bound with
      ⟨he, -⟩ | ⟨-, -, hregs, hp⟩ | ⟨-, hle, -⟩
    · exact absurd he hm
    · rw [← ingress_regs, hw.passes.seq, hw.passes.value] at hregs
      rw [hkey, hw.passes.seq, hw.passes.value] at hp
      have htail (hr : role m = 102#16) :
          (beforeRoute (c.tables m) (t.net.switch m) g).hdr.query.op = 13#8 ∧
            (beforeRoute (c.tables m) (t.net.switch m) g).hdr.query.seq = q := by
        rw [← hw.passes.seq]
        exact beforeRoute_write_tail (t.net.switch m) hserves hw.write.2 hki hr
      rcases wave_store init hroute hinst hk hw.working hkey hstores hregs hp htail hw.before
          (fun j' hj' hlt' => hw.behind j' hj' hlt'.le) with hdone | ⟨m', g', hmm, hw'⟩
      · exact ⟨_, hst', hdone⟩
      · have hlt' : m.val < m'.val := hmm
        exact ih (by omega) hw' (fun he => absurd (he ▸ hmm) (Nat.not_lt_zero _)) hinst hst'
    · exact absurd hlt (BitVec.not_lt.mpr hle)

/-- Once the controller has reacted, the chain serves writes again: from every state
that can arise, a client's write can be stored by all working switches and answered. -/
theorem failover_available (c : Chain n) (init : Register 128 regSize) (hf : f ≠ c.head)
    (hroute : ∀ j dst spec, c.ipv4Route j dst = some spec → spec ≠ dropPort)
    (ht : (c.surviving f init).Reachable t) (hinst : t.installed = true) (hk : c.index k = some i)
    (hcount : t.net.writes k + 1 < 65536) (hh : c.IsClientWrite h) (hkey : h.ncHdr.key = k) :
    ∃ t', (c.surviving f init).Steps t t' ∧
      ∃ q, q.toNat = t.net.writes k + 1 ∧
        (∀ j, j ≠ f → (t'.net.switch j).seq i = q ∧ (t'.net.switch j).value i = h.ncHdr.value) ∧
        ∃ g ∈ t'.net.sent, g.ncHdrValid = true ∧ g.ncHdr.op = 13#8 ∧ g.ncHdr.key = k ∧
          g.ncHdr.seq = q := by
  obtain ⟨a, ha, hs⟩ := follows_reachable hf ht hk (by omega)
  have hinv := Replicas.inv_reachable rfl ha
  have hki : c.index h.ncHdr.key = some i := hkey ▸ hk
  set q := (t.net.switch c.head).seq i + 1#16 with hq
  have hnat : ((t.net.switch c.head).seq i).toNat = t.net.writes k := by
    have h1 := hs.1.number c.head
    have h2 := hinv.last
    have h3 := hs.1.length
    omega
  have hqnat : q.toNat = t.net.writes k + 1 := by
    rw [hq]
    bv_omega
  have hall (j : Fin n) : (t.net.switch j).seq i < q := by
    have hle := hinv.sorted (Nat.zero_le j.val : c.head ≤ j) (fun he => hf he.symm)
    rw [hs.1.number, hs.1.number, hnat] at hle
    exact BitVec.lt_def.mpr (by omega)
  set u := (c.surviving f init).next t (.send h) with hu
  have hst : (c.surviving f init).Steps t u := System.Steps.step .refl (fun _ => .inl hh)
  have hserves : (c.tables c.head).Serves h := by
    refine ⟨hh.1.1, ?_⟩
    rw [tables_myAddress hki, show h.ipv4.dstAddr = _ from hh.2.2.2,
      show c.overlayFrom 0 = _ from c.overlayFrom_eq_cons c.head]
    rfl
  have hhead : role c.head = 100#16 := c.role_eq_head.mpr rfl
  have hstores : Stores (c.tables c.head) (u.net.switch c.head) h :=
    ⟨hserves, hh.1.2, .inl ((tables_role hki).trans hhead)⟩
  have hen : (c.surviving f init).enabled u (.deliver c.head h) :=
    ⟨List.mem_cons_self, fun he => hf he.2.symm⟩
  rcases beforeRoute_write (u.net.switch c.head) hserves hh.1.2 hki hh.2.2 with
    ⟨-, hregs, hp⟩ | ⟨he, -⟩ | ⟨he, -⟩
  · rw [← ingress_regs] at hregs
    rw [hkey] at hp
    have htail (hr : role c.head = 102#16) :
        (beforeRoute (c.tables c.head) (u.net.switch c.head) h).hdr.query.op = 13#8 ∧
          (beforeRoute (c.tables c.head) (u.net.switch c.head) h).hdr.query.seq = q := by
      rw [hhead] at hr
      exact absurd hr (by decide)
    have hbefore (j' : Fin n) (_ : j' ≠ f) (hj' : j' < c.head) :
        (u.net.switch j').seq i = q ∧ (u.net.switch j').value i = h.ncHdr.value :=
      absurd hj' (Nat.not_lt_zero j'.val)
    rcases wave_store init hroute (t := u) hinst hk (Ne.symm hf) hkey hstores hregs (fun _ => hp) htail
        hbefore (fun j' _ _ => hall j') with hdone | ⟨m, g, hm, hw⟩
    · exact ⟨_, hst.step hen, q, hqnat, hdone.stored, hdone.answered⟩
    · obtain ⟨t', hst', hdone⟩ := hw.finish hroute hk _ le_rfl (ne_of_gt hm) hinst (hst.step hen)
      exact ⟨t', hst', q, hqnat, hdone.stored, hdone.answered⟩
  · exact absurd rfl he
  · exact absurd rfl he

end Available

end Chain

section

local instance failRun_switches : NeZero 3 := ⟨by decide⟩

theorem lab_route (j : Fin 3) (dst : BitVec 32) (spec : BitVec 9)
    (hs : lab.ipv4Route j dst = some spec) : spec ≠ dropPort := by
  have hmem (l : List (BitVec 32 × BitVec 9)) (hl : l.lookup dst = some spec) :
      spec ∈ l.map Prod.snd := by
    obtain ⟨l₁, l₂, rfl, -⟩ := List.lookup_eq_some_iff.mp hl
    simp
  have h := hmem _ hs
  revert h
  generalize spec = x
  fin_cases j
  all_goals
    intro h he
    subst he
    revert h
    decide

/-- With the middle switch of `lab` failed, `labRequest` can still be stored and answered. -/
theorem failover_available_lab :
    ∃ t t' : FailNet 3, t.failed = true ∧ (lab.surviving 1 (.fill regSize 7#128)).Steps t t' ∧
      ∃ q, q.toNat = 1 ∧
        ∀ j, j ≠ 1 → (t'.net.switch j).seq 0#16 = q ∧ (t'.net.switch j).value 0#16 = 222#128 := by
  have hk : lab.index 2018#128 = some 0#16 := by decide
  have hf : (1 : Fin 3) ≠ lab.head := by decide
  have hr : (lab.surviving 1 (.fill regSize 7#128)).Reachable
      ((lab.surviving 1 (.fill regSize 7#128)).run ⟨labStart, false, false⟩
        [.stopSwitch, .failover]) := .run (.init rfl) ⟨rfl, rfl, trivial⟩
  obtain ⟨t', hst, q, hq, hall, -⟩ := Chain.failover_available lab _ hf lab_route hr rfl hk
    (by decide) (h := labRequest) ⟨by decide, rfl, rfl, rfl⟩ rfl
  exact ⟨_, t', rfl, hst, q, hq, hall⟩

end

end P4Survey.NetChain
