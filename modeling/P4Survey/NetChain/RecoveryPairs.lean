import P4Survey.NetChain.Recovery

/-! # What recovery copies

The registers are read in two passes, so a pair is consistent only if the
copied-from switch does not store a write between the two reads of its index.
Under this condition every pair the backup holds when its group is enabled was
held by the copied-from switch. That nothing else reaches the backup before is
an invariant of the packets in flight: a write addressed to the backup belongs
to an enabled group.
-/

namespace P4Survey.NetChain
open Lib

namespace Plan

variable {n : ℕ} (P : Plan n)

/-- Some group that has been enabled matches the virtual group of a packet. -/
def Enabled (group : ℕ) (vgroup : BitVec 16) : Prop :=
  ∃ g < group, vgroup &&& 255#16 = BitVec.ofNat 16 g &&& 255#16

/-- Overlay and destination of a write bound for position `m`, in place of a failed
switch for the backup once its group is enabled. -/
def Shape (group : ℕ) (vgroup : BitVec 16) (m : Fin n) (x : BitVec 32) : Prop :=
  x = P.chain.ip m ∨ (m = P.failed ∧ x = P.backupIp ∧ Enabled group vgroup)

def Legal (group : ℕ) (q : Query) : Prop :=
  q.vgroup = P.vgroupOf q.key ∧ ∃ (m : Fin n) (x : BitVec 32),
    q.overlay = x :: P.chain.overlayFrom (m + 1) ∧ q.dstAddr = x ∧ P.Shape group q.vgroup m x

structure RuleOk (group : ℕ) (r : Rule) : Prop where
  dstAddr : r.dstAddr = P.chain.ip P.failed
  failover : r.action = .failoverAct → P.failed.val + 1 < n
  recovery : ∀ x, r.action = .failureRecoveryAct x →
    x = P.backupIp ∧ ∃ g < group, r.vgroup = some (BitVec.ofNat 16 g)

variable {P} {group : ℕ} {vgroup : BitVec 16} {m : Fin n} {x : BitVec 32}

theorem Shape.ne_zero (h : P.Shape group vgroup m x) : x ≠ 0#32 := by
  rcases h with rfl | ⟨-, rfl, -⟩
  · exact P.chain.ip_ne_zero m
  · exact P.backupIp_ne_zero

theorem Shape.eq_of_ip {j : Fin n} (h : P.Shape group vgroup m (P.chain.ip j)) : m = j := by
  rcases h with h | ⟨-, h, -⟩
  · exact (P.chain.ip_injective h).symm
  · exact absurd h (P.backupIp_ne j)

theorem Shape.of_backup (h : P.Shape group vgroup m P.backupIp) :
    m = P.failed ∧ Enabled group vgroup := by
  rcases h with h | ⟨hm, -, he⟩
  · exact absurd h.symm (P.backupIp_ne m)
  · exact ⟨hm, he⟩

theorem Legal.mono {group' : ℕ} (hg : group ≤ group') {q : Query} (h : P.Legal group q) :
    P.Legal group' q := by
  obtain ⟨hv, m, x, ho, hd, hs⟩ := h
  refine ⟨hv, m, x, ho, hd, ?_⟩
  rcases hs with hs | ⟨hm, hx, g, hlt, he⟩
  · exact .inl hs
  · exact .inr ⟨hm, hx, g, Nat.lt_of_lt_of_le hlt hg, he⟩

theorem legal_ip {q : Query} (hv : q.vgroup = P.vgroupOf q.key) {j : ℕ} (hj : j < n)
    (ho : q.overlay = P.chain.overlayFrom j)
    (hd : q.dstAddr = (P.chain.overlayFrom j).headD 0#32) : P.Legal group q := by
  have hcons := P.chain.overlayFrom_eq_cons ⟨j, hj⟩
  refine ⟨hv, ⟨j, hj⟩, P.chain.ip ⟨j, hj⟩, ho.trans hcons, ?_, .inl rfl⟩
  rw [hd, show P.chain.overlayFrom j = _ from hcons]
  rfl

theorem lt_of_role_ne (P : Plan n) {j : Fin n} (hj : Chain.role j ≠ 102#16) : j.val + 1 < n := by
  have h2 := P.two_le
  have hlt := j.isLt
  rw [Ne, Chain.role_eq_tail] at hj
  omega

section Tables

variable (P) (s : World n)

theorem tables_genReply (d : Node n) : (P.tables s d).genReply = Chain.genReply := by
  cases d with
  | member j =>
    unfold tables
    dsimp only
    split_ifs <;> rfl
  | backup => rfl

theorem tables_member_address (j : Fin n) (k : BitVec 128) :
    (P.tables s (.member j)).myAddress k = (P.chain.tables j).myAddress k ∧
      (P.tables s (.member j)).role k = (P.chain.tables j).role k ∧
      (P.tables s (.member j)).index k = (P.chain.tables j).index k := by
  unfold tables
  dsimp only
  split_ifs <;> exact ⟨rfl, rfl, rfl⟩

theorem tables_backup_address (k : BitVec 128) :
    (P.tables s .backup).myAddress k = if k ∈ s.addresses then P.backupIp else 0#32 := by
  unfold tables Tables.myAddress
  dsimp only
  split_ifs <;> rfl

theorem tables_backup_role {k : BitVec 128} (hk : k ∈ s.addresses) :
    (P.tables s .backup).role k = Chain.role P.failed := by
  simp [tables, Tables.role, hk]

variable {P s}

/-- A switch that serves a write in flight and is not the tail is not the last one. -/
theorem served_position {d : Node n} {h : Headers} (hs : (P.tables s d).Serves h)
    (hx : P.Shape group vgroup m h.ipv4.dstAddr)
    (hr : (P.tables s d).role h.ncHdr.key ≠ 102#16) : m.val + 1 < n := by
  cases d with
  | member j =>
    obtain ⟨ha, hrole, -⟩ := tables_member_address P s j h.ncHdr.key
    rw [hrole] at hr
    have hs' : (P.chain.tables j).Serves h := ⟨hs.1, hs.2.trans ha⟩
    obtain ⟨i, hk⟩ := Chain.index_isSome_of_serves hs' hx.ne_zero
    rw [Chain.tables_role hk] at hr
    rw [Chain.dst_of_serves hs' hk] at hx
    rw [hx.eq_of_ip]
    exact P.lt_of_role_ne hr
  | backup =>
    have hd := hs.2
    rw [tables_backup_address] at hd
    by_cases hk : h.ncHdr.key ∈ s.addresses
    · rw [if_pos hk] at hd
      rw [tables_backup_role P s hk] at hr
      rw [hd] at hx
      rw [hx.of_backup.1]
      exact P.lt_of_role_ne hr
    · rw [if_neg hk] at hd
      exact absurd hd hx.ne_zero

/-- A write in flight stays one through `failure_recovery`. -/
theorem legal_failureRecovery {d : Node n} (hrules : ∀ r ∈ s.rules, P.RuleOk group r) {p : Pipe}
    (hp : P.Legal group p.hdr.query) (hw : (p.failureRecovery (P.tables s d)).hdr.IsWrite) :
    P.Legal group (p.failureRecovery (P.tables s d)).hdr.query := by
  by_cases hd : d = .member P.neighbor
  · subst hd
    have ht : (P.tables s (.member P.neighbor)).failureRecovery = Rule.actionFor s.rules := by
      simp [tables]
    unfold Pipe.failureRecovery at hw ⊢
    rw [ht, Rule.actionFor] at hw ⊢
    cases hl : Rule.lookup s.rules p.hdr.ipv4.dstAddr p.hdr.ncHdr.vgroup with
    | none => exact hp
    | some r =>
      simp only [hl] at hw ⊢
      obtain ⟨hr, hdst, hmatch⟩ := Rule.lookup_mem hl
      obtain ⟨hrd, hfail, hrec⟩ := hrules r hr
      obtain ⟨hv, m, x, ho, hx, hshape⟩ := hp
      have hm : m = P.failed := by
        rw [← hx, show p.hdr.query.dstAddr = _ from hdst.trans hrd] at hshape
        exact hshape.eq_of_ip
      subst hm
      cases ha : r.action with
      | failoverAct =>
        have hlt := hfail ha
        have hnext : p.hdr.swip 1 = (P.chain.overlayFrom (P.failed + 1)).headD 0#32 := by
          rw [Headers.swip, show p.hdr.overlay = _ from ho]
          cases P.chain.overlayFrom (P.failed + 1) <;> rfl
        simp only [Pipe.failoverAct]
        rw [Pipe.popChainAct_query]
        refine legal_ip hv hlt ?_ hnext
        exact congrArg List.tail ho
      | failoverWriteReplyAct =>
        simp only [ha] at hw
        exact absurd hw (Pipe.genReplyAct_isWrite (by decide))
      | failureRecoveryAct y =>
        obtain ⟨rfl, g, hg, hvg⟩ := hrec y ha
        refine ⟨hv, P.failed, P.backupIp, ?_, rfl, .inr ⟨rfl, rfl, g, hg, hmatch _ hvg⟩⟩
        change p.hdr.overlay.set 0 P.backupIp = _
        rw [show p.hdr.overlay = _ from ho]
        rfl
      | nop => exact ⟨hv, _, x, ho, hx, hshape⟩
      | dropPacketAct => exact ⟨hv, _, x, ho, hx, hshape⟩
  · have ht : ∀ dst next vgroup, (P.tables s d).failureRecovery dst next vgroup = .nop := by
      intro dst next vgroup
      cases d with
      | member j =>
        have hj : j ≠ P.neighbor := fun he => hd (he ▸ rfl)
        simp [tables, hj, Chain.tables]
      | backup => rfl
    rw [Pipe.failureRecovery_nop ht] at hw ⊢
    exact hp

/-- What a switch makes of a write in flight is a write in flight, or no write. -/
theorem Legal.emit {d : Node n} (hrules : ∀ r ∈ s.rules, P.RuleOk group r) {h g : Headers}
    (hh : h.IsWrite → P.Legal group h.query)
    (hg : NetChain.emit (P.tables s d) (regs s d) h = some g) (hw : g.IsWrite) :
    P.Legal group g.query := by
  have hq := emit_query hg
  have hgen := tables_genReply P s d
  have hno : ∀ op, (P.tables s d).genReply op ≠ some 12#8 := by
    intro op
    rw [hgen]
    exact Chain.tables_genReply_ne (c := P.chain) P.failed op
  have hw' := isWrite_of_query hq hw
  have hwh := beforeRoute_isWrite hno hw'
  rw [hq]
  rw [beforeRoute, if_pos hwh.1] at hw' ⊢
  apply legal_failureRecovery hrules ?_ hw'
  obtain ⟨hv, m, x, ho, hd, hx⟩ := hh hwh
  have h13 : (P.tables s d).genReply 12#8 = some 13#8 := by
    rw [hgen]
    rfl
  obtain ⟨hkey, hvg, hcase⟩ := process_write h13 (by decide) ho hd hwh
    (Pipe.failureRecovery_isWrite hw')
  set p := (Pipe.start (regs s d) h).process (P.tables s d)
  have hv' : p.hdr.query.vgroup = P.vgroupOf p.hdr.query.key := by
    change p.hdr.ncHdr.vgroup = P.vgroupOf p.hdr.ncHdr.key
    rw [hkey, hvg]
    exact hv
  rcases hcase with ⟨ho', hd'⟩ | ⟨hs, hr, ho', hd'⟩
  · refine ⟨hv', m, x, ho', hd', ?_⟩
    change P.Shape group p.hdr.ncHdr.vgroup m x
    rw [hvg]
    exact hx
  · rw [← hd] at hx
    exact legal_ip hv' (served_position hs hx hr) ho' hd'

end Tables

theorem group_of_mem {g : ℕ} {k : BitVec 128} (hk : k ∈ P.groupKeys g) :
    (k.toNat - 2018) / P.keysPerGroup = g := by
  have hlt := (List.mem_filter.mp hk).2
  simp only [decide_eq_true_eq] at hlt
  apply Nat.div_eq_of_lt_le
  · omega
  · have hsucc : (g + 1) * P.keysPerGroup = g.succ * P.keysPerGroup := rfl
    omega

theorem vgroupOf_groupKeys {g : ℕ} {k : BitVec 128} (hk : k ∈ P.groupKeys g) :
    P.vgroupOf k = BitVec.ofNat 16 g := by
  rw [vgroupOf, group_of_mem hk]

theorem low_byte {g g' : ℕ} (hg : g < 256) (hg' : g' < 256)
    (he : BitVec.ofNat 16 g &&& 255#16 = BitVec.ofNat 16 g' &&& 255#16) : g = g' := by
  have h := congrArg BitVec.toNat he
  simp only [BitVec.toNat_and, BitVec.toNat_ofNat] at h
  have hm (a : ℕ) (ha : a < 256) : a % 2 ^ 16 &&& 255 % 2 ^ 16 = a := by
    rw [Nat.mod_eq_of_lt (by omega), show 255 % 2 ^ 16 = 2 ^ 8 - 1 from rfl,
      Nat.and_two_pow_sub_one_eq_mod, Nat.mod_eq_of_lt (by omega)]
  rwa [hm g hg, hm g' hg'] at h

theorem exists_key_of_mem {g : ℕ} {i : BitVec 16} (hi : i ∈ P.groupIndices g) :
    ∃ k ∈ P.groupKeys g, P.chain.index k = some i :=
  List.mem_filterMap.mp hi

theorem groupIndices_lt {g : ℕ} {i : BitVec 16} (hi : i ∈ P.groupIndices g) :
    i.toNat < regSize := by
  obtain ⟨k, -, hk⟩ := exists_key_of_mem hi
  exact P.chain.index_lt hk

/-- The pair the controller has for an index is one the copied-from switch has had. -/
def Read (s : World n) (i : BitVec 16) : Prop :=
  ∃ st ∈ s.held, st.seq i = s.ctl.seqs i ∧ st.value i = s.ctl.values i

variable (P)

/-- The controller has read the sequence register of the index and not its value. -/
def HalfRead (s : World n) (i : BitVec 16) : Prop :=
  match s.ctl.phase with
  | .readSeqs l => i ∈ P.groupIndices s.ctl.group ∧ i ∉ l
  | .readValues l => i ∈ l
  | _ => False

instance (s : World n) (i : BitVec 16) : Decidable (P.HalfRead s i) := by
  unfold HalfRead
  split <;> infer_instance

/-- The copied-from switch stores no write at an index that is half read. -/
def NotTorn (s : World n) : RecoveryLabel n → Prop
  | .deliver d h => d = .member P.target → Stores (P.tables s d) (regs s d) h →
      ¬ P.HalfRead s ((P.tables s d).index h.ncHdr.key)
  | _ => True

/-- How far the copying of the current group is. -/
def Copied (s : World n) : Prop :=
  match s.ctl.phase with
  | .disable => True
  | .readSeqs l => ∀ i ∈ P.groupIndices s.ctl.group, i ∉ l →
      s.ctl.seqs i = (s.switch P.target).seq i
  | .readValues l => ∀ i ∈ P.groupIndices s.ctl.group,
      (i ∈ l → s.ctl.seqs i = (s.switch P.target).seq i) ∧ (i ∉ l → Read s i)
  | .addAddresses l => (∀ k ∈ l, k ∈ P.groupKeys s.ctl.group) ∧
      ∀ i ∈ P.groupIndices s.ctl.group, Read s i
  | .addIndices l => (∀ k ∈ P.groupKeys s.ctl.group, k ∉ l → k ∈ s.indices) ∧
      ∀ i ∈ P.groupIndices s.ctl.group, Read s i
  | .writeSeqs l => (∀ k ∈ P.groupKeys s.ctl.group, k ∈ s.indices) ∧
      ∀ i ∈ P.groupIndices s.ctl.group, Read s i ∧ (i ∉ l → s.backup.seq i = s.ctl.seqs i)
  | .writeValues l => (∀ k ∈ P.groupKeys s.ctl.group, k ∈ s.indices) ∧
      ∀ i ∈ P.groupIndices s.ctl.group, Read s i ∧ s.backup.seq i = s.ctl.seqs i ∧
        (i ∉ l → s.backup.value i = s.ctl.values i)
  | .enable => (∀ k ∈ P.groupKeys s.ctl.group, k ∈ s.indices) ∧
      ∀ i ∈ P.groupIndices s.ctl.group, Read s i ∧ s.backup.seq i = s.ctl.seqs i ∧
        s.backup.value i = s.ctl.values i

/-- What holds throughout a recovery without a torn read. -/
structure Inv (s : World n) : Prop where
  rules : ∀ r ∈ s.rules, P.RuleOk s.ctl.group r
  legal : ∀ h ∈ s.sent, h.IsWrite → P.Legal s.ctl.group h.query
  group : s.ctl.phase ≠ .disable → s.ctl.group < P.sizeVgroup
  addresses : ∀ k ∈ s.addresses, ∃ g < P.sizeVgroup, k ∈ P.groupKeys g
  indices : ∀ g < s.ctl.group, ∀ k ∈ P.groupKeys g, k ∈ s.indices
  held : s.switch P.target ∈ s.held
  copied : P.Copied s

variable {P} {s : World n}

/-- The backup stores no write of the group that is being copied. -/
theorem Inv.backup_unchanged (hsize : P.sizeVgroup ≤ 256) (hinv : P.Inv s)
    (hphase : s.ctl.phase ≠ .disable) {h : Headers} (hh : h ∈ s.sent) {i : BitVec 16}
    (hi : i ∈ P.groupIndices s.ctl.group) :
    (ingress (P.tables s .backup) s.backup h).regs.seq i = s.backup.seq i ∧
      (ingress (P.tables s .backup) s.backup h).regs.value i = s.backup.value i := by
  by_cases hst : Stores (P.tables s .backup) s.backup h
  · obtain ⟨hserves, hop, -⟩ := hst
    obtain ⟨hv, m, x, -, hd, hshape⟩ := hinv.legal h hh ⟨hserves.1, hop⟩
    have haddr : h.ipv4.dstAddr = if h.ncHdr.key ∈ s.addresses then P.backupIp else 0#32 :=
      hserves.2.trans (tables_backup_address P s _)
    have hk : h.ncHdr.key ∈ s.addresses := by
      by_contra hk
      rw [if_neg hk] at haddr
      exact hshape.ne_zero (hd.symm.trans haddr)
    rw [if_pos hk] at haddr
    rw [← hd, show h.query.dstAddr = _ from haddr] at hshape
    obtain ⟨-, g, hg, he⟩ := hshape.of_backup
    obtain ⟨g', hg', hkey⟩ := hinv.addresses _ hk
    rw [hv, show h.query.key = h.ncHdr.key from rfl, vgroupOf_groupKeys hkey] at he
    have hlt := hinv.group hphase
    obtain rfl := low_byte (by omega) (by omega) he
    have hidx := hinv.indices g' hg _ hkey
    apply ingress_regs_of_ne
    intro hne
    obtain ⟨k, hkg, hki⟩ := exists_key_of_mem hi
    obtain ⟨i', hi'⟩ := P.keys_index _ (List.mem_filter.mp hkey).1
    have hii : i' = i := by
      rw [← hne]
      simp [Tables.index, tables, hidx, hi']
    subst hii
    have hkk := P.chain.index_injective hki hi'
    subst hkk
    have := (group_of_mem hkg).symm.trans (group_of_mem hkey)
    omega
  · rw [ingress_regs_of_not_stores hst]
    exact ⟨rfl, rfl⟩

/-- The copied-from switch keeps its registers at an index that is half read. -/
theorem target_unchanged {d : Node n} {h : Headers} (hok : P.NotTorn s (.deliver d h))
    (hd : d = .member P.target) {i : BitVec 16} (hi : P.HalfRead s i) :
    (ingress (P.tables s d) (regs s d) h).regs.seq i = (regs s d).seq i := by
  by_cases hst : Stores (P.tables s d) (regs s d) h
  · have hne : (P.tables s d).index h.ncHdr.key ≠ i := by
      intro he
      exact hok hd hst (he ▸ hi)
    exact (ingress_regs_of_ne _ hne).1
  · rw [ingress_regs_of_not_stores hst]

theorem Read.frame {s' : World n} {i : BitVec 16} (hctl : s'.ctl = s.ctl)
    (hheld : ∀ st ∈ s.held, st ∈ s'.held) (h : Read s i) : Read s' i := by
  obtain ⟨st, hst, hseq, hvalue⟩ := h
  rw [Read, hctl]
  exact ⟨st, hheld st hst, hseq, hvalue⟩

/-- What a packet has to leave alone for the copying to stay where it is. -/
theorem Copied.frame {s' : World n} (hctl : s'.ctl = s.ctl) (hindices : s'.indices = s.indices)
    (hheld : ∀ st ∈ s.held, st ∈ s'.held)
    (htarget : ∀ i, P.HalfRead s i → (s'.switch P.target).seq i = (s.switch P.target).seq i)
    (hbackup : s.ctl.phase ≠ .disable → ∀ i ∈ P.groupIndices s.ctl.group,
      s'.backup.seq i = s.backup.seq i ∧ s'.backup.value i = s.backup.value i)
    (h : P.Copied s) : P.Copied s' := by
  have hread (i : BitVec 16) : Read s i → Read s' i := Read.frame hctl hheld
  unfold Copied at h ⊢
  rw [hctl, hindices]
  unfold HalfRead at htarget
  cases hphase : s.ctl.phase with
  | disable => trivial
  | readSeqs l =>
    simp only [hphase] at h htarget ⊢
    intro i hi hl
    rw [htarget i ⟨hi, hl⟩]
    exact h i hi hl
  | readValues l =>
    simp only [hphase] at h htarget ⊢
    intro i hi
    constructor
    · intro hl
      rw [htarget i hl]
      exact (h i hi).1 hl
    · exact fun hl => hread i ((h i hi).2 hl)
  | addAddresses l =>
    simp only [hphase] at h ⊢
    exact ⟨h.1, fun i hi => hread i (h.2 i hi)⟩
  | addIndices l =>
    simp only [hphase] at h ⊢
    exact ⟨h.1, fun i hi => hread i (h.2 i hi)⟩
  | writeSeqs l =>
    simp only [hphase] at h ⊢
    refine ⟨h.1, fun i hi => ?_⟩
    obtain ⟨hseq, -⟩ := hbackup (by simp [hphase]) i hi
    rw [hseq]
    exact ⟨hread i (h.2 i hi).1, (h.2 i hi).2⟩
  | writeValues l =>
    simp only [hphase] at h ⊢
    refine ⟨h.1, fun i hi => ?_⟩
    obtain ⟨hseq, hvalue⟩ := hbackup (by simp [hphase]) i hi
    rw [hseq, hvalue]
    exact ⟨hread i (h.2 i hi).1, (h.2 i hi).2⟩
  | enable =>
    simp only [hphase] at h ⊢
    refine ⟨h.1, fun i hi => ?_⟩
    obtain ⟨hseq, hvalue⟩ := hbackup (by simp [hphase]) i hi
    rw [hseq, hvalue]
    exact ⟨hread i (h.2 i hi).1, (h.2 i hi).2⟩

section Deliver

variable (P s) (d : Node n) (h : Headers)

theorem deliver_frame :
    (P.deliver s d h).ctl = s.ctl ∧ (P.deliver s d h).rules = s.rules ∧
      (P.deliver s d h).addresses = s.addresses ∧ (P.deliver s d h).indices = s.indices := by
  cases d <;> exact ⟨rfl, rfl, rfl, rfl⟩

theorem deliver_switch_self :
    (P.deliver s (.member P.target) h).switch P.target =
      (ingress (P.tables s (.member P.target)) (s.switch P.target) h).regs :=
  Function.update_self ..

variable {d}

theorem deliver_switch_of_ne (hd : d ≠ .member P.target) :
    (P.deliver s d h).switch P.target = s.switch P.target := by
  cases d with
  | member j =>
    have hj : P.target ≠ j := fun he => hd (he ▸ rfl)
    exact Function.update_of_ne hj _ _
  | backup => rfl

theorem deliver_held_of_ne (hd : d ≠ .member P.target) : (P.deliver s d h).held = s.held :=
  if_neg hd

theorem deliver_held_subset : ∀ st ∈ s.held, st ∈ (P.deliver s d h).held := by
  intro st hst
  change st ∈ ite _ _ _
  split
  · exact List.mem_cons_of_mem _ hst
  · exact hst

end Deliver

theorem Inv.deliver (hsize : P.sizeVgroup ≤ 256) (hinv : P.Inv s) {d : Node n} {h : Headers}
    (hh : h ∈ s.sent) (hok : P.NotTorn s (.deliver d h)) : P.Inv (P.deliver s d h) := by
  obtain ⟨hctl, hrules, haddr, hidx⟩ := deliver_frame P s d h
  have hcopied : P.Copied (P.deliver s d h) := by
    apply Copied.frame hctl hidx (deliver_held_subset P s h) ?_ ?_ hinv.copied
    · intro i hi
      by_cases hd : d = .member P.target
      · have hseq := target_unchanged hok hd hi
        subst hd
        rw [deliver_switch_self]
        exact hseq
      · rw [deliver_switch_of_ne P s h hd]
    · intro hphase i hi
      cases d with
      | member j => exact ⟨rfl, rfl⟩
      | backup => exact hinv.backup_unchanged hsize hphase hh hi
  have hheld : (P.deliver s d h).switch P.target ∈ (P.deliver s d h).held := by
    by_cases hd : d = .member P.target
    · subst hd
      rw [deliver_switch_self]
      change _ ∈ ite _ _ _
      rw [if_pos rfl]
      exact List.mem_cons_self
    · rw [deliver_switch_of_ne P s h hd, deliver_held_of_ne P s h hd]
      exact hinv.held
  constructor
  · rw [hctl, hrules]
    exact hinv.rules
  · intro g hg hw
    rw [hctl]
    change g ∈ _ ++ s.sent at hg
    rcases List.mem_append.mp hg with hg | hg
    · exact Legal.emit hinv.rules (hinv.legal h hh) (Option.mem_toList.mp hg) hw
    · exact hinv.legal g hg hw
  · rw [hctl]
    exact hinv.group
  · rw [haddr]
    exact hinv.addresses
  · rw [hctl, hidx]
    exact hinv.indices
  · exact hheld
  · exact hcopied

theorem Inv.send (hinv : P.Inv s) {h : Headers} (hh : h.IsWrite → P.IsInFlight h) :
    P.Inv { s with sent := h :: s.sent } := by
  refine ⟨hinv.rules, ?_, hinv.group, hinv.addresses, hinv.indices, hinv.held, hinv.copied⟩
  intro g hg hw
  rcases List.mem_cons.mp hg with rfl | hg
  · obtain ⟨hv, m, hm, ho, hd⟩ := hh hw
    exact legal_ip hv hm ho hd
  · exact hinv.legal g hg hw

theorem RuleOk.mono {group' : ℕ} (hg : group ≤ group') {r : Rule} (h : P.RuleOk group r) :
    P.RuleOk group' r := by
  refine ⟨h.dstAddr, h.failover, fun x hx => ?_⟩
  obtain ⟨hb, g, hlt, hv⟩ := h.recovery x hx
  exact ⟨hb, g, Nat.lt_of_lt_of_le hlt hg, hv⟩

/-- A command that concerns the group in progress and adds no rule. -/
theorem Inv.command (hinv : P.Inv s) {ctl : Controller} {backup : Switch}
    {addresses indices : List (BitVec 128)} (hg : ctl.group = s.ctl.group)
    (hphase : s.ctl.phase ≠ .disable)
    (haddr : ∀ k ∈ addresses, k ∈ s.addresses ∨ k ∈ P.groupKeys s.ctl.group)
    (hidx : ∀ k ∈ s.indices, k ∈ indices)
    (hcopied : P.Copied { s with
      ctl := ctl, backup := backup, addresses := addresses, indices := indices }) :
    P.Inv { s with ctl := ctl, backup := backup, addresses := addresses, indices := indices } := by
  have hlt := hinv.group hphase
  constructor
  · dsimp only
    rw [hg]
    exact hinv.rules
  · dsimp only
    rw [hg]
    exact hinv.legal
  · intro _
    dsimp only
    rwa [hg]
  · intro k hk
    rcases haddr k hk with hk | hk
    · exact hinv.addresses k hk
    · exact ⟨s.ctl.group, hlt, hk⟩
  · dsimp only
    rw [hg]
    exact fun g hlt k hk => hidx k (hinv.indices g hlt k hk)
  · exact hinv.held
  · exact hcopied

section Control

variable (hinv : P.Inv s)
include hinv

theorem Inv.control_disable (hphase : s.ctl.phase = .disable) : P.Inv (P.control s) := by
  unfold Plan.control
  simp only [hphase]
  split_ifs with hg
  · constructor
    · intro r hr
      rcases List.mem_cons.mp hr with rfl | hr
      · exact ⟨rfl, fun h => absurd h (by simp [disableRule]),
          fun x h => absurd h (by simp [disableRule])⟩
      · exact hinv.rules r hr
    · exact hinv.legal
    · exact fun _ => hg
    · exact hinv.addresses
    · exact hinv.indices
    · exact hinv.held
    · exact fun i hi hl => absurd hi hl
  · exact hinv

theorem Inv.control_readSeqs {l : List (BitVec 16)} (hphase : s.ctl.phase = .readSeqs l) :
    P.Inv (P.control s) := by
  have hcopied := hinv.copied
  unfold Copied at hcopied
  unfold Plan.control
  cases l with
  | nil =>
    simp only [hphase] at hcopied ⊢
    refine hinv.command (by rfl) (by simp [hphase]) (fun _ => .inl) (fun _ => id) ?_
    exact fun i hi => ⟨fun _ => hcopied i hi (List.not_mem_nil), fun hl => absurd hi hl⟩
  | cons a l =>
    simp only [hphase] at hcopied ⊢
    refine hinv.command (by rfl) (by simp [hphase]) (fun _ => .inl) (fun _ => id) ?_
    intro i hi hl
    dsimp only
    by_cases ha : i = a
    · subst ha
      rw [Function.update_self]
    · rw [Function.update_of_ne ha]
      exact hcopied i hi (by simp [ha, hl])

theorem Inv.control_readValues {l : List (BitVec 16)} (hphase : s.ctl.phase = .readValues l) :
    P.Inv (P.control s) := by
  have hcopied := hinv.copied
  unfold Copied at hcopied
  unfold Plan.control
  cases l with
  | nil =>
    simp only [hphase] at hcopied ⊢
    refine hinv.command (by rfl) (by simp [hphase]) (fun _ => .inl) (fun _ => id) ?_
    exact ⟨fun _ => id, fun i hi => (hcopied i hi).2 List.not_mem_nil⟩
  | cons a l =>
    simp only [hphase] at hcopied ⊢
    refine hinv.command (by rfl) (by simp [hphase]) (fun _ => .inl) (fun _ => id) ?_
    intro i hi
    obtain ⟨hseq, hread⟩ := hcopied i hi
    refine ⟨fun hl => hseq (List.mem_cons_of_mem _ hl), fun hl => ?_⟩
    by_cases ha : i = a
    · subst ha
      refine ⟨s.switch P.target, hinv.held, (hseq List.mem_cons_self).symm, ?_⟩
      dsimp only
      rw [Function.update_self]
    · obtain ⟨st, hst, hs, hv⟩ := hread (by simp [ha, hl])
      refine ⟨st, hst, hs, ?_⟩
      dsimp only
      rw [Function.update_of_ne ha]
      exact hv

theorem Inv.control_addAddresses {l : List (BitVec 128)}
    (hphase : s.ctl.phase = .addAddresses l) : P.Inv (P.control s) := by
  have hcopied := hinv.copied
  unfold Copied at hcopied
  unfold Plan.control
  cases l with
  | nil =>
    simp only [hphase] at hcopied ⊢
    refine hinv.command (by rfl) (by simp [hphase]) (fun _ => .inl) (fun _ => id) ?_
    exact ⟨fun k hk hl => absurd hk hl, hcopied.2⟩
  | cons a l =>
    simp only [hphase] at hcopied ⊢
    refine hinv.command (by rfl) (by simp [hphase]) ?_ (fun _ => id) ?_
    · intro k hk
      rcases List.mem_cons.mp hk with rfl | hk
      · exact .inr (hcopied.1 _ List.mem_cons_self)
      · exact .inl hk
    · exact ⟨fun k hk => hcopied.1 k (List.mem_cons_of_mem _ hk), hcopied.2⟩

theorem Inv.control_addIndices {l : List (BitVec 128)}
    (hphase : s.ctl.phase = .addIndices l) : P.Inv (P.control s) := by
  have hcopied := hinv.copied
  unfold Copied at hcopied
  unfold Plan.control
  cases l with
  | nil =>
    simp only [hphase] at hcopied ⊢
    refine hinv.command (by rfl) (by simp [hphase]) (fun _ => .inl) (fun _ => id) ?_
    exact ⟨fun k hk => hcopied.1 k hk List.not_mem_nil,
      fun i hi => ⟨hcopied.2 i hi, fun hl => absurd hi hl⟩⟩
  | cons a l =>
    simp only [hphase] at hcopied ⊢
    refine hinv.command (by rfl) (by simp [hphase]) (fun _ => .inl)
      (fun _ => List.mem_cons_of_mem _) ?_
    refine ⟨fun k hk hl => ?_, hcopied.2⟩
    by_cases ha : k = a
    · subst ha
      exact List.mem_cons_self
    · exact List.mem_cons_of_mem _ (hcopied.1 k hk (by simp [ha, hl]))

theorem Inv.control_writeSeqs {l : List (BitVec 16)} (hphase : s.ctl.phase = .writeSeqs l) :
    P.Inv (P.control s) := by
  have hcopied := hinv.copied
  unfold Copied at hcopied
  unfold Plan.control
  cases l with
  | nil =>
    simp only [hphase] at hcopied ⊢
    refine hinv.command (by rfl) (by simp [hphase]) (fun _ => .inl) (fun _ => id) ?_
    refine ⟨hcopied.1, fun i hi => ?_⟩
    obtain ⟨hread, hseq⟩ := hcopied.2 i hi
    exact ⟨hread, hseq List.not_mem_nil, fun hl => absurd hi hl⟩
  | cons a l =>
    simp only [hphase] at hcopied ⊢
    refine hinv.command (by rfl) (by simp [hphase]) (fun _ => .inl) (fun _ => id) ?_
    refine ⟨hcopied.1, fun i hi => ?_⟩
    obtain ⟨hread, hseq⟩ := hcopied.2 i hi
    refine ⟨hread, fun hl => ?_⟩
    by_cases ha : i = a
    · subst ha
      exact Register.read_write_self _ (groupIndices_lt hi) _
    · have hne : a.toNat ≠ i.toNat := fun he => ha (BitVec.toNat_inj.mp he.symm)
      exact (Register.read_write_of_ne _ hne _).trans (hseq (by simp [ha, hl]))

theorem Inv.control_writeValues {l : List (BitVec 16)} (hphase : s.ctl.phase = .writeValues l) :
    P.Inv (P.control s) := by
  have hcopied := hinv.copied
  unfold Copied at hcopied
  unfold Plan.control
  cases l with
  | nil =>
    simp only [hphase] at hcopied ⊢
    refine hinv.command (by rfl) (by simp [hphase]) (fun _ => .inl) (fun _ => id) ?_
    refine ⟨hcopied.1, fun i hi => ?_⟩
    obtain ⟨hread, hseq, hvalue⟩ := hcopied.2 i hi
    exact ⟨hread, hseq, hvalue List.not_mem_nil⟩
  | cons a l =>
    simp only [hphase] at hcopied ⊢
    refine hinv.command (by rfl) (by simp [hphase]) (fun _ => .inl) (fun _ => id) ?_
    refine ⟨hcopied.1, fun i hi => ?_⟩
    obtain ⟨hread, hseq, hvalue⟩ := hcopied.2 i hi
    refine ⟨hread, hseq, fun hl => ?_⟩
    by_cases ha : i = a
    · subst ha
      exact Register.read_write_self _ (groupIndices_lt hi) _
    · have hne : a.toNat ≠ i.toNat := fun he => ha (BitVec.toNat_inj.mp he.symm)
      exact (Register.read_write_of_ne _ hne _).trans (hvalue (by simp [ha, hl]))

theorem Inv.control_enable (hphase : s.ctl.phase = .enable) : P.Inv (P.control s) := by
  have hcopied := hinv.copied
  unfold Copied at hcopied
  unfold Plan.control
  simp only [hphase] at hcopied ⊢
  constructor
  · intro r hr
    rcases List.mem_cons.mp hr with rfl | hr
    · refine ⟨rfl, fun h => absurd h (by simp [enableRule]), fun x hx => ?_⟩
      exact ⟨(RecoveryAction.failureRecoveryAct.inj hx).symm, s.ctl.group, Nat.lt_succ_self _, rfl⟩
    · exact (hinv.rules r hr).mono (Nat.le_succ _)
  · exact fun h hh hw => (hinv.legal h hh hw).mono (Nat.le_succ _)
  · exact fun h => absurd rfl h
  · exact hinv.addresses
  · intro g hg k hk
    rcases Nat.lt_succ_iff_lt_or_eq.mp hg with hg | rfl
    · exact hinv.indices g hg k hk
    · exact hcopied.1 k hk
  · exact hinv.held
  · trivial

theorem Inv.control : P.Inv (P.control s) := by
  cases hphase : s.ctl.phase with
  | disable => exact hinv.control_disable hphase
  | readSeqs l => exact hinv.control_readSeqs hphase
  | readValues l => exact hinv.control_readValues hphase
  | addAddresses l => exact hinv.control_addAddresses hphase
  | addIndices l => exact hinv.control_addIndices hphase
  | writeSeqs l => exact hinv.control_writeSeqs hphase
  | writeValues l => exact hinv.control_writeValues hphase
  | enable => exact hinv.control_enable hphase

end Control

theorem Inv.init (h : P.recovery.init s) : P.Inv s := by
  obtain ⟨hrules, haddr, hidx, hgroup, hphase, hsent, hheld⟩ := h
  constructor
  · intro r hr
    rw [hrules, failoverRules] at hr
    split_ifs at hr with h0 hlast
    · exact absurd hr List.not_mem_nil
    · obtain rfl := List.mem_singleton.mp hr
      exact ⟨rfl, fun h => absurd h (by simp), fun x h => absurd h (by simp)⟩
    · obtain rfl := List.mem_singleton.mp hr
      have hlt := P.failed.isLt
      exact ⟨rfl, fun _ => by omega, fun x h => absurd h (by simp)⟩
  · intro h hh hw
    obtain ⟨hv, m, hm, ho, hd⟩ := hsent h hh hw
    exact legal_ip hv hm ho hd
  · exact fun h => absurd hphase h
  · simp [haddr]
  · simp [hgroup]
  · simp [hheld]
  · unfold Copied
    simp only [hphase]

theorem inv_of_reachable (hsize : P.sizeVgroup ≤ 256)
    (h : (P.recovery.restrict P.NotTorn).Reachable s) : P.Inv s := by
  apply h.invariant
  · exact fun s hs => Inv.init hs
  · intro s a _ hinv he
    cases a with
    | control => exact hinv.control
    | send h => exact hinv.send fun hw => (he.1 hw).2
    | deliver d h => exact hinv.deliver hsize he.1.1 he.2

/-- Without a torn read, every pair of the backup at the moment its group is enabled
is one that the copied-from switch held. -/
theorem copied_consistent (hsize : P.sizeVgroup ≤ 256)
    (h : (P.recovery.restrict P.NotTorn).Reachable s) (hphase : s.ctl.phase = .enable)
    {k : BitVec 128} (hk : k ∈ P.groupKeys s.ctl.group) {i : BitVec 16}
    (hi : P.chain.index k = some i) :
    ∃ st ∈ s.held, s.backup.seq i = st.seq i ∧ s.backup.value i = st.value i := by
  have hcopied := (inv_of_reachable hsize h).copied
  unfold Copied at hcopied
  simp only [hphase] at hcopied
  have hmem : i ∈ P.groupIndices s.ctl.group := List.mem_filterMap.mpr ⟨k, hk, hi⟩
  obtain ⟨⟨st, hst, hs, hv⟩, hseq, hvalue⟩ := hcopied.2 i hmem
  exact ⟨st, hst, hseq.trans hs.symm, hvalue.trans hv.symm⟩

end Plan

section

local instance labPlan_switches : NeZero 3 := ⟨by decide⟩

/-- Recovery of the second switch of `lab` with one virtual group for each key. -/
def labPlan : Plan 3 where
  chain := lab
  two_le := by decide
  failed := 1
  backupIp := 0x0a006404#32
  backupIp_ne_zero := by decide
  backupIp_ne := by decide
  backupRoute dst := if dst = 0x0a006403#32 then some 1#9 else none
  backupSetMac _ := none
  keys := (List.range 120).map fun j => BitVec.ofNat 128 (2018 + j)
  keys_index := by
    intro k hk
    obtain ⟨j, hj, rfl⟩ := List.mem_map.mp hk
    have hlt := List.mem_range.mp hj
    refine ⟨BitVec.ofNat 16 j, ?_⟩
    have hnat : (BitVec.ofNat 128 (2018 + j)).toNat = 2018 + j := by
      rw [BitVec.toNat_ofNat]
      omega
    change ite _ _ _ = _
    rw [hnat, if_pos (by omega), Nat.add_sub_cancel_left]
  numKv := 120
  sizeVgroup := 120

end

/-- The first write to key 2018, sent on by the second switch before it failed. -/
def labInFlight : Headers :=
  { labRequest with
    ipv4 := { labRequest.ipv4 with dstAddr := 0x0a006403#32 }
    overlay := [0x0a006403#32, 0#32]
    ncHdr := { labRequest.ncHdr with seq := 1#16 } }

def labFailed : World 3 where
  switch _ := ⟨.fill regSize 0#16, .fill regSize 0#128⟩
  backup := ⟨.fill regSize 0#16, .fill regSize 0#128⟩
  rules := labPlan.failoverRules
  addresses := []
  indices := []
  ctl := ⟨0, .disable, fun _ => 0#16, fun _ => 0#128⟩
  sent := [labInFlight]
  held := [⟨.fill regSize 0#16, .fill regSize 0#128⟩]

theorem labFailed_init : labPlan.recovery.init labFailed := by
  refine ⟨rfl, rfl, rfl, rfl, rfl, ?_, rfl⟩
  intro h hh _
  obtain rfl := List.mem_singleton.mp hh
  exact ⟨by decide, 2, by decide, rfl, rfl⟩

section

attribute [local instance] labPlan_switches

/-- The write reaches the copied-from switch after `m` commands of the controller. -/
def labCopy (m : ℕ) : List (RecoveryLabel 3) :=
  List.replicate m .control ++ .deliver (.member 2) labInFlight ::
    List.replicate (13 - m) .control

end

theorem labCopy_reachable (ok : World 3 → RecoveryLabel 3 → Prop) (hcontrol : ∀ s, ok s .control)
    {m : ℕ} (hsent : labInFlight ∈ (labPlan.recovery.run labFailed (List.replicate m .control)).sent)
    (hm : ok (labPlan.recovery.run labFailed (List.replicate m .control))
      (.deliver (.member 2) labInFlight)) :
    (labPlan.recovery.restrict ok).Reachable (labPlan.recovery.run labFailed (labCopy m)) := by
  have he (s : World 3) : (labPlan.recovery.restrict ok).enabled s .control :=
    ⟨trivial, hcontrol s⟩
  have hinit : (labPlan.recovery.restrict ok).Reachable labFailed := .init labFailed_init
  rw [← System.run_restrict ok]
  apply hinit.run
  refine System.allowed_append.mpr ⟨System.allowed_replicate he m _, ?_,
    System.allowed_replicate he _ _⟩
  rw [System.run_restrict]
  exact ⟨⟨hsent, by decide⟩, hm⟩

/-- A write that lands after the group is read leaves the backup an older pair. -/
theorem copied_consistent_lab :
    ∃ s : World 3, (labPlan.recovery.restrict labPlan.NotTorn).Reachable s ∧
      s.ctl.phase = .enable ∧ 2018#128 ∈ labPlan.groupKeys s.ctl.group ∧
      (s.switch labPlan.target).seq 0#16 = 1#16 ∧
      ∃ st ∈ s.held, s.backup.seq 0#16 = st.seq 0#16 ∧ s.backup.value 0#16 = st.value 0#16 := by
  have hs := labCopy_reachable labPlan.NotTorn (fun _ => trivial) (m := 4)
    (by exact List.mem_cons_self) fun _ _ => by decide
  exact ⟨_, hs, by decide, by decide, by decide,
    Plan.copied_consistent (by decide) hs (by decide) (k := 2018#128) (by decide) (by decide)⟩

/-- A write that lands between the two reads leaves the backup sequence number 0 with
the value 222, which the copied-from switch only had under sequence number 1. -/
theorem lab_copy_torn :
    ∃ s : World 3, labPlan.recovery.Reachable s ∧ s.ctl.phase = .enable ∧
      2018#128 ∈ labPlan.groupKeys s.ctl.group ∧ lab.index 2018#128 = some 0#16 ∧
      ¬ ∃ st ∈ s.held, s.backup.seq 0#16 = st.seq 0#16 ∧ s.backup.value 0#16 = st.value 0#16 := by
  have hs := labCopy_reachable (fun _ _ => True) (fun _ => trivial) (m := 2)
    (by exact List.mem_cons_self) trivial
  refine ⟨_, hs.of_restrict, by decide, by decide, by decide, ?_⟩
  decide

end P4Survey.NetChain
