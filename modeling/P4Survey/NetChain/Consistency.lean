import P4Survey.Lib.System
import P4Survey.NetChain.Write

/-! # Consistency along the chain

Switches of one chain behind links that lose, duplicate and reorder packets:
what was sent once can be delivered to any switch any number of times. Writes
are numbered by the head only, and a write in transit is never newer than what
the switches it has passed already store.
-/

namespace P4Survey.NetChain
open Lib

/-- One write that the head processed, as its registers held it afterwards. -/
structure HeadWrite where
  key : BitVec 128
  seq : BitVec 16
  value : BitVec 128
  deriving DecidableEq

structure Net (n : ℕ) where
  switch : Fin n → Switch
  sent : List Headers
  log : List HeadWrite

inductive Label (n : ℕ) where
  | send (h : Headers)
  | deliver (j : Fin n) (h : Headers)

/-- The number of writes to the key that the head has processed. -/
def Net.writes {n : ℕ} (s : Net n) (k : BitVec 128) : ℕ := s.log.countP fun w => w.key = k

namespace Chain

variable {n : ℕ} (c : Chain n)

/-- The writes the head has processed after it received `h`. -/
def headLog (j : Fin n) (regs : Switch) (h : Headers) (log : List HeadWrite) : List HeadWrite :=
  if j = c.head ∧ (c.tables j).Serves h ∧ h.ncHdr.op = 12#8 then
    let i := (c.tables j).index h.ncHdr.key
    ⟨h.ncHdr.key, regs.seq i, regs.value i⟩ :: log
  else log

def deliver (s : Net n) (j : Fin n) (h : Headers) : Net n :=
  let regs := (ingress (c.tables j) (s.switch j) h).regs
  { switch := Function.update s.switch j regs
    sent := (emit (c.tables j) (s.switch j) h).toList ++ s.sent
    log := c.headLog j regs h s.log }

/-- Sequence registers at zero, equal value registers; clients send writes only as
`IsClientWrite` says and other packets at will. -/
def replication (init : Register 128 regSize) : System (Net n) (Label n) where
  init s := s = ⟨fun _ => ⟨.fill regSize 0#16, init⟩, [], []⟩
  enabled
    | _, .send h => h.IsWrite → c.IsClientWrite h
    | s, .deliver _ h => h ∈ s.sent
  next
    | s, .send h => { s with sent := h :: s.sent }
    | s, .deliver j h => c.deliver s j h

/-- Every write in flight is on its way to some position, under a known key once
the head has numbered it. -/
def Sound (s : Net n) : Prop :=
  ∀ h ∈ s.sent, h.IsWrite →
    ∃ m, c.Bound m h.query ∧ (m = 0 ∨ ∃ i, c.index h.ncHdr.key = some i)

/-- A write of the key in flight: bound for the head, or numbered by it and not
newer than what the switches before its destination store. -/
def Transit (k : BitVec 128) (i : BitVec 16) (s : Net n) (q : Query) : Prop :=
  ∃ m, c.Bound m q ∧ (m = 0 ∨ (⟨k, q.seq, q.value⟩ ∈ s.log ∧
    ∀ j : Fin n, j.val < m → q.seq ≤ (s.switch j).seq i))

/-- What holds of one key as long as the head's counter has not wrapped. -/
structure Inv (init : Register 128 regSize) (k : BitVec 128) (i : BitVec 16) (s : Net n) :
    Prop where
  headSeq : ((s.switch c.head).seq i).toNat = s.writes k
  logged : ∀ w ∈ s.log, w.key = k → 0 < w.seq.toNat ∧ w.seq.toNat ≤ s.writes k
  unique : ∀ w ∈ s.log, ∀ w' ∈ s.log, w.key = k → w'.key = k → w.seq = w'.seq →
    w.value = w'.value
  stored : ∀ j, if (s.switch j).seq i = 0#16 then (s.switch j).value i = init.read i.toNat
    else ⟨k, (s.switch j).seq i, (s.switch j).value i⟩ ∈ s.log
  sorted : ∀ j j' : Fin n, j ≤ j' → (s.switch j').seq i ≤ (s.switch j).seq i
  transit : ∀ h ∈ s.sent, h.IsWrite → h.ncHdr.key = k → c.Transit k i s h.query

/-- A step that keeps the invariant of a key and lowers no sequence register of it. -/
def Advances (init : Register 128 regSize) (k : BitVec 128) (i : BitVec 16) (s s' : Net n) :
    Prop :=
  c.Inv init k i s' ∧ ∀ j, (s.switch j).seq i ≤ (s'.switch j).seq i

variable {c}

theorem mem_emit {j : Fin n} {s : Net n} {h g : Headers}
    (hg : g ∈ (emit (c.tables j) (s.switch j) h).toList) :
    g.query = (beforeRoute (c.tables j) (s.switch j) h).hdr.query :=
  emit_query (Option.mem_toList.mp hg)

/-- A served write in flight has a known key and is where it was bound for. -/
theorem Sound.served {s : Net n} (hs : c.Sound s) {j : Fin n} {h : Headers} (hh : h ∈ s.sent)
    (hserves : (c.tables j).Serves h) (hop : h.ncHdr.op = 12#8) :
    ∃ i, c.index h.ncHdr.key = some i ∧ c.Bound j h.query := by
  obtain ⟨m, hb, hm⟩ := hs h hh ⟨hserves.1, hop⟩
  have hkey : ∃ i, c.index h.ncHdr.key = some i := by
    rcases hm with rfl | hm
    · exact hb.index_isSome hserves
    · exact hm
  obtain ⟨i, hk⟩ := hkey
  obtain rfl := hb.eq_of_serves hserves hk
  exact ⟨i, hk, hb⟩

theorem Sound.deliver {s : Net n} (hs : c.Sound s) {j : Fin n} {h : Headers} (hh : h ∈ s.sent) :
    c.Sound (c.deliver s j h) := by
  intro g hg hw
  rcases List.mem_append.mp hg with hg | hg
  · have hq := mem_emit hg
    have hw' := isWrite_of_query hq hw
    have hwh := beforeRoute_isWrite (tables_genReply_ne j) hw'
    have hkey : g.ncHdr.key = (beforeRoute (c.tables j) (s.switch j) h).hdr.ncHdr.key :=
      congrArg Query.key hq
    by_cases hserves : (c.tables j).Serves h
    · obtain ⟨i, hk, hb⟩ := hs.served hh hserves hwh.2
      rw [hq, hkey]
      rcases beforeRoute_write (s.switch j) hserves hwh.2 hk hb with
        ⟨-, -, hp⟩ | ⟨-, -, -, hp⟩ | ⟨-, -, -, hp⟩
      · exact ⟨_, hp.bound, .inr ⟨i, by rw [hp.key, hk]⟩⟩
      · exact ⟨_, (hp hw').bound, .inr ⟨i, by rw [(hp hw').key, hk]⟩⟩
      · exact ⟨_, (hp hw').bound, .inr ⟨i, by rw [(hp hw').key, hk]⟩⟩
    · rw [beforeRoute_tables_not_serves hserves] at hq hkey
      rw [hq, hkey]
      exact hs h hh hwh
  · exact hs g hg hw

section Step

variable {init : Register 128 regSize} {k : BitVec 128} {i : BitVec 16} {s : Net n} {j : Fin n}
  {h : Headers}

theorem Transit.mono {s' : Net n} {q : Query} (hlog : s.log ⊆ s'.log)
    (hseq : ∀ j, (s.switch j).seq i ≤ (s'.switch j).seq i) (hq : c.Transit k i s q) :
    c.Transit k i s' q := by
  obtain ⟨m, hb, hm⟩ := hq
  refine ⟨m, hb, ?_⟩
  rcases hm with rfl | ⟨hmem, hle⟩
  · exact .inl rfl
  · exact .inr ⟨hlog hmem, fun j hj => BitVec.le_trans (hle j hj) (hseq j)⟩

/-- At its destination, past the head, a write in flight was numbered by the head. -/
theorem Transit.logged (hq : c.Transit k i s h.query) (hserves : (c.tables j).Serves h)
    (hk : c.index h.ncHdr.key = some i) (hj : j ≠ c.head) :
    ⟨k, h.ncHdr.seq, h.ncHdr.value⟩ ∈ s.log ∧
      ∀ j' : Fin n, j' < j → h.ncHdr.seq ≤ (s.switch j').seq i := by
  obtain ⟨m, hb, hm⟩ := hq
  obtain rfl := hb.eq_of_serves hserves hk
  rcases hm with hm | hm
  · exact absurd (Fin.ext hm) hj
  · exact hm

theorem deliver_switch (s : Net n) (j j' : Fin n) (h : Headers) :
    (c.deliver s j h).switch j' =
      if j' = j then (ingress (c.tables j) (s.switch j) h).regs else s.switch j' := by
  simp [deliver, Function.update_apply]

/-- A delivery that leaves the registers and the log of the key alone. -/
theorem Inv.quiet (hs : c.Inv init k i s)
    (hseq : (ingress (c.tables j) (s.switch j) h).regs.seq i = (s.switch j).seq i)
    (hvalue : (ingress (c.tables j) (s.switch j) h).regs.value i = (s.switch j).value i)
    (hlog : ∀ w : HeadWrite, w.key = k → (w ∈ (c.deliver s j h).log ↔ w ∈ s.log))
    (hwrites : (c.deliver s j h).writes k = s.writes k)
    (hnew : ∀ g ∈ (emit (c.tables j) (s.switch j) h).toList, g.IsWrite → g.ncHdr.key = k →
      c.Transit k i s g.query) : c.Advances init k i s (c.deliver s j h) := by
  have hs' (j' : Fin n) : ((c.deliver s j h).switch j').seq i = (s.switch j').seq i := by
    rw [deliver_switch]
    split_ifs with he
    · rw [hseq, he]
    · rfl
  have hv' (j' : Fin n) : ((c.deliver s j h).switch j').value i = (s.switch j').value i := by
    rw [deliver_switch]
    split_ifs with he
    · rw [hvalue, he]
    · rfl
  have htransit {q : Query} (hq : c.Transit k i s q) : c.Transit k i (c.deliver s j h) q := by
    obtain ⟨m, hb, hm⟩ := hq
    refine ⟨m, hb, ?_⟩
    simpa only [hs', hlog ⟨k, q.seq, q.value⟩ rfl] using hm
  refine ⟨?_, fun j' => BitVec.le_of_eq (hs' j').symm⟩
  constructor
  · rw [hs', hwrites]
    exact hs.headSeq
  · intro w hw hk
    rw [hwrites]
    exact hs.logged w ((hlog w hk).mp hw) hk
  · intro w hw w' hw' hk hk'
    exact hs.unique w ((hlog w hk).mp hw) w' ((hlog w' hk').mp hw') hk hk'
  · intro j'
    rw [hs', hv', hlog _ rfl]
    exact hs.stored j'
  · intro j₁ j₂ hle
    rw [hs', hs']
    exact hs.sorted j₁ j₂ hle
  · intro g hg hw hk
    rcases List.mem_append.mp hg with hg | hg
    · exact htransit (hnew g hg hw hk)
    · exact htransit (hs.transit g hg hw hk)

theorem headLog_of_ne (hj : j ≠ c.head) (regs : Switch) (log : List HeadWrite) :
    c.headLog j regs h log = log := by
  simp [headLog, hj]

theorem headLog_of_key_ne (hk : h.ncHdr.key ≠ k) (regs : Switch) (log : List HeadWrite) :
    (∀ w : HeadWrite, w.key = k → (w ∈ c.headLog j regs h log ↔ w ∈ log)) ∧
      (c.headLog j regs h log).countP (fun w => w.key = k) =
        log.countP fun w => w.key = k := by
  unfold headLog
  split_ifs
  · refine ⟨fun w hw => ?_, ?_⟩
    · rw [List.mem_cons, or_iff_right]
      rintro rfl
      exact hk hw
    · rw [List.countP_cons_of_neg (by simpa using hk)]
  · exact ⟨fun w _ => Iff.rfl, rfl⟩

/-- A write that the switches before its destination have stored. -/
theorem transit_of_passes {g : Headers} {m : ℕ} {q : BitVec 16} {v : BitVec 128}
    (hp : c.Passes g m k q v) (hmem : ⟨k, q, v⟩ ∈ s.log)
    (hle : ∀ j : Fin n, j.val < m → q ≤ (s.switch j).seq i) : c.Transit k i s g.query := by
  refine ⟨m, hp.bound, .inr ⟨?_, ?_⟩⟩
  · rw [show g.query.seq = q from hp.seq, show g.query.value = v from hp.value]
    exact hmem
  · rw [show g.query.seq = q from hp.seq]
    exact hle

section Stored

variable {q : BitVec 16} {v : BitVec 128}

theorem deliver_seq (hi : i.toNat < regSize)
    (hregs : (ingress (c.tables j) (s.switch j) h).regs = (s.switch j).store i q v) (j' : Fin n) :
    ((c.deliver s j h).switch j').seq i = if j' = j then q else (s.switch j').seq i := by
  rw [deliver_switch]
  split_ifs
  · rw [hregs, Switch.store_seq_self hi]
  · rfl

theorem seq_le_deliver (hi : i.toNat < regSize)
    (hregs : (ingress (c.tables j) (s.switch j) h).regs = (s.switch j).store i q v)
    (hle : (s.switch j).seq i ≤ q) (j' : Fin n) :
    (s.switch j').seq i ≤ ((c.deliver s j h).switch j').seq i := by
  rw [deliver_seq hi hregs]
  split_ifs with he
  · rw [he]
    exact hle
  · exact BitVec.le_refl _

/-- A logged write is stored. -/
theorem Inv.stored_deliver (hs : c.Inv init k i s) (hi : i.toNat < regSize)
    (hregs : (ingress (c.tables j) (s.switch j) h).regs = (s.switch j).store i q v)
    (hne : q ≠ 0#16) (hsub : s.log ⊆ (c.deliver s j h).log)
    (hmem : ⟨k, q, v⟩ ∈ (c.deliver s j h).log) (j' : Fin n) :
    if ((c.deliver s j h).switch j').seq i = 0#16 then
      ((c.deliver s j h).switch j').value i = init.read i.toNat
    else ⟨k, ((c.deliver s j h).switch j').seq i, ((c.deliver s j h).switch j').value i⟩ ∈
      (c.deliver s j h).log := by
  by_cases he : j' = j
  · rw [deliver_seq hi hregs, if_pos he, if_neg hne, deliver_switch, if_pos he, hregs,
      Switch.store_value_self hi]
    exact hmem
  · have hst := hs.stored j'
    rw [deliver_seq hi hregs, if_neg he, deliver_switch, if_neg he]
    split_ifs at hst ⊢ with h0
    · exact hst
    · exact hsub hst

/-- The numbers stay sorted if the switches before this one have the new number already. -/
theorem Inv.sorted_deliver (hs : c.Inv init k i s) (hi : i.toNat < regSize)
    (hregs : (ingress (c.tables j) (s.switch j) h).regs = (s.switch j).store i q v)
    (hle : (s.switch j).seq i ≤ q) (hbefore : ∀ j' : Fin n, j' < j → q ≤ (s.switch j').seq i)
    (j₁ j₂ : Fin n) (hj : j₁ ≤ j₂) :
    ((c.deliver s j h).switch j₂).seq i ≤ ((c.deliver s j h).switch j₁).seq i := by
  by_cases h2 : j₂ = j
  · by_cases h1 : j₁ = j
    · rw [h1, h2]
      exact BitVec.le_refl _
    · rw [deliver_seq hi hregs j₂, if_pos h2, deliver_seq hi hregs j₁, if_neg h1]
      exact hbefore j₁ (lt_of_le_of_ne (h2 ▸ hj) h1)
  · rw [deliver_seq hi hregs j₂, if_neg h2]
    exact BitVec.le_trans (hs.sorted j₁ j₂ hj) (seq_le_deliver hi hregs hle j₁)

/-- The next number is a new one. -/
theorem Inv.unique_cons (hs : c.Inv init k i s) (hq : q.toNat = s.writes k + 1) :
    ∀ w ∈ ⟨k, q, v⟩ :: s.log, ∀ w' ∈ ⟨k, q, v⟩ :: s.log, w.key = k → w'.key = k →
      w.seq = w'.seq → w.value = w'.value := by
  have hfresh : ∀ w ∈ s.log, w.key = k → w.seq ≠ q := by
    intro w hw hwk he
    have := (hs.logged w hw hwk).2
    rw [he, hq] at this
    omega
  intro w hw w' hw' hwk hwk' he
  rcases List.mem_cons.mp hw with rfl | hw
  · rcases List.mem_cons.mp hw' with rfl | hw'
    · rfl
    · exact absurd he.symm (hfresh w' hw' hwk')
  · rcases List.mem_cons.mp hw' with rfl | hw'
    · exact absurd he (hfresh w hw hwk)
    · exact hs.unique w hw w' hw' hwk hwk' he

end Stored

/-- The head numbers a write of the key. -/
theorem Inv.head (hs : c.Inv init k i s) (hk : c.index h.ncHdr.key = some i)
    (hkey : h.ncHdr.key = k) (hserves : (c.tables c.head).Serves h) (hop : h.ncHdr.op = 12#8)
    (hregs : (ingress (c.tables c.head) (s.switch c.head) h).regs =
      (s.switch c.head).store i ((s.switch c.head).seq i + 1#16) h.ncHdr.value)
    (hcount : (c.deliver s c.head h).writes k < 2 ^ 16)
    (hnew : ∀ g ∈ (emit (c.tables c.head) (s.switch c.head) h).toList,
      c.Passes g 1 k ((s.switch c.head).seq i + 1#16) h.ncHdr.value) :
    c.Advances init k i s (c.deliver s c.head h) := by
  set q := (s.switch c.head).seq i + 1#16 with hq
  have hlt := c.index_lt hk
  have hh := hs.headSeq
  have hlog : (c.deliver s c.head h).log = ⟨k, q, h.ncHdr.value⟩ :: s.log := by
    have hidx : (c.tables c.head).index k = i := hkey ▸ tables_index hk
    simp only [deliver, headLog, hserves, hop, and_self, if_true, hidx, hregs,
      Switch.store_seq_self hlt, Switch.store_value_self hlt, hkey]
  have hwrites : (c.deliver s c.head h).writes k = s.writes k + 1 := by
    rw [Net.writes, hlog, List.countP_cons_of_pos (by simp)]
    rfl
  have hqnat : q.toNat = s.writes k + 1 := by
    rw [hq]
    bv_omega
  have hne : q ≠ 0#16 := by
    intro h0
    rw [h0] at hqnat
    simp at hqnat
  have hle : (s.switch c.head).seq i ≤ q := by bv_omega
  have hup := seq_le_deliver hlt hregs hle
  have hmem : ⟨k, q, h.ncHdr.value⟩ ∈ (c.deliver s c.head h).log := by
    rw [hlog]
    exact List.mem_cons_self
  have hsub : s.log ⊆ (c.deliver s c.head h).log := by
    rw [hlog]
    exact List.subset_cons_self _ _
  have hfirst (j' : Fin n) : ¬j' < c.head := Nat.not_lt_zero j'.val
  refine ⟨?_, hup⟩
  constructor
  · rw [deliver_seq hlt hregs, if_pos rfl, hqnat, hwrites]
  · intro w hw hwk
    rw [hwrites]
    rcases List.mem_cons.mp (hlog ▸ hw) with rfl | hw
    · dsimp only
      omega
    · have := hs.logged w hw hwk
      omega
  · rw [hlog]
    exact hs.unique_cons hqnat
  · exact hs.stored_deliver hlt hregs hne hsub hmem
  · exact hs.sorted_deliver hlt hregs hle fun j' hj' => absurd hj' (hfirst j')
  · intro g hg hw hgk
    rcases List.mem_append.mp hg with hg | hg
    · apply transit_of_passes (hnew g hg) hmem
      intro j' hj'
      have he : j' = c.head := Fin.ext (by simp only [Chain.head]; omega)
      rw [deliver_seq hlt hregs, if_pos he]
      exact BitVec.le_refl _
    · exact (hs.transit g hg hw hgk).mono hsub hup

/-- A later switch stores a newer write of the key. -/
theorem Inv.accept (hs : c.Inv init k i s) (hk : c.index h.ncHdr.key = some i)
    (hh : ⟨k, h.ncHdr.seq, h.ncHdr.value⟩ ∈ s.log ∧
      ∀ j' : Fin n, j' < j → h.ncHdr.seq ≤ (s.switch j').seq i) (hj : j ≠ c.head)
    (hlt : (s.switch j).seq i < h.ncHdr.seq)
    (hregs : (ingress (c.tables j) (s.switch j) h).regs =
      (s.switch j).store i h.ncHdr.seq h.ncHdr.value)
    (hnew : ∀ g ∈ (emit (c.tables j) (s.switch j) h).toList, g.IsWrite →
      c.Passes g (j + 1) k h.ncHdr.seq h.ncHdr.value) :
    c.Advances init k i s (c.deliver s j h) := by
  have hi := c.index_lt hk
  have hlog : (c.deliver s j h).log = s.log := headLog_of_ne hj _ _
  have hwrites : (c.deliver s j h).writes k = s.writes k := by
    rw [Net.writes, hlog]
    rfl
  have hne : h.ncHdr.seq ≠ 0#16 := by
    intro h0
    have := (hs.logged _ hh.1 rfl).1
    rw [h0] at this
    simp at this
  have hle := BitVec.le_of_lt hlt
  have hup := seq_le_deliver hi hregs hle
  have hsub : s.log ⊆ (c.deliver s j h).log := by
    rw [hlog]
    exact List.Subset.refl _
  refine ⟨?_, hup⟩
  constructor
  · rw [deliver_seq hi hregs, if_neg (Ne.symm hj), hwrites]
    exact hs.headSeq
  · rw [hlog, hwrites]
    exact hs.logged
  · rw [hlog]
    exact hs.unique
  · exact hs.stored_deliver hi hregs hne hsub (hsub hh.1)
  · exact hs.sorted_deliver hi hregs hle hh.2
  · intro g hg hw hgk
    rcases List.mem_append.mp hg with hg | hg
    · apply transit_of_passes (hnew g hg hw) (hsub hh.1)
      intro j' hj'
      rw [deliver_seq hi hregs]
      split_ifs with he
      · exact BitVec.le_refl _
      · exact hh.2 j' (lt_of_le_of_ne (Nat.lt_succ_iff.mp hj') he)
    · exact (hs.transit g hg hw hgk).mono hsub hup

theorem Inv.deliver (hs : c.Inv init k i s) (hsound : c.Sound s) (hki : c.index k = some i)
    (hh : h ∈ s.sent) (hcount : (c.deliver s j h).writes k < 2 ^ 16) :
    c.Advances init k i s (c.deliver s j h) := by
  by_cases hserves : (c.tables j).Serves h ∧ h.ncHdr.op = 12#8
  · obtain ⟨i', hk, hb⟩ := hsound.served hh hserves.1 hserves.2
    have hout := beforeRoute_write (s.switch j) hserves.1 hserves.2 hk hb
    simp only [← ingress_regs] at hout
    by_cases hkey : h.ncHdr.key = k
    · obtain rfl : i' = i := by
        rw [hkey, hki] at hk
        exact (Option.some.inj hk).symm
      have htransit := hs.transit h hh ⟨hserves.1.1, hserves.2⟩ hkey
      have hpass {g : Headers} {m : ℕ} {q : BitVec 16}
          (hg : g ∈ (emit (c.tables j) (s.switch j) h).toList)
          (hp : c.Passes (beforeRoute (c.tables j) (s.switch j) h).hdr m h.ncHdr.key q
            h.ncHdr.value) : c.Passes g m k q h.ncHdr.value :=
        hkey ▸ hp.congr (mem_emit hg)
      rcases hout with ⟨rfl, hregs, hp⟩ | ⟨hj, hlt, hregs, hp⟩ | ⟨hj, hle, hregs, hp⟩
      · exact hs.head hk hkey hserves.1 hserves.2 hregs hcount fun g hg => hpass hg hp
      · refine hs.accept hk (htransit.logged hserves.1 hk hj) hj hlt hregs ?_
        intro g hg hw
        exact hpass hg (hp (isWrite_of_query (mem_emit hg) hw))
      · have hlog : (c.deliver s j h).log = s.log := headLog_of_ne hj _ _
        refine hs.quiet (by rw [hregs]) (by rw [hregs]) (fun w _ => by rw [hlog])
          (by rw [Net.writes, hlog]; rfl) ?_
        intro g hg hw _
        obtain ⟨hmem, hbelow⟩ := htransit.logged hserves.1 hk hj
        exact transit_of_passes (hpass hg (hp (isWrite_of_query (mem_emit hg) hw))) hmem hbelow
    · have hne : i' ≠ i := fun he => hkey (c.index_injective hk (he ▸ hki))
      have hlog := headLog_of_key_ne hkey (c := c) (j := j)
        (ingress (c.tables j) (s.switch j) h).regs s.log
      refine hs.quiet ?_ ?_ hlog.1 hlog.2 ?_
      · rcases hout with ⟨-, hregs, -⟩ | ⟨-, -, hregs, -⟩ | ⟨-, -, hregs, -⟩
        · rw [hregs, Switch.store_seq_of_ne hne]
        · rw [hregs, Switch.store_seq_of_ne hne]
        · rw [hregs]
      · rcases hout with ⟨-, hregs, -⟩ | ⟨-, -, hregs, -⟩ | ⟨-, -, hregs, -⟩
        · rw [hregs, Switch.store_value_of_ne hne]
        · rw [hregs, Switch.store_value_of_ne hne]
        · rw [hregs]
      · intro g hg hw hgk
        have hq := mem_emit hg
        have hw' := isWrite_of_query hq hw
        have hkeep : (beforeRoute (c.tables j) (s.switch j) h).hdr.ncHdr.key = h.ncHdr.key := by
          rcases hout with ⟨-, -, hp⟩ | ⟨-, -, -, hp⟩ | ⟨-, -, -, hp⟩
          · exact hp.key
          · exact (hp hw').key
          · exact (hp hw').key
        exact absurd (hkeep.symm.trans ((congrArg Query.key hq).symm.trans hgk)) hkey
  · have hregs := ingress_regs_eq hserves (s.switch j)
    have hlog : (c.deliver s j h).log = s.log := by
      have hno : ¬ (j = c.head ∧ (c.tables j).Serves h ∧ h.ncHdr.op = 12#8) :=
        fun hy => hserves hy.2
      simp only [Chain.deliver, headLog, if_neg hno]
    refine hs.quiet (by rw [hregs]) (by rw [hregs]) (fun w _ => by rw [hlog])
      (by rw [Net.writes, hlog]; rfl) ?_
    intro g hg hw hgk
    have hq := mem_emit hg
    have hwh := beforeRoute_isWrite (tables_genReply_ne j) (isWrite_of_query hq hw)
    rw [beforeRoute_tables_not_serves fun hy => hserves ⟨hy, hwh.2⟩] at hq
    rw [hq]
    exact hs.transit h hh hwh ((congrArg Query.key hq).symm.trans hgk)

theorem writes_le_deliver (k : BitVec 128) (s : Net n) (j : Fin n) (h : Headers) :
    s.writes k ≤ (c.deliver s j h).writes k := by
  apply List.Sublist.countP_le
  unfold deliver headLog
  dsimp only
  split_ifs
  · exact List.sublist_cons_self _ _
  · exact List.Sublist.refl _

theorem sound_reachable (hs : (c.replication init).Reachable s) : c.Sound s := by
  apply hs.invariant
  · rintro s rfl h hh
    simp at hh
  · intro s a _ ih he
    cases a with
    | send g =>
      intro h hh hw
      rcases List.mem_cons.mp hh with rfl | hh
      · exact ⟨0, (he hw).2.2, .inl rfl⟩
      · exact ih h hh hw
    | deliver j g => exact ih.deliver he

theorem inv_init (k : BitVec 128) (i : BitVec 16) :
    c.Inv init k i ⟨fun _ => ⟨.fill regSize 0#16, init⟩, [], []⟩ := by
  constructor
  · simp [Net.writes, Switch.seq]
  · simp
  · simp
  · intro j
    simp [Switch.seq, Switch.value]
  · intro j j' _
    exact BitVec.le_refl _
  · simp

theorem Inv.send (hs : c.Inv init k i s) (hh : h.IsWrite → c.IsClientWrite h) :
    c.Inv init k i { s with sent := h :: s.sent } := by
  refine ⟨hs.headSeq, hs.logged, hs.unique, hs.stored, hs.sorted, ?_⟩
  intro g hg hw hk
  rcases List.mem_cons.mp hg with rfl | hg
  · exact ⟨0, (hh hw).2.2, .inl rfl⟩
  · exact hs.transit g hg hw hk

theorem advances_step (hr : (c.replication init).Reachable s) (hs : c.Inv init k i s)
    (hki : c.index k = some i) {a : Label n} (he : (c.replication init).enabled s a)
    (hcount : ((c.replication init).next s a).writes k < 2 ^ 16) :
    c.Advances init k i s ((c.replication init).next s a) := by
  cases a with
  | send h => exact ⟨hs.send he, fun j => BitVec.le_refl _⟩
  | deliver j h => exact hs.deliver (sound_reachable hr) hki he hcount

variable (c init) in
theorem writes_le_step (k : BitVec 128) (s : Net n) (a : Label n) :
    s.writes k ≤ ((c.replication init).next s a).writes k := by
  cases a with
  | send h => exact Nat.le_refl _
  | deliver j h => exact writes_le_deliver k s j h

theorem inv_reachable (hs : (c.replication init).Reachable s) (hki : c.index k = some i)
    (hcount : s.writes k < 2 ^ 16) : c.Inv init k i s := by
  induction hs with
  | init hs =>
    obtain rfl := hs
    exact inv_init k i
  | @step s a hr he ih =>
    have hle := writes_le_step c init k s a
    exact (advances_step hr (ih (Nat.lt_of_le_of_lt hle hcount)) hki he hcount).1

theorem seq_le_of_steps (hs : (c.replication init).Reachable s) {s' : Net n}
    (hst : (c.replication init).Steps s s') (hki : c.index k = some i)
    (hcount : s'.writes k < 2 ^ 16) (j : Fin n) :
    (s.switch j).seq i ≤ (s'.switch j).seq i := by
  induction hst with
  | refl => exact BitVec.le_refl _
  | @step t a hst he ih =>
    have hle := writes_le_step c init k t a
    have ht := Nat.lt_of_le_of_lt hle hcount
    have hr := hs.steps hst
    exact BitVec.le_trans (ih ht) ((advances_step hr (inv_reachable hr hki ht) hki he hcount).2 j)

end Step

/-- Along the chain sequence numbers do not increase, over time they do not
decrease, and each stored pair was stored together by the head, or is initial. -/
theorem chain_consistent (c : Chain n) (init : Register 128 regSize) {s : Net n}
    (hs : (c.replication init).Reachable s) {k : BitVec 128} {i : BitVec 16}
    (hk : c.index k = some i) (hcount : s.writes k < 65536) :
    (∀ j j' : Fin n, j ≤ j' → (s.switch j').seq i ≤ (s.switch j).seq i) ∧
    (∀ s', (c.replication init).Steps s s' → s'.writes k < 65536 →
      ∀ j, (s.switch j).seq i ≤ (s'.switch j).seq i) ∧
    (∀ j, 0#16 < (s.switch j).seq i → ∀ v,
      ⟨k, (s.switch j).seq i, v⟩ ∈ s.log ↔ v = (s.switch j).value i) ∧
    (∀ j, (s.switch j).seq i = 0#16 → (s.switch j).value i = init.read i.toNat) ∧
    (∀ j j', (s.switch j).seq i = (s.switch j').seq i →
      (s.switch j).value i = (s.switch j').value i) := by
  have hi := inv_reachable hs hk hcount
  refine ⟨hi.sorted, fun s' hst hc j => seq_le_of_steps hs hst hk hc j, ?_, ?_, ?_⟩
  · intro j hpos v
    have hst := hi.stored j
    rw [if_neg (by bv_omega)] at hst
    constructor
    · intro hv
      exact hi.unique _ hv _ hst rfl rfl rfl
    · rintro rfl
      exact hst
  · intro j h0
    have hst := hi.stored j
    rwa [if_pos h0] at hst
  · intro j j' he
    have hst := hi.stored j
    have hst' := hi.stored j'
    by_cases h0 : (s.switch j).seq i = 0#16
    · rw [if_pos h0] at hst
      rw [if_pos (he ▸ h0)] at hst'
      rw [hst, hst']
    · rw [if_neg h0] at hst
      rw [if_neg (he ▸ h0)] at hst'
      exact hi.unique _ hst _ hst' rfl rfl he

end Chain

def labStart : Net 3 := ⟨fun _ => ⟨.fill regSize 0#16, .fill regSize 7#128⟩, [], []⟩

section

local instance labRun_switches : NeZero 3 := ⟨by decide⟩

/-- The write reaches the head and, numbered, the middle switch. -/
def labRun : List (Label 3) :=
  [.send labRequest, .deliver 0 labRequest,
    .deliver 1 ((emit (lab.tables 0) (labStart.switch 0) labRequest).getD default)]

end

theorem labRun_allowed :
    (lab.replication (.fill regSize 7#128)).Allowed labStart labRun := by
  refine ⟨fun _ => ⟨by decide, rfl, rfl, rfl⟩, ?_, ?_, trivial⟩
  · exact List.mem_cons_self
  · exact List.mem_cons_self

/-- After `labRun` the first two switches of `lab` hold the write, the third does not. -/
theorem chain_consistent_lab :
    ∃ s : Net 3, (lab.replication (.fill regSize 7#128)).Reachable s ∧ s.writes 2018#128 = 1 ∧
      (s.switch 1).seq 0#16 = 1#16 ∧ (s.switch 1).value 0#16 = 222#128 ∧
      (s.switch 2).value 0#16 = 7#128 ∧
      ∀ j j', (s.switch j).seq 0#16 = (s.switch j').seq 0#16 →
        (s.switch j).value 0#16 = (s.switch j').value 0#16 := by
  have hs := System.Reachable.run (.init rfl) labRun_allowed
  have hk : lab.index 2018#128 = some 0#16 := by decide
  refine ⟨_, hs, by decide, by decide, by decide, by decide, ?_⟩
  exact (Chain.chain_consistent lab _ hs hk (by decide)).2.2.2.2

end P4Survey.NetChain
