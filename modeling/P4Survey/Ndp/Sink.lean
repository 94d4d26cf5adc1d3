import P4Survey.Ndp.Pacer

/-! # The sink

`NdpSink` of `ndp.cpp`: it puts the packets of a flow back in order and answers
each arrival with an ACK, or a NACK if the packet was trimmed, and with a pull.
-/

namespace P4Survey.Ndp

/-- `cumulativeAck` is the last byte acknowledged, `received` lists the sequence
numbers received above a hole. -/
structure Sink where
  cumulativeAck : ℕ
  received : List ℕ
  pullNo : ℕ
  lastPacketSeqno : ℕ

/-- The sink and its pacer after an arrival, the answer and a new timer event. -/
structure Arrival where
  sink : Sink
  pacer : Pacer
  reply : Packet
  timer : Option ℕ

namespace Sink

def initial : Sink := ⟨0, [], 0, 0⟩

/-- Take in the packets received earlier that are next now. -/
def advance (size : ℕ) : ℕ → List ℕ → ℕ × List ℕ
  | c, [] => (c, [])
  | c, x :: l => if x = c + 1 then advance size (c + size) l else (c, x :: l)

/-- Fill a hole between packets received earlier. -/
def insertHole (seqno : ℕ) : List ℕ → List ℕ
  | [] => []
  | x :: l =>
    if seqno = x then x :: l
    else if seqno < x then seqno :: x :: l
    else x :: insertHole seqno l

def record (size seqno : ℕ) (k : Sink) : Sink :=
  if seqno = k.cumulativeAck + 1 then
    let (c, l) := advance size (seqno + size - 1) k.received
    { k with cumulativeAck := c, received := l }
  else if seqno < k.cumulativeAck + 1 then k
  else
    match k.received.getLast? with
    | none => { k with received := [seqno] }
    | some back =>
      if back < seqno then { k with received := k.received ++ [seqno] }
      else { k with received := insertHole seqno k.received }

variable (F : Flow) (now draw : ℕ)

/-- `send_ack` or `send_nack`. -/
def send (kind : Reply → Packet) (ackno pacerNo : ℕ) (pacer : Pacer) (k : Sink) : Arrival :=
  let r : Reply := ⟨ackno, k.cumulativeAck, k.pullNo + 1, 0, true⟩
  let out := pacer.sendPacket now draw F.id kind r
  ⟨{ k with pullNo := if pacer.Increases pacerNo then k.pullNo + 2 else k.pullNo + 1 },
    out.1, out.2.1, out.2.2⟩

def sendAck (ackno pacerNo : ℕ) (pacer : Pacer) (k : Sink) : Arrival :=
  k.send F now draw .ack ackno pacerNo pacer

def sendNack (ackno pacerNo : ℕ) (pacer : Pacer) (k : Sink) : Arrival :=
  k.send F now draw .nack ackno pacerNo pacer

/-- The last packet of the flow tells where the flow ends. -/
def noteLast (p : NdpPacket) (k : Sink) : Sink :=
  if p.lastPacket then { k with lastPacketSeqno := p.seqno + F.mss - 1 } else k

def receivePacket (p : NdpPacket) (pacer : Pacer) (k : Sink) : Arrival :=
  if p.isHeader then k.sendNack F now draw p.seqno p.pacerno pacer
  else
    let a := ((k.noteLast F p).record F.mss p.seqno).sendAck F now draw p.seqno p.pacerno pacer
    if 0 < a.sink.lastPacketSeqno ∧ a.sink.cumulativeAck = a.sink.lastPacketSeqno then
      { a with pacer := a.pacer.releasePulls F.id }
    else a

theorem noteLast_eq (p : NdpPacket) (k : Sink) :
    (k.noteLast F p).cumulativeAck = k.cumulativeAck ∧
      (k.noteLast F p).received = k.received ∧ (k.noteLast F p).pullNo = k.pullNo := by
  unfold noteLast
  split_ifs <;> exact ⟨rfl, rfl, rfl⟩

theorem record_eq (size seqno : ℕ) (k : Sink) :
    (k.record size seqno).pullNo = k.pullNo ∧
      (k.record size seqno).lastPacketSeqno = k.lastPacketSeqno := by
  unfold record
  split_ifs
  · exact ⟨rfl, rfl⟩
  · exact ⟨rfl, rfl⟩
  · split
    · exact ⟨rfl, rfl⟩
    · split_ifs <;> exact ⟨rfl, rfl⟩

section Reassembly

/-- Packet number `j`, counted from zero, has been received. -/
def Got (size : ℕ) (k : Sink) (j : ℕ) : Prop :=
  (j + 1) * size ≤ k.cumulativeAck ∨ j * size + 1 ∈ k.received

/-- The first `n` packets are acknowledged, packet `n` is missing, and the later ones
received are listed in order. -/
structure Ordered (size n : ℕ) (k : Sink) : Prop where
  cumulativeAck : k.cumulativeAck = n * size
  sorted : k.received.Pairwise (· < ·)
  above : ∀ x ∈ k.received, ∃ j, n < j ∧ x = j * size + 1

variable {size n : ℕ} (hsize : 0 < size)
include hsize

theorem seqno_lt_iff {i j : ℕ} : i * size + 1 < j * size + 1 ↔ i < j := by
  rw [Nat.add_lt_add_iff_right, Nat.mul_lt_mul_right hsize]

theorem seqno_inj {i j : ℕ} : i * size + 1 = j * size + 1 ↔ i = j := by
  rw [Nat.add_right_cancel_iff, Nat.mul_left_inj (Nat.ne_of_gt hsize)]

theorem Ordered.got_iff {k : Sink} (h : k.Ordered size n) (j : ℕ) :
    k.Got size j ↔ j < n ∨ j * size + 1 ∈ k.received := by
  rw [Got, h.cumulativeAck, Nat.mul_le_mul_right_iff hsize, Nat.succ_le_iff]

theorem Ordered.not_got {k : Sink} (h : k.Ordered size n) : ¬ k.Got size n := by
  rw [h.got_iff hsize]
  rintro (hlt | hmem)
  · exact Nat.lt_irrefl n hlt
  · obtain ⟨j, hj, he⟩ := h.above _ hmem
    rw [seqno_inj hsize] at he
    omega

theorem advance_spec {l : List ℕ} (hl : l.Pairwise (· < ·))
    (habove : ∀ x ∈ l, ∃ j, n ≤ j ∧ x = j * size + 1) :
    ∃ m l', advance size (n * size) l = (m * size, l') ∧ l'.Pairwise (· < ·) ∧
      (∀ x ∈ l', ∃ j, m < j ∧ x = j * size + 1) ∧
      ∀ j, j < m ∨ j * size + 1 ∈ l' ↔ j < n ∨ j * size + 1 ∈ l := by
  induction l generalizing n with
  | nil => exact ⟨n, [], rfl, .nil, by simp, fun j => Iff.rfl⟩
  | cons x l ih =>
    obtain ⟨i, hi, rfl⟩ := habove x List.mem_cons_self
    obtain ⟨hfirst, hrest⟩ := List.pairwise_cons.mp hl
    have hlater (y : ℕ) (hy : y ∈ l) : ∃ j, i < j ∧ y = j * size + 1 := by
      obtain ⟨j, -, rfl⟩ := habove y (List.mem_cons_of_mem _ hy)
      exact ⟨j, (seqno_lt_iff hsize).mp (hfirst _ hy), rfl⟩
    rw [advance]
    split_ifs with he
    · obtain rfl := (seqno_inj hsize).mp he
      have hnext : i * size + size = (i + 1) * size := (Nat.succ_mul i size).symm
      obtain ⟨m, l', hadv, hs, ha, hmem⟩ := ih (n := i + 1) hrest hlater
      refine ⟨m, l', by rw [hnext, hadv], hs, ha, fun j => ?_⟩
      rw [hmem, List.mem_cons, seqno_inj hsize, Nat.lt_succ_iff_lt_or_eq, or_assoc]
    · have hne : i ≠ n := fun h => he (by rw [h])
      refine ⟨n, _, rfl, hl, ?_, fun j => Iff.rfl⟩
      intro y hy
      rcases List.mem_cons.mp hy with rfl | hy
      · exact ⟨i, by omega, rfl⟩
      · obtain ⟨j, hj, rfl⟩ := hlater y hy
        exact ⟨j, by omega, rfl⟩

omit hsize in
theorem insertHole_spec {s : ℕ} {l : List ℕ} (hl : l.Pairwise (· < ·)) (hs : ∃ y ∈ l, s ≤ y) :
    (insertHole s l).Pairwise (· < ·) ∧ ∀ x, x ∈ insertHole s l ↔ x = s ∨ x ∈ l := by
  induction l with
  | nil => simp at hs
  | cons y l ih =>
    obtain ⟨hfirst, hrest⟩ := List.pairwise_cons.mp hl
    rw [insertHole]
    split_ifs with he hlt
    · subst he
      exact ⟨hl, fun x => by simp⟩
    · refine ⟨List.pairwise_cons.mpr ⟨?_, hl⟩, fun x => List.mem_cons⟩
      intro z hz
      rcases List.mem_cons.mp hz with rfl | hz
      · exact hlt
      · exact Nat.lt_trans hlt (hfirst z hz)
    · have hs' : ∃ z ∈ l, s ≤ z := by
        obtain ⟨z, hz, hle⟩ := hs
        rcases List.mem_cons.mp hz with rfl | hz
        · omega
        · exact ⟨z, hz, hle⟩
      obtain ⟨hsorted, hmem⟩ := ih hrest hs'
      refine ⟨List.pairwise_cons.mpr ⟨?_, hsorted⟩, fun x => ?_⟩
      · intro z hz
        rcases (hmem z).mp hz with rfl | hz
        · omega
        · exact hfirst z hz
      · rw [List.mem_cons, hmem, List.mem_cons]
        exact or_left_comm

omit hsize in
theorem append_sorted {back s : ℕ} {l : List ℕ} (hl : l.Pairwise (· < ·))
    (hback : l.getLast? = some back) (hs : back < s) : (l ++ [s]).Pairwise (· < ·) := by
  obtain ⟨l, rfl⟩ := List.getLast?_eq_some_iff.mp hback
  have hlast := (List.pairwise_append.mp hl).2.2
  refine List.pairwise_append.mpr ⟨hl, List.pairwise_singleton _ _, ?_⟩
  intro x hx y hy
  obtain rfl := List.mem_singleton.mp hy
  rcases List.mem_append.mp hx with hx | hx
  · exact Nat.lt_trans (hlast x hx back (List.mem_singleton_self _)) hs
  · obtain rfl := List.mem_singleton.mp hx
    exact hs

/-- A packet beyond the first missing one joins the list. -/
theorem Ordered.insert {k : Sink} (h : k.Ordered size n) {j : ℕ} (hj : n < j) {l : List ℕ}
    (hsorted : l.Pairwise (· < ·)) (hmem : ∀ x, x ∈ l ↔ x = j * size + 1 ∨ x ∈ k.received) :
    { k with received := l }.Ordered size n ∧
      ∀ i, { k with received := l }.Got size i ↔ k.Got size i ∨ i = j := by
  have hordered : { k with received := l }.Ordered size n := by
    refine ⟨h.cumulativeAck, hsorted, fun x hx => ?_⟩
    rcases (hmem x).mp hx with rfl | hx
    · exact ⟨j, hj, rfl⟩
    · exact h.above x hx
  refine ⟨hordered, fun i => ?_⟩
  rw [hordered.got_iff hsize, h.got_iff hsize, hmem, seqno_inj hsize]
  tauto

/-- An arrival adds its packet to those received, also if it came before. -/
theorem Ordered.record {k : Sink} (h : k.Ordered size n) (j : ℕ) :
    ∃ m, n ≤ m ∧ (k.record size (j * size + 1)).Ordered size m ∧
      ∀ i, (k.record size (j * size + 1)).Got size i ↔ k.Got size i ∨ i = j := by
  have hack := h.cumulativeAck
  rw [Sink.record]
  rcases Nat.lt_trichotomy j n with hlt | rfl | hgt
  · have hseq := (seqno_lt_iff hsize).mpr hlt
    rw [← hack] at hseq
    rw [if_neg (Nat.ne_of_lt hseq), if_pos hseq]
    refine ⟨n, le_rfl, h, fun i => ?_⟩
    have hgot : k.Got size j := (h.got_iff hsize j).mpr (.inl hlt)
    constructor
    · exact .inl
    · rintro (hi | rfl)
      · exact hi
      · exact hgot
  · have hnext : j * size + 1 + size - 1 = (j + 1) * size := by
      rw [Nat.succ_mul]
      omega
    obtain ⟨m, l, hadv, hsorted, habove, hmem⟩ := advance_spec hsize (n := j + 1) h.sorted h.above
    rw [if_pos (by rw [hack]), hnext, hadv]
    have hordered : { k with cumulativeAck := m * size, received := l }.Ordered size m :=
      ⟨rfl, hsorted, habove⟩
    refine ⟨m, ?_, hordered, fun i => ?_⟩
    · by_contra hm
      obtain ⟨i, hi, he⟩ | hlt := ((hmem m).mpr (.inl (by omega))).symm.imp_left (habove _)
      · rw [seqno_inj hsize] at he
        omega
      · omega
    · rw [hordered.got_iff hsize, h.got_iff hsize, hmem, Nat.lt_succ_iff_lt_or_eq]
      tauto
  · have hseq := (seqno_lt_iff hsize).mpr hgt
    rw [← hack] at hseq
    rw [if_neg (Nat.ne_of_gt hseq), if_neg (Nat.lt_asymm hseq)]
    refine ⟨n, le_rfl, ?_⟩
    cases hback : k.received.getLast? with
    | none =>
      have hnil := List.getLast?_eq_none_iff.mp hback
      have hmem (x : ℕ) : x ∈ [j * size + 1] ↔ x = j * size + 1 ∨ x ∈ k.received := by
        simp [hnil]
      exact h.insert hsize hgt (List.pairwise_singleton _ _) hmem
    | some back =>
      have hlast := List.mem_of_getLast? hback
      dsimp only
      split_ifs with hlt
      · refine h.insert hsize hgt (append_sorted h.sorted hback hlt) fun x => ?_
        rw [List.mem_append, List.mem_singleton, or_comm]
      · obtain ⟨hsorted, hmem⟩ :=
          insertHole_spec h.sorted ⟨back, hlast, Nat.not_lt.mp hlt⟩
        exact h.insert hsize hgt hsorted hmem

end Reassembly

section Answer

variable {F : Flow} {pacer : Pacer} {l : List NdpPull}

/-- The pull for an arrival leaves with its reply or waits in the queue. -/
structure Answers (F : Flow) (l : List NdpPull) (kind : Reply → Packet) (ackno pullNo : ℕ)
    (pacer : Pacer) (r : Reply) (l' : List NdpPull) (reply : Packet) : Prop where
  only : FairPullQueue.Only F.id l' pacer.pullQueue
  reply : reply = kind r
  ackno : r.ackno = ackno
  pull : (r.pull = true ∧ r.pullno = pullNo ∧ l' = l) ∨
    (r.pull = false ∧ ∃ x, x.pullno = pullNo ∧ l' = x :: l)

theorem send_answers (hq : FairPullQueue.Only F.id l pacer.pullQueue) (k : Sink) (now draw : ℕ)
    (kind : Reply → Packet) (ackno pacerNo : ℕ) :
    (k.send F now draw kind ackno pacerNo pacer).sink = { k with pullNo := k.pullNo + 1 } ∧
      ∃ r l', Answers F l kind ackno (k.pullNo + 1)
        (k.send F now draw kind ackno pacerNo pacer).pacer r l'
        (k.send F now draw kind ackno pacerNo pacer).reply := by
  unfold send Pacer.sendPacket
  rw [if_neg (pacer.not_increases pacerNo)]
  refine ⟨rfl, ?_⟩
  dsimp only
  by_cases hdue : pacer.Due now draw
  · rw [if_pos hdue]
    exact ⟨_, l, hq, rfl, rfl, .inl ⟨rfl, rfl, rfl⟩⟩
  · rw [if_neg hdue]
    exact ⟨_, _, hq.enqueue _, rfl, rfl, .inr ⟨rfl, _, rfl, rfl⟩⟩

end Answer

end Sink

end P4Survey.Ndp
