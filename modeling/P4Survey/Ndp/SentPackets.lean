import P4Survey.Lib.Memory
import P4Survey.Lib.System
import P4Survey.Lib.Words

/-! # The sequence numbers of a subflow

`SentPackets` of `sent_packets.cpp`: which data sequence number a packet of a multipath
subflow carries, and how `TcpSrc::send_packets` uses it when receive windows are
modelled. When the subflow goes back after a timeout it asks whether it has given a
sequence number away before. A failed assertion gives `none`.
-/

namespace P4Survey.Ndp

open Lib

/-- The size of the ring. -/
def maxSent : ℕ := 20000

structure SentPackets where
  subSeq : ℕ → ℕ
  dataSeq : ℕ → ℕ
  crtStart : ℕ
  crtEnd : ℕ
  crtCount : ℕ
  highestSeq : ℤ

namespace SentPackets

def empty : SentPackets := ⟨fun _ => 0, fun _ => 0, 0, 0, 0, 0⟩

variable (r : SentPackets)

def addPacket (seq dataS : ℕ) : Option SentPackets :=
  let r := { r with
    subSeq := Function.update r.subSeq r.crtEnd seq
    dataSeq := Function.update r.dataSeq r.crtEnd dataS
    highestSeq := int32 seq
    crtEnd := (r.crtEnd + 1) % maxSent
    crtCount := r.crtCount + 1 }
  if r.crtStart = r.crtEnd then none else some r

/-- The loop of `ack_packet`. Each round takes one packet out, so `crt_count` rounds are
enough. -/
def ackLoop (ackSeq : ℕ) : ℕ → SentPackets → SentPackets
  | 0, r => r
  | fuel + 1, r =>
    if r.crtStart ≠ r.crtEnd ∧ 0 < r.crtCount ∧ r.subSeq r.crtStart < ackSeq then
      ackLoop ackSeq fuel
        { r with crtStart := (r.crtStart + 1) % maxSent, crtCount := r.crtCount - 1 }
    else r

def ackPacket (ackSeq : ℕ) : SentPackets := ackLoop ackSeq r.crtCount r

/-- The loop of `get_data_seq`. It goes round the ring at most once. -/
def findFrom (seq : ℕ) : ℕ → ℕ → Option ℕ
  | 0, _ => none
  | fuel + 1, t =>
    if t = r.crtEnd then none
    else if r.subSeq t = seq then some (r.dataSeq t)
    else findFrom seq fuel ((t + 1) % maxSent)

def getDataSeq (seq : ℕ) : Option ℕ := r.findFrom seq maxSent r.crtStart

/-- The argument is an `int`, and so is `highest_seq`. -/
def haveMapping (seq : ℕ) : Bool := r.highestSeq > int32 seq

/-- The ring holds these sequence numbers with their data sequence numbers. -/
structure Represents (l : List (ℕ × ℕ)) : Prop where
  holds : Holds maxSent (fun t => (r.subSeq t, r.dataSeq t)) r.crtStart l
  start : r.crtStart < maxSent
  stop : r.crtEnd = ringEnd maxSent r.crtStart l
  count : r.crtCount = l.length
  length : l.length < maxSent

variable {r} {l : List (ℕ × ℕ)}

theorem maxSent_pos : 0 < maxSent := by norm_num [maxSent]

theorem Represents.empty : Represents empty [] := by
  constructor
  · trivial
  · exact maxSent_pos
  · exact (Nat.zero_mod maxSent).symm
  · rfl
  · rw [List.length_nil]
    exact maxSent_pos

theorem Represents.addPacket (h : r.Represents l) (seq dataS : ℕ)
    (hroom : l.length + 1 < maxSent) :
    ∃ r', r.addPacket seq dataS = some r' ∧ r'.Represents (l ++ [(seq, dataS)]) ∧
      r'.highestSeq = int32 seq := by
  have hlen : (l ++ [(seq, dataS)]).length < maxSent := by
    rw [List.length_append, List.length_singleton]
    exact hroom
  have hstop : (r.crtEnd + 1) % maxSent = ringEnd maxSent r.crtStart (l ++ [(seq, dataS)]) := by
    rw [ringEnd_concat, h.stop]
  have hne := ringEnd_ne h.start (by simp) hlen
  refine ⟨{ r with
    subSeq := Function.update r.subSeq r.crtEnd seq
    dataSeq := Function.update r.dataSeq r.crtEnd dataS
    highestSeq := int32 seq
    crtEnd := (r.crtEnd + 1) % maxSent
    crtCount := r.crtCount + 1 }, if_neg ?_, ⟨?_, h.start, hstop, ?_, hlen⟩, ?_⟩
  · change r.crtStart ≠ (r.crtEnd + 1) % maxSent
    rw [hstop]
    exact hne.symm
  · have hpush := h.holds.push h.start h.length (seq, dataS)
    rw [← h.stop] at hpush
    convert hpush using 1
    ext t <;> by_cases ht : t = r.crtEnd <;> simp [ht]
  · rw [List.length_append, ← h.count]
    rfl
  · dsimp only

/-- The last cell of the ring is never used. -/
theorem Represents.addPacket_full (h : r.Represents l) (seq dataS : ℕ)
    (hfull : l.length + 1 = maxSent) : r.addPacket seq dataS = none := by
  refine if_pos ?_
  change r.crtStart = (r.crtEnd + 1) % maxSent
  rw [h.stop, ringEnd, Nat.mod_add_mod, Nat.add_assoc, hfull, Nat.add_mod_right,
    Nat.mod_eq_of_lt h.start]

theorem Represents.ackPacket (h : r.Represents l) (ackSeq : ℕ) :
    (r.ackPacket ackSeq).Represents (l.dropWhile fun p => p.1 < ackSeq) ∧
      (r.ackPacket ackSeq).highestSeq = r.highestSeq := by
  rw [SentPackets.ackPacket, h.count]
  induction l generalizing r with
  | nil => exact ⟨h, rfl⟩
  | cons p l ih =>
    have hne : r.crtStart ≠ r.crtEnd := by
      rw [h.stop]
      exact (ringEnd_ne h.start (List.cons_ne_nil p l) h.length).symm
    have hcount : 0 < r.crtCount := by
      rw [h.count]
      exact Nat.succ_pos _
    have hfirst : r.subSeq r.crtStart = p.1 := congrArg Prod.fst h.holds.1
    rw [List.length_cons, ackLoop]
    by_cases hacked : p.1 < ackSeq
    · rw [if_pos ⟨hne, hcount, hfirst ▸ hacked⟩, List.dropWhile_cons_of_pos (by simpa using hacked)]
      apply ih
      refine ⟨h.holds.2, Nat.mod_lt _ maxSent_pos, ?_, ?_, ?_⟩
      · rw [h.stop, ringEnd_cons]
      · change r.crtCount - 1 = l.length
        rw [h.count]
        rfl
      · exact (Nat.lt_succ_self _).trans h.length
    · rw [if_neg fun hall => hacked (hfirst ▸ hall.2.2),
        List.dropWhile_cons_of_neg (by simpa using hacked)]
      exact ⟨h, rfl⟩

theorem Represents.getDataSeq (h : r.Represents l) (seq : ℕ) :
    r.getDataSeq seq = (l.find? fun p => p.1 = seq).map Prod.snd := by
  suffices haux : ∀ (m : List (ℕ × ℕ)) (fuel t : ℕ), m.length < fuel → t < maxSent →
      m.length < maxSent → Holds maxSent (fun t => (r.subSeq t, r.dataSeq t)) t m →
      r.crtEnd = ringEnd maxSent t m →
      r.findFrom seq fuel t = (m.find? fun p => p.1 = seq).map Prod.snd from
    haux l maxSent r.crtStart h.length h.start h.length h.holds h.stop
  intro m
  induction m with
  | nil =>
    intro fuel t hfuel ht _ _ hstop
    obtain ⟨fuel, rfl⟩ := Nat.exists_eq_succ_of_ne_zero hfuel.ne'
    have hend : t = r.crtEnd := by
      rw [hstop]
      exact (Nat.mod_eq_of_lt ht).symm
    rw [findFrom, if_pos hend]
    rfl
  | cons p m ih =>
    intro fuel t hfuel ht hlen hholds hstop
    obtain ⟨fuel, rfl⟩ := Nat.exists_eq_succ_of_ne_zero (Nat.ne_zero_of_lt hfuel)
    have hne : t ≠ r.crtEnd := by
      rw [hstop]
      exact (ringEnd_ne ht (List.cons_ne_nil p m) hlen).symm
    have hfirst : (r.subSeq t, r.dataSeq t) = p := hholds.1
    rw [findFrom, if_neg hne]
    by_cases hseq : r.subSeq t = seq
    · rw [if_pos hseq, List.find?_cons_of_pos (by simp [← hfirst, hseq]), ← hfirst]
      rfl
    · rw [if_neg hseq, List.find?_cons_of_neg (by simp [← hfirst, hseq])]
      rw [ringEnd_cons] at hstop
      exact ih fuel _ (Nat.lt_of_succ_lt_succ hfuel) (Nat.mod_lt _ maxSent_pos)
        ((Nat.lt_succ_self _).trans hlen) hholds.2 hstop

end SentPackets

/-- A subflow after its handshake. `added` has the mappings that were added; the code does not
read it. -/
structure Subflow where
  sentPackets : SentPackets
  highestSent : ℕ
  lastAcked : ℕ
  added : List (ℕ × ℕ)

namespace Subflow

def start : Subflow := ⟨.empty, 1, 1, []⟩

variable (mss : ℕ) (s : Subflow)

/-- One round of the loop in `send_packets`. `next` is what `getDataSeq` of the connection
gives, `none` if the receive window is full. -/
def sendPacket (next : Option ℕ) : Option Subflow :=
  if s.sentPackets.haveMapping (s.highestSent + 1) then
    (s.sentPackets.getDataSeq (s.highestSent + 1)).map fun _ =>
      { s with highestSent := s.highestSent + mss }
  else
    match next with
    | none => some s
    | some dataSeq =>
      (s.sentPackets.addPacket (s.highestSent + 1) dataSeq).map fun r =>
        { s with
          sentPackets := r
          highestSent := s.highestSent + mss
          added := s.added ++ [(s.highestSent + 1, dataSeq)] }

/-- An ACK for new data. -/
def receiveAck (seqno : ℕ) : Subflow :=
  { s with
    sentPackets := s.sentPackets.ackPacket seqno
    lastAcked := seqno
    highestSent := if s.highestSent ≤ seqno then seqno else s.highestSent }

/-- The packet after the last ACK is sent again. -/
def retransmitPacket : Option Subflow :=
  (s.sentPackets.getDataSeq (s.lastAcked + 1)).map fun _ => s

def timeout : Option Subflow :=
  { s with highestSent := s.lastAcked + mss }.retransmitPacket

inductive Event where
  | send (next : Option ℕ)
  | ack (seqno : ℕ)
  | retransmit
  | timeout
  deriving DecidableEq

def step : Event → Option Subflow
  | .send next => s.sendPacket mss next
  | .ack seqno => some (s.receiveAck seqno)
  | .retransmit => s.retransmitPacket
  | .timeout => s.timeout mss

/-- The last bytes of the packets with the mappings so far. -/
def ends : List ℕ := s.added.map fun p => p.1 + mss - 1

/-- The sink acknowledges whole packets, and a packet is sent again while one is outstanding. -/
def system : System (Option Subflow) Event where
  init s := s = some start
  enabled
    | none, _ => False
    | some _, .send _ => True
    | some s, .ack seqno => s.lastAcked < seqno ∧ seqno ∈ s.ends mss
    | some s, .retransmit => s.lastAcked + 1 ∈ s.added.map Prod.fst
    | some s, .timeout => s.lastAcked + 1 ∈ s.added.map Prod.fst
  next s a := s.bind fun s => s.step mss a

instance decidableEnabled : (s : Option Subflow) → (a : Event) →
    Decidable ((system mss).enabled s a)
  | none, _ => isFalse id
  | some _, .send _ => isTrue trivial
  | some s, .ack seqno => inferInstanceAs (Decidable (s.lastAcked < seqno ∧ seqno ∈ s.ends mss))
  | some s, .retransmit => inferInstanceAs (Decidable (s.lastAcked + 1 ∈ s.added.map Prod.fst))
  | some s, .timeout => inferInstanceAs (Decidable (s.lastAcked + 1 ∈ s.added.map Prod.fst))

/-- No sequence number is mapped twice, `get_data_seq` finds the mapping of each one that is not
acknowledged, and `have_mapping` is right for all but the last that was mapped. -/
structure Stable : Prop where
  nodup : (s.added.map Prod.fst).Nodup
  data : ∀ p ∈ s.added, s.lastAcked < p.1 → s.sentPackets.getDataSeq p.1 = some p.2
  mapping : ∀ k, 2 + k * mss < 2 ^ 31 →
    ((s.sentPackets.haveMapping (2 + k * mss) = true ↔ 2 + k * mss ∈ s.added.map Prod.fst) ↔
      (s.added.map Prod.fst).getLast? ≠ some (2 + k * mss))

/-- The loop does not come to the sequence number that was mapped last, nor to one that is not
an `int`, and the ring has room for a new one. -/
def Fresh : Event → Prop
  | .send next => s.highestSent + 1 < 2 ^ 31 ∧
      (next ≠ none → (s.added.map Prod.fst).getLast? ≠ some (s.highestSent + 1) ∧
        (s.highestSent + 1 ∉ s.added.map Prod.fst → s.sentPackets.crtCount + 1 < maxSent))
  | _ => True

instance decidableFresh : (a : Event) → Decidable (s.Fresh a)
  | .send next => inferInstanceAs (Decidable (s.highestSent + 1 < 2 ^ 31 ∧
      (next ≠ none → (s.added.map Prod.fst).getLast? ≠ some (s.highestSent + 1) ∧
        (s.highestSent + 1 ∉ s.added.map Prod.fst → s.sentPackets.crtCount + 1 < maxSent))))
  | .ack _ => isTrue trivial
  | .retransmit => isTrue trivial
  | .timeout => isTrue trivial

/-! ## Sorted mappings -/

theorem dropWhile_eq_filter {l : List (ℕ × ℕ)} (hl : l.Pairwise fun p q => p.1 < q.1) (b : ℕ) :
    (l.dropWhile fun p => p.1 < b) = l.filter fun p => b ≤ p.1 := by
  induction l with
  | nil => rfl
  | cons p l ih =>
    obtain ⟨hp, hl⟩ := List.pairwise_cons.mp hl
    by_cases hlt : p.1 < b
    · rw [List.dropWhile_cons_of_pos (by simpa using hlt),
        List.filter_cons_of_neg (by simpa using hlt), ih hl]
    · rw [List.dropWhile_cons_of_neg (by simpa using hlt), eq_comm, List.filter_eq_self]
      intro q hq
      rcases List.mem_cons.mp hq with rfl | hq
      · simpa using hlt
      · have hless := hp q hq
        simp only [decide_eq_true_eq]
        omega

theorem find?_eq_some {l : List (ℕ × ℕ)} (hl : (l.map Prod.fst).Nodup) {p : ℕ × ℕ} (hp : p ∈ l) :
    (l.find? fun q => q.1 = p.1) = some p := by
  induction l with
  | nil => cases hp
  | cons q l ih =>
    rw [List.map_cons, List.nodup_cons] at hl
    rcases List.mem_cons.mp hp with rfl | hp
    · exact List.find?_cons_of_pos (by simp)
    · have hne : q.1 ≠ p.1 := fun heq => hl.1 (heq ▸ List.mem_map_of_mem hp)
      rw [List.find?_cons_of_neg (by simpa using hne)]
      exact ih hl.2 hp

/-- The sequence numbers that were mapped follow on each other, the ring holds the mappings that
are not acknowledged, and the subflow is at the end of a packet. -/
structure Inv (mss : ℕ) (s : Subflow) : Prop where
  seqs : s.added.map Prod.fst = (List.range s.added.length).map fun i => 2 + i * mss
  small : ∀ i < s.added.length, 2 + i * mss < 2 ^ 31
  ring : s.sentPackets.Represents (s.added.filter fun p => s.lastAcked ≤ p.1)
  highest : s.sentPackets.highestSeq =
    if s.added.length = 0 then 0 else ((2 + (s.added.length - 1) * mss : ℕ) : ℤ)
  position : ∃ a h, s.lastAcked = 1 + a * mss ∧ s.highestSent = 1 + h * mss ∧ a ≤ h ∧
    h ≤ s.added.length

namespace Inv

variable {mss : ℕ} {s : Subflow} (hmss : 0 < mss) (h : Inv mss s)

include hmss in
theorem seq_injective : Function.Injective fun i => 2 + i * mss := by
  intro i j hij
  exact Nat.eq_of_mul_eq_mul_right hmss (Nat.add_left_cancel hij)

include hmss in
theorem seq_lt_iff {i j : ℕ} : 2 + i * mss < 2 + j * mss ↔ i < j := by
  rw [Nat.add_lt_add_iff_left, Nat.mul_lt_mul_right hmss]

include hmss h in
theorem mem_iff (k : ℕ) : 2 + k * mss ∈ s.added.map Prod.fst ↔ k < s.added.length := by
  rw [h.seqs, List.mem_map_of_injective (seq_injective hmss), List.mem_range]

include h in
theorem seq_of_mem {p : ℕ × ℕ} (hp : p ∈ s.added) : ∃ i < s.added.length, p.1 = 2 + i * mss := by
  have hmem := List.mem_map_of_mem (f := Prod.fst) hp
  rw [h.seqs, List.mem_map] at hmem
  obtain ⟨i, hi, heq⟩ := hmem
  exact ⟨i, List.mem_range.mp hi, heq.symm⟩

include h in
theorem getLast?_eq : (s.added.map Prod.fst).getLast? =
    if s.added.length = 0 then none else some (2 + (s.added.length - 1) * mss) := by
  rw [h.seqs, List.getLast?_map, List.getLast?_range]
  split_ifs <;> rfl

include hmss h in
theorem nodup : (s.added.map Prod.fst).Nodup := by
  rw [h.seqs]
  exact List.nodup_range.map (seq_injective hmss)

include hmss h in
theorem sorted : s.added.Pairwise fun p q => p.1 < q.1 := by
  have hpair : (s.added.map Prod.fst).Pairwise (· < ·) := by
    rw [h.seqs, List.pairwise_map]
    exact List.pairwise_lt_range.imp fun hij => (seq_lt_iff hmss).mpr hij
  exact List.pairwise_map.mp hpair

include hmss h in
/-- The question `have_mapping` is answered with no for the last mapping. -/
theorem haveMapping_iff {k : ℕ} (hk : 2 + k * mss < 2 ^ 31) :
    s.sentPackets.haveMapping (2 + k * mss) = true ↔ k + 1 < s.added.length := by
  have hcast : int32 (2 + k * mss : ℕ) = (2 + k * mss : ℕ) := int32_of_fits (by omega) (by omega)
  rw [SentPackets.haveMapping, decide_eq_true_eq, hcast, h.highest]
  split_ifs with hzero
  · constructor <;> intro hlt <;> omega
  · have hiff := seq_lt_iff hmss (i := k) (j := s.added.length - 1)
    rw [gt_iff_lt, Int.ofNat_lt, hiff]
    omega

include hmss h in
/-- A mapping that is not acknowledged is found. -/
theorem getDataSeq_eq {p : ℕ × ℕ} (hp : p ∈ s.added) (hack : s.lastAcked ≤ p.1) :
    s.sentPackets.getDataSeq p.1 = some p.2 := by
  have hnodup : ((s.added.filter fun q => s.lastAcked ≤ q.1).map Prod.fst).Nodup :=
    (h.nodup hmss).sublist (List.filter_sublist.map Prod.fst)
  have hmem : p ∈ s.added.filter fun q => s.lastAcked ≤ q.1 :=
    List.mem_filter.mpr ⟨hp, by simpa using hack⟩
  rw [h.ring.getDataSeq, find?_eq_some hnodup hmem]
  rfl

include h in
theorem getDataSeq_eq_none {seq : ℕ} (hseq : seq ∉ s.added.map Prod.fst) :
    s.sentPackets.getDataSeq seq = none := by
  rw [h.ring.getDataSeq, List.find?_eq_none.mpr]
  · rfl
  · intro p hp heq
    refine hseq (List.mem_map.mpr ⟨p, (List.mem_filter.mp hp).1, ?_⟩)
    simpa using heq

include hmss h in
theorem stable : Stable mss s := by
  refine ⟨h.nodup hmss, fun p hp hack => h.getDataSeq_eq hmss hp hack.le, fun k hk => ?_⟩
  rw [h.haveMapping_iff hmss hk, h.mem_iff hmss, h.getLast?_eq]
  by_cases hzero : s.added.length = 0
  · simp [hzero]
  · rw [if_neg hzero, Ne, Option.some.injEq]
    have hinj := (seq_injective hmss).eq_iff (a := s.added.length - 1) (b := k)
    rw [hinj]
    omega

theorem start (mss : ℕ) : Inv mss start := by
  refine ⟨rfl, nofun, .empty, rfl, 0, 0, ?_, ?_, le_rfl, le_rfl⟩ <;>
  · rw [Nat.zero_mul]
    rfl

include hmss h in
/-- ACKs of whole packets take the oldest mappings out of the ring. -/
theorem receiveAck {seqno : ℕ} (hnew : s.lastAcked < seqno) (hseqno : seqno ∈ s.ends mss) :
    Inv mss (s.receiveAck seqno) := by
  obtain ⟨p, hp, hend⟩ := List.mem_map.mp hseqno
  obtain ⟨i, hi, hseq⟩ := h.seq_of_mem hp
  obtain ⟨a, k, hack, hsent, -, hk⟩ := h.position
  obtain ⟨hring, hhighest⟩ := h.ring.ackPacket seqno
  have heq : seqno = 1 + (i + 1) * mss := by
    rw [Nat.add_one_mul]
    omega
  have hfilter : (s.added.filter fun p => s.lastAcked ≤ p.1).dropWhile (fun p => p.1 < seqno) =
      s.added.filter fun p => seqno ≤ p.1 := by
    rw [dropWhile_eq_filter ((h.sorted hmss).sublist List.filter_sublist), List.filter_filter]
    apply List.filter_congr
    intro q _
    simp only [Bool.and_eq_left_iff_imp, decide_eq_true_eq]
    omega
  rw [hfilter] at hring
  refine ⟨h.seqs, h.small, hring, hhighest.trans h.highest, ?_⟩
  by_cases hle : s.highestSent ≤ seqno
  · exact ⟨i + 1, i + 1, heq, (if_pos hle).trans heq, le_rfl, hi⟩
  · refine ⟨i + 1, k, heq, (if_neg hle).trans hsent, ?_, hk⟩
    rw [hsent, heq] at hle
    have hless := Nat.lt_of_mul_lt_mul_right (Nat.lt_of_add_lt_add_left (not_le.mp hle))
    exact hless.le

include hmss h in
/-- While a packet is outstanding its mapping is found again. -/
theorem outstanding (hmem : s.lastAcked + 1 ∈ s.added.map Prod.fst) :
    ∃ d, s.sentPackets.getDataSeq (s.lastAcked + 1) = some d := by
  obtain ⟨p, hp, heq⟩ := List.mem_map.mp hmem
  exact ⟨p.2, heq ▸ h.getDataSeq_eq hmss hp (by omega)⟩

include hmss h in
theorem retransmitPacket (hmem : s.lastAcked + 1 ∈ s.added.map Prod.fst) :
    s.retransmitPacket = some s := by
  obtain ⟨d, hd⟩ := h.outstanding hmss hmem
  rw [Subflow.retransmitPacket, hd]
  rfl

include hmss h in
theorem timeout (hmem : s.lastAcked + 1 ∈ s.added.map Prod.fst) :
    ∃ s', s.timeout mss = some s' ∧ Inv mss s' := by
  obtain ⟨d, hd⟩ := h.outstanding hmss hmem
  obtain ⟨a, k, hack, -, -, -⟩ := h.position
  refine ⟨{ s with highestSent := s.lastAcked + mss }, ?_, h.seqs, h.small, h.ring, h.highest,
    a, a + 1, hack, ?_, Nat.le_succ a, ?_⟩
  · change ((s.sentPackets.getDataSeq (s.lastAcked + 1)).map fun _ => _) = _
    rw [hd]
    rfl
  · change s.lastAcked + mss = _
    rw [hack, Nat.add_one_mul, Nat.add_assoc]
  · have hseq : s.lastAcked + 1 = 2 + a * mss := by omega
    rw [hseq, h.mem_iff hmss] at hmem
    exact hmem

include hmss h in
/-- A round of the loop that finds the mapping it has added before. -/
theorem sendAgain {a k : ℕ} (hack : s.lastAcked = 1 + a * mss) (hsent : s.highestSent = 1 + k * mss)
    (hle : a ≤ k) (hk : k + 1 < s.added.length) (next : Option ℕ) :
    ∃ s', s.sendPacket mss next = some s' ∧ Inv mss s' := by
  have hseq : s.highestSent + 1 = 2 + k * mss := by omega
  have hmem : s.highestSent + 1 ∈ s.added.map Prod.fst := by
    rw [hseq, h.mem_iff hmss]
    omega
  obtain ⟨p, hp, hfst⟩ := List.mem_map.mp hmem
  have hdata : s.sentPackets.getDataSeq (s.highestSent + 1) = some p.2 := by
    rw [← hfst]
    refine h.getDataSeq_eq hmss hp ?_
    have hmul := Nat.mul_le_mul_right mss hle
    omega
  have hmap : s.sentPackets.haveMapping (s.highestSent + 1) = true := by
    rw [hseq, h.haveMapping_iff hmss (h.small k (by omega))]
    exact hk
  refine ⟨{ s with highestSent := s.highestSent + mss }, ?_, h.seqs, h.small, h.ring, h.highest,
    a, k + 1, hack, ?_, by omega, hk.le⟩
  · unfold sendPacket
    rw [if_pos hmap, hdata]
    rfl
  · change s.highestSent + mss = _
    rw [hsent, Nat.add_one_mul, Nat.add_assoc]

include hmss h in
/-- A round of the loop that adds a mapping. -/
theorem sendNew (hsent : s.highestSent = 1 + s.added.length * mss)
    (hfits : s.highestSent + 1 < 2 ^ 31) (hroom : s.sentPackets.crtCount + 1 < maxSent) (d : ℕ) :
    ∃ s', s.sendPacket mss (some d) = some s' ∧ Inv mss s' := by
  obtain ⟨a, k, hack, hsent', hle, hk⟩ := h.position
  have hseq : s.highestSent + 1 = 2 + s.added.length * mss := by omega
  have hmap : ¬ s.sentPackets.haveMapping (s.highestSent + 1) = true := by
    rw [hseq, h.haveMapping_iff hmss (hseq ▸ hfits)]
    omega
  have hcast : int32 (s.highestSent + 1 : ℕ) = (s.highestSent + 1 : ℕ) :=
    int32_of_fits (by omega) (by omega)
  rw [h.ring.count] at hroom
  obtain ⟨r, hr, hring, hhighest⟩ :=
    h.ring.addPacket (s.highestSent + 1) d hroom
  have hlen : (s.added ++ [(s.highestSent + 1, d)]).length = s.added.length + 1 := by simp
  refine ⟨{ s with
    sentPackets := r
    highestSent := s.highestSent + mss
    added := s.added ++ [(s.highestSent + 1, d)] }, ?_, ?_, ?_, ?_, ?_, a, s.added.length + 1,
    hack, ?_, by omega, hlen.ge⟩
  · unfold sendPacket
    rw [if_neg hmap]
    dsimp only
    rw [hr]
    rfl
  · rw [hlen, List.range_succ, List.map_append, List.map_append, h.seqs, hseq]
    rfl
  · intro i hi
    rw [hlen] at hi
    rcases Nat.lt_succ_iff_lt_or_eq.mp hi with hi | rfl
    · exact h.small i hi
    · exact hseq ▸ hfits
  · have hnext : s.lastAcked ≤ s.highestSent + 1 := by
      rw [hack, hsent]
      exact (Nat.add_le_add_left (Nat.mul_le_mul_right mss (hle.trans hk)) 1).trans (Nat.le_succ _)
    change r.Represents ((s.added ++ [(s.highestSent + 1, d)]).filter fun p => s.lastAcked ≤ p.1)
    rw [List.filter_append, List.filter_cons_of_pos (by simpa using hnext)]
    exact hring
  · rw [hlen, if_neg (Nat.succ_ne_zero _), hhighest, hcast, hseq, Nat.add_sub_cancel]
  · change s.highestSent + mss = _
    rw [hsent, Nat.add_one_mul, Nat.add_assoc]

include hmss h in
theorem send {next : Option ℕ} (hok : s.Fresh (.send next)) :
    ∃ s', s.sendPacket mss next = some s' ∧ Inv mss s' := by
  obtain ⟨a, k, hack, hsent, hle, hk⟩ := h.position
  obtain ⟨hfits, hnext⟩ := hok
  by_cases hagain : k + 1 < s.added.length
  · exact h.sendAgain hmss hack hsent hle hagain next
  · have hseq : s.highestSent + 1 = 2 + k * mss := by omega
    have hmap : ¬ s.sentPackets.haveMapping (s.highestSent + 1) = true := by
      rw [hseq, h.haveMapping_iff hmss (hseq ▸ hfits)]
      exact hagain
    cases next with
    | none =>
      refine ⟨s, ?_, h⟩
      unfold sendPacket
      rw [if_neg hmap]
    | some d =>
      obtain ⟨hlast, hroom⟩ := hnext nofun
      have hlen : k = s.added.length := by
        by_contra hne
        refine hlast ?_
        rw [h.getLast?_eq, if_neg (by omega), hseq, show s.added.length - 1 = k by omega]
      subst hlen
      refine h.sendNew hmss hsent hfits (hroom ?_) d
      rw [hseq, h.mem_iff hmss]
      exact lt_irrefl _

include hmss h in
theorem step {a : Event} (ha : (system mss).enabled (some s) a) (hok : s.Fresh a) :
    ∃ s', s.step mss a = some s' ∧ Inv mss s' := by
  cases a with
  | send next => exact h.send hmss hok
  | ack seqno => exact ⟨_, rfl, h.receiveAck hmss ha.1 ha.2⟩
  | retransmit => exact ⟨s, h.retransmitPacket hmss ha, h⟩
  | timeout => exact h.timeout hmss ha

include hmss h in
/-- A mapping for the number that was mapped last is a second one. -/
theorem not_stable_of_last {next : Option ℕ} (hnext : next ≠ none)
    (hfits : s.highestSent + 1 < 2 ^ 31)
    (hlast : (s.added.map Prod.fst).getLast? = some (s.highestSent + 1)) {s' : Subflow}
    (hs' : s.sendPacket mss next = some s') : ¬ Stable mss s' := by
  obtain ⟨d, rfl⟩ := Option.ne_none_iff_exists'.mp hnext
  obtain ⟨a, k, hack, hsent, hle, hk⟩ := h.position
  have hseq : s.highestSent + 1 = 2 + k * mss := by omega
  have hkeep := hlast
  rw [h.getLast?_eq, hseq] at hlast
  split_ifs at hlast with hzero
  have hlen := seq_injective hmss (Option.some.inj hlast)
  have hmap : ¬ s.sentPackets.haveMapping (s.highestSent + 1) = true := by
    rw [hseq, h.haveMapping_iff hmss (hseq ▸ hfits)]
    omega
  unfold sendPacket at hs'
  rw [if_neg hmap] at hs'
  obtain ⟨r, -, rfl⟩ := Option.map_eq_some_iff.mp hs'
  intro hstable
  have hnodup := hstable.nodup
  rw [List.map_append, List.nodup_append] at hnodup
  exact hnodup.2.2 _ (List.mem_of_getLast? hkeep) _ (List.mem_singleton_self _) rfl

include hmss h in
/-- The first number that is not an `int` is taken for one that was mapped. -/
theorem sendPacket_wrapped (hlt : mss < 2 ^ 16) (hwrap : 2 ^ 31 ≤ s.highestSent + 1)
    (next : Option ℕ) : s.sendPacket mss next = none := by
  obtain ⟨a, k, hack, hsent, hle, hk⟩ := h.position
  have hseq : s.highestSent + 1 = 2 + k * mss := by omega
  have hlen : k = s.added.length := by
    by_contra hne
    have hsmall := h.small k (by omega)
    omega
  have hfits : s.highestSent + 1 < 2 ^ 32 := by
    rcases Nat.eq_zero_or_pos k with rfl | hpos
    · omega
    · have hsmall := h.small (k - 1) (by omega)
      have hsplit : k * mss = (k - 1) * mss + mss := by
        rw [← Nat.add_one_mul, Nat.sub_add_cancel hpos]
      omega
  have hnew : s.highestSent + 1 ∉ s.added.map Prod.fst := by
    rw [hseq, h.mem_iff hmss]
    omega
  have hmap : s.sentPackets.haveMapping (s.highestSent + 1) = true := by
    have hcast : int32 (s.highestSent + 1 : ℕ) < 0 := by
      rw [int32, Int.bmod_def]
      push_cast
      split_ifs <;> omega
    rw [SentPackets.haveMapping, decide_eq_true_eq, h.highest]
    split_ifs <;> omega
  unfold sendPacket
  rw [if_pos hmap, h.getDataSeq_eq_none hnew]
  rfl

include hmss h in
theorem sendPacket_full (hnew : s.highestSent + 1 ∉ s.added.map Prod.fst)
    (hfits : s.highestSent + 1 < 2 ^ 31) (hfull : ¬ s.sentPackets.crtCount + 1 < maxSent) (d : ℕ) :
    s.sendPacket mss (some d) = none := by
  obtain ⟨a, k, hack, hsent, hle, hk⟩ := h.position
  have hseq : s.highestSent + 1 = 2 + k * mss := by omega
  have hmap : ¬ s.sentPackets.haveMapping (s.highestSent + 1) = true := by
    rw [hseq, h.haveMapping_iff hmss (hseq ▸ hfits)]
    rw [hseq, h.mem_iff hmss] at hnew
    omega
  have hlen := h.ring.length
  rw [h.ring.count] at hfull
  unfold sendPacket
  rw [if_neg hmap]
  dsimp only
  rw [h.ring.addPacket_full _ _ (by omega)]
  rfl

include hmss h in
/-- A round of the loop that leads to no failure and to no second mapping was a fresh one. -/
theorem fresh_of_stable (hlt : mss < 2 ^ 16) {a : Event} {s' : Subflow}
    (hs' : s.step mss a = some s') (hstable : Stable mss s') : s.Fresh a := by
  cases a with
  | ack seqno => trivial
  | retransmit => trivial
  | timeout => trivial
  | send next =>
    have hfits : s.highestSent + 1 < 2 ^ 31 := by
      by_contra hwrap
      rw [Subflow.step, h.sendPacket_wrapped hmss hlt (not_lt.mp hwrap)] at hs'
      cases hs'
    refine ⟨hfits, fun hnext => ⟨fun hlast => ?_, fun hnew => ?_⟩⟩
    · exact h.not_stable_of_last hmss hnext hfits hlast hs' hstable
    · by_contra hfull
      obtain ⟨d, rfl⟩ := Option.ne_none_iff_exists'.mp hnext
      rw [Subflow.step, h.sendPacket_full hmss hnew hfits hfull] at hs'
      cases hs'

end Inv

/-- The mappings of a subflow are stable in each state of a run, and no assertion fails, exactly
if no round of the loop comes to the sequence number that was mapped last or to one from
`2 ^ 31` on, or finds the ring full. -/
theorem stable_iff_fresh {mss : ℕ} (hmss : 0 < mss) (hlt : mss < 2 ^ 16) (l : List Event)
    (hl : (system mss).Allowed (some start) l) :
    (∀ l', l' <+: l → ∃ s, (system mss).run (some start) l' = some s ∧ Stable mss s) ↔
      ((system mss).restrict fun s a => ∀ t ∈ s, t.Fresh a).Allowed (some start) l := by
  refine System.holds_iff_allowed (I := fun s => ∃ t, s = some t ∧ Inv mss t)
    (P := fun s => ∃ t, s = some t ∧ Stable mss t) ?_ ?_ ?_ ⟨_, rfl, Inv.start mss⟩ hl
  · rintro s ⟨t, rfl, h⟩
    exact ⟨t, rfl, h.stable hmss⟩
  · rintro s a ⟨t, rfl, h⟩ ha hok
    exact h.step hmss ha (hok t rfl)
  · rintro s a ⟨t, rfl, h⟩ - ⟨t', ht', hstable⟩ q hq
    obtain rfl := Option.some.inj hq
    exact h.fresh_of_stable hmss hlt ht' hstable

/-- Three packets are sent, a timeout goes back to the first, and the second is sent again from
its mapping. -/
theorem stable_iff_fresh_timeout :
    (∀ l', l' <+: [.send (some 1), .send (some 1001), .send (some 3001), .timeout, .ack 1001,
        .send none] → ∃ s, (system 1000).run (some start) l' = some s ∧ Stable 1000 s) ↔
      ((system 1000).restrict fun s a => ∀ t ∈ s, t.Fresh a).Allowed (some start)
        [.send (some 1), .send (some 1001), .send (some 3001), .timeout, .ack 1001, .send none] :=
  stable_iff_fresh (by norm_num) (by norm_num) _ (by decide +kernel)

/-- Two packets are outstanding. The timeout goes back behind the first, and when that is
acknowledged the second is mapped again: 1002 was the last that was mapped. -/
theorem mapped_twice :
    (system 1000).Allowed (some start)
        [.send (some 1), .send (some 1001), .timeout, .ack 1001, .send (some 5001)] ∧
      ((system 1000).run (some start)
        [.send (some 1), .send (some 1001), .timeout, .ack 1001]).map (fun s =>
          (s.highestSent + 1, s.sentPackets.haveMapping 1002, s.added)) =
        some (1002, false, [(2, 1), (1002, 1001)]) ∧
      ((system 1000).run (some start)
        [.send (some 1), .send (some 1001), .timeout, .ack 1001, .send (some 5001)]).map
          (fun s => (s.added, s.sentPackets.getDataSeq 1002)) =
        some ([(2, 1), (1002, 1001), (1002, 5001)], some 1001) :=
  ⟨by decide +kernel, by decide +kernel, by decide +kernel⟩

end Subflow

end P4Survey.Ndp
