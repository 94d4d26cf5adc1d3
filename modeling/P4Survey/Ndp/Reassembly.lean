import P4Survey.Ndp.Sink

/-! # Reassembly at the receivers

`NdpSink`, `TcpSink` of `tcp.cpp` and `MultipathTcpSink` of `mtcp.cpp` put the
packets of a flow back in order with the same list of packets above a hole.
Whatever order the packets arrive in, the list and the cumulative
acknowledgement say which of them have arrived.
-/

namespace P4Survey.Ndp

/-- The receiver of a flow with packets of `size` bytes after the packets with the
given sequence numbers have arrived. -/
structure Reassembled (size : ℕ) (arrived : List ℕ) (cumulativeAck : ℕ) (received : List ℕ) :
    Prop where
  sorted : received.Pairwise (· < ·)
  mem_iff : ∀ x, x ∈ received ↔ x ∈ arrived ∧ cumulativeAck + 1 < x
  next_notMem : cumulativeAck + 1 ∉ received
  contiguous : ∃ n, cumulativeAck = n * size ∧ (∀ j < n, j * size + 1 ∈ arrived) ∧
    n * size + 1 ∉ arrived
  covered : ∀ b, 1 ≤ b → b ≤ cumulativeAck → ∃ x ∈ arrived, x ≤ b ∧ b < x + size

/-- The sequence numbers are those of packets of `size` bytes, the first one being 1. -/
def Numbered (size : ℕ) (l : List ℕ) : Prop := ∀ x ∈ l, ∃ j, x = j * size + 1

namespace Sink

variable {size n : ℕ} {k k' : Sink} {l : List ℕ}

/-- The packets that the sink counts as received are those that arrived. -/
structure Tracks (size n : ℕ) (l : List ℕ) (k : Sink) : Prop where
  numbered : Numbered size l
  ordered : k.Ordered size n
  got_iff : ∀ j, k.Got size j ↔ j * size + 1 ∈ l

/-- The same as far as reassembly is concerned. -/
structure Same (k k' : Sink) : Prop where
  cumulativeAck : k'.cumulativeAck = k.cumulativeAck
  received : k'.received = k.received

theorem Tracks.congr (h : k.Tracks size n l) (hs : Same k k') : k'.Tracks size n l where
  numbered := h.numbered
  ordered := by
    refine ⟨?_, ?_, ?_⟩
    · rw [hs.cumulativeAck, h.ordered.cumulativeAck]
    · rw [hs.received]
      exact h.ordered.sorted
    · rw [hs.received]
      exact h.ordered.above
  got_iff j := by
    rw [← h.got_iff, Got, Got, hs.cumulativeAck, hs.received]

section

variable (hsize : 0 < size)
include hsize

theorem tracks_initial : initial.Tracks size 0 [] where
  numbered x hx := by cases hx
  ordered := ⟨(Nat.zero_mul size).symm, .nil, fun x hx => by cases hx⟩
  got_iff j := by
    constructor
    · rintro (h | h)
      · have hpos : 0 < (j + 1) * size := Nat.mul_pos (Nat.succ_pos j) hsize
        exact absurd h hpos.not_ge
      · cases h
    · intro h
      cases h

theorem Tracks.record (h : k.Tracks size n l) (j : ℕ) :
    ∃ m, n ≤ m ∧ (k.record size (j * size + 1)).Tracks size m (l ++ [j * size + 1]) := by
  obtain ⟨m, hle, hordered, hgot⟩ := h.ordered.record hsize j
  refine ⟨m, hle, ?_, hordered, fun i => ?_⟩
  · intro x hx
    rcases List.mem_append.mp hx with hx | hx
    · exact h.numbered x hx
    · exact ⟨j, List.mem_singleton.mp hx⟩
  · rw [hgot, h.got_iff, List.mem_append, List.mem_singleton, seqno_inj hsize]

theorem Tracks.reassembled (h : k.Tracks size n l) :
    Reassembled size l k.cumulativeAck k.received := by
  have hack := h.ordered.cumulativeAck
  have hmem (j : ℕ) : j * size + 1 ∈ l ↔ j < n ∨ j * size + 1 ∈ k.received := by
    rw [← h.got_iff, h.ordered.got_iff hsize]
  have hnext : n * size + 1 ∉ l := by
    rw [← h.got_iff]
    exact h.ordered.not_got hsize
  have habove : ∀ x ∈ k.received, k.cumulativeAck + 1 < x := by
    intro x hx
    obtain ⟨j, hj, rfl⟩ := h.ordered.above x hx
    rw [hack]
    exact (seqno_lt_iff hsize).mpr hj
  constructor
  · exact h.ordered.sorted
  · intro x
    constructor
    · intro hx
      obtain ⟨j, -, rfl⟩ := h.ordered.above x hx
      exact ⟨(hmem j).mpr (.inr hx), habove _ hx⟩
    · rintro ⟨hx, hlt⟩
      obtain ⟨j, rfl⟩ := h.numbered x hx
      rw [hack, seqno_lt_iff hsize] at hlt
      exact ((hmem j).mp hx).resolve_left hlt.not_gt
  · intro hx
    exact absurd (habove _ hx) (lt_irrefl _)
  · exact ⟨n, hack, fun j hj => (hmem j).mpr (.inl hj), hnext⟩
  · intro b hpos hle
    rw [hack] at hle
    have hlt : (b - 1) / size < n := by
      rw [Nat.div_lt_iff_lt_mul hsize]
      omega
    have hdiv := Nat.div_add_mod (b - 1) size
    have hmod := Nat.mod_lt (b - 1) hsize
    rw [Nat.mul_comm] at hdiv
    exact ⟨_, (hmem _).mpr (.inl hlt), by omega, by omega⟩

end

/-- A receiver that shows a sink and takes in packets as the sink does. -/
structure Receiver (σ π : Type*) (size : ℕ) where
  view : σ → Sink
  start : σ
  step : σ → π → σ
  /-- The sequence number, or `none` for a packet without data. -/
  seqno : π → Option ℕ
  fits : π → Prop
  view_start : Same initial (view start)
  view_step : ∀ s p, fits p →
    Same ((seqno p).elim (view s) fun x => (view s).record size x) (view (step s p))

namespace Receiver

variable {σ π : Type*} (R : Receiver σ π size)

/-- The receiver after the packets of a list. -/
def run (l : List π) : σ := l.foldl R.step R.start

def arrived (l : List π) : List ℕ := l.filterMap R.seqno

variable {R} {l : List π}

theorem tracks_foldl (hsize : 0 < size) {pre : List ℕ} {s : σ}
    (hs : (R.view s).Tracks size n pre) (hfits : ∀ p ∈ l, R.fits p)
    (hnum : Numbered size (R.arrived l)) :
    ∃ m, n ≤ m ∧ (R.view (l.foldl R.step s)).Tracks size m (pre ++ R.arrived l) := by
  induction l generalizing n pre s with
  | nil =>
    refine ⟨n, le_rfl, ?_⟩
    rw [arrived, List.filterMap_nil, List.append_nil]
    exact hs
  | cons p l ih =>
    obtain ⟨hp, hl⟩ := List.forall_mem_cons.mp hfits
    have hview := R.view_step s p hp
    rw [List.foldl_cons]
    cases hx : R.seqno p with
    | none =>
      have harrived : R.arrived (p :: l) = R.arrived l := List.filterMap_cons_none hx
      rw [hx] at hview
      rw [harrived] at hnum ⊢
      exact ih (hs.congr hview) hl hnum
    | some x =>
      have harrived : R.arrived (p :: l) = x :: R.arrived l := List.filterMap_cons_some hx
      rw [hx] at hview
      rw [harrived] at hnum ⊢
      obtain ⟨⟨j, rfl⟩, hrest⟩ := List.forall_mem_cons.mp hnum
      obtain ⟨m, hle, hrecord⟩ := hs.record hsize j
      obtain ⟨m', hle', htracks⟩ := ih (hrecord.congr hview) hl hrest
      refine ⟨m', hle.trans hle', ?_⟩
      rw [List.append_assoc] at htracks
      exact htracks

/-- Whatever packets arrive, the receiver knows which ones, and its acknowledgement
does not go back. -/
theorem reassembled (hsize : 0 < size) (l l' : List π) (hfits : ∀ p ∈ l ++ l', R.fits p)
    (hnum : Numbered size (R.arrived (l ++ l'))) :
    Reassembled size (R.arrived l) (R.view (R.run l)).cumulativeAck (R.view (R.run l)).received ∧
      (R.view (R.run l)).cumulativeAck ≤ (R.view (R.run (l ++ l'))).cumulativeAck := by
  rw [arrived, List.filterMap_append] at hnum
  obtain ⟨hnum, hnum'⟩ := List.forall_mem_append.mp hnum
  obtain ⟨hfits, hfits'⟩ := List.forall_mem_append.mp hfits
  obtain ⟨n, -, htracks⟩ := tracks_foldl hsize ((tracks_initial hsize).congr R.view_start) hfits hnum
  rw [List.nil_append] at htracks
  obtain ⟨m, hle, htracks'⟩ := tracks_foldl hsize htracks hfits' hnum'
  refine ⟨htracks.reassembled hsize, ?_⟩
  rw [run, run, List.foldl_append, htracks.ordered.cumulativeAck, htracks'.ordered.cumulativeAck]
  exact Nat.mul_le_mul_right size hle

end Receiver

end Sink

/-- A packet at `NdpSink`, with the state of the pacer at that time. -/
structure SinkArrival where
  packet : NdpPacket
  now : ℕ
  draw : ℕ
  pacer : Pacer

namespace SinkArrival

/-- The sequence number of a packet that was not trimmed. -/
def data (a : SinkArrival) : Option ℕ := if a.packet.isHeader then none else some a.packet.seqno

end SinkArrival

namespace Sink

variable (F : Flow)

def arrive (k : Sink) (a : SinkArrival) : Sink :=
  (k.receivePacket F a.now a.draw a.packet a.pacer).sink

/-- The sink after the packets of a list. -/
def arriveAll (l : List SinkArrival) : Sink := l.foldl (arrive F) initial

theorem Same.record {k k' : Sink} (hs : Same k k') (size seqno : ℕ) :
    Same (k.record size seqno) (k'.record size seqno) := by
  obtain ⟨c, l, _, _⟩ := k
  obtain ⟨c', l', _, _⟩ := k'
  obtain ⟨rfl, rfl⟩ : c' = c ∧ l' = l := ⟨hs.cumulativeAck, hs.received⟩
  unfold Sink.record
  dsimp only
  split_ifs
  · exact ⟨rfl, rfl⟩
  · exact ⟨rfl, rfl⟩
  · cases l'.getLast? with
    | none => exact ⟨rfl, rfl⟩
    | some back =>
      dsimp only
      split_ifs <;> exact ⟨rfl, rfl⟩

/-- A trimmed packet changes nothing, any other one is recorded. -/
theorem arrive_same (k : Sink) (a : SinkArrival) :
    Same (a.data.elim k fun x => k.record F.mss x) (k.arrive F a) := by
  rw [arrive, receivePacket, SinkArrival.data]
  by_cases hh : a.packet.isHeader = true
  · rw [if_pos hh, if_pos hh]
    exact ⟨rfl, rfl⟩
  · obtain ⟨hack, hreceived, -⟩ := noteLast_eq F a.packet k
    have hrecord : Same (k.record F.mss a.packet.seqno)
        ((k.noteLast F a.packet).record F.mss a.packet.seqno) := Same.record ⟨hack, hreceived⟩ _ _
    rw [if_neg hh, if_neg hh]
    dsimp only
    split_ifs <;> exact ⟨hrecord.cumulativeAck, hrecord.received⟩

/-- `NdpSink` as a receiver. -/
def receiver : Receiver Sink SinkArrival F.mss where
  view := id
  start := initial
  step := arrive F
  seqno := SinkArrival.data
  fits _ := True
  view_start := ⟨rfl, rfl⟩
  view_step k a _ := arrive_same F k a

end Sink

structure TcpPacket where
  seqno : ℕ
  dataSeqno : ℕ
  size : ℕ

structure TcpSink where
  cumulativeAck : ℕ
  packets : ℕ
  drops : ℕ
  received : List ℕ

namespace TcpSink

def initial : TcpSink := ⟨0, 0, 0, []⟩

/-- What the sink has in common with `NdpSink`. -/
def view (k : TcpSink) : Sink := ⟨k.cumulativeAck, k.received, 0, 0⟩

/-- The first packet above a new hole also counts the packets in the hole as drops, by
thousands of bytes. -/
def receivePacket (k : TcpSink) (p : TcpPacket) : TcpSink :=
  let r := k.view.record p.size p.seqno
  { cumulativeAck := r.cumulativeAck
    packets := k.packets + p.size
    drops :=
      if k.cumulativeAck + 1 < p.seqno ∧ k.received = [] then
        (k.drops + (1000 + p.seqno - k.cumulativeAck - 1) / 1000) % 2 ^ 32
      else k.drops
    received := r.received }

def receiveAll (l : List TcpPacket) : TcpSink := l.foldl receivePacket initial

def receiver (size : ℕ) : Sink.Receiver TcpSink TcpPacket size where
  view := view
  start := initial
  step := receivePacket
  seqno p := some p.seqno
  fits p := p.size = size
  view_start := ⟨rfl, rfl⟩
  view_step k p hp := by
    subst hp
    exact ⟨rfl, rfl⟩

end TcpSink

/-- The sink that the subflows of a connection share, with `MODEL_RECEIVE_WINDOW` set. -/
structure MultipathTcpSink where
  cumulativeAck : ℕ
  received : List ℕ

namespace MultipathTcpSink

def initial : MultipathTcpSink := ⟨0, []⟩

def view (k : MultipathTcpSink) : Sink := ⟨k.cumulativeAck, k.received, 0, 0⟩

/-- It goes by the sequence numbers of the data. -/
def receivePacket (k : MultipathTcpSink) (p : TcpPacket) : MultipathTcpSink :=
  let r := k.view.record p.size p.dataSeqno
  ⟨r.cumulativeAck, r.received⟩

def receiveAll (l : List TcpPacket) : MultipathTcpSink := l.foldl receivePacket initial

def receiver (size : ℕ) : Sink.Receiver MultipathTcpSink TcpPacket size where
  view := view
  start := initial
  step := receivePacket
  seqno p := some p.dataSeqno
  fits p := p.size = size
  view_start := ⟨rfl, rfl⟩
  view_step k p hp := by
    subst hp
    exact ⟨rfl, rfl⟩

end MultipathTcpSink

/-- The three receivers put the packets of a flow in order, whatever order they arrive in
and whatever arrives twice or not at all. -/
theorem receivers_reassemble :
    (∀ (F : Flow) (l l' : List SinkArrival),
      Numbered F.mss ((l ++ l').filterMap SinkArrival.data) →
      Reassembled F.mss (l.filterMap SinkArrival.data) (Sink.arriveAll F l).cumulativeAck
          (Sink.arriveAll F l).received ∧
        (Sink.arriveAll F l).cumulativeAck ≤ (Sink.arriveAll F (l ++ l')).cumulativeAck) ∧
    ∀ size, 0 < size → ∀ l l' : List TcpPacket, (∀ p ∈ l ++ l', p.size = size) →
      (Numbered size ((l ++ l').map TcpPacket.seqno) →
        Reassembled size (l.map TcpPacket.seqno) (TcpSink.receiveAll l).cumulativeAck
            (TcpSink.receiveAll l).received ∧
          (TcpSink.receiveAll l).cumulativeAck ≤ (TcpSink.receiveAll (l ++ l')).cumulativeAck) ∧
      (Numbered size ((l ++ l').map TcpPacket.dataSeqno) →
        Reassembled size (l.map TcpPacket.dataSeqno) (MultipathTcpSink.receiveAll l).cumulativeAck
            (MultipathTcpSink.receiveAll l).received ∧
          (MultipathTcpSink.receiveAll l).cumulativeAck ≤
            (MultipathTcpSink.receiveAll (l ++ l')).cumulativeAck) := by
  refine ⟨fun F l l' hnum => ?_, fun size hsize l l' hfits => ⟨fun hnum => ?_, fun hnum => ?_⟩⟩
  · exact (Sink.receiver F).reassembled F.mss_pos l l' (fun _ _ => trivial) hnum
  · rw [← List.filterMap_eq_map] at hnum ⊢
    exact (TcpSink.receiver size).reassembled hsize l l' hfits hnum
  · rw [← List.filterMap_eq_map] at hnum ⊢
    exact (MultipathTcpSink.receiver size).reassembled hsize l l' hfits hnum

/-- The third packet arrives before the first one, and once more after it. -/
theorem receivers_reassemble_hole : Numbered 100 [201, 1, 201] ∧
    Reassembled 100 [201, 1, 201] 100 [201] := by
  have hnum : Numbered 100 [201, 1, 201] := by
    intro x hx
    simp only [List.mem_cons, List.not_mem_nil, or_false] at hx
    rcases hx with rfl | rfl | rfl
    · exact ⟨2, rfl⟩
    · exact ⟨0, rfl⟩
    · exact ⟨2, rfl⟩
  have htcp := receivers_reassemble.2 100 (by decide)
    [⟨201, 0, 100⟩, ⟨1, 0, 100⟩, ⟨201, 0, 100⟩] [] (by decide)
  exact ⟨hnum, (htcp.1 hnum).1⟩

end P4Survey.Ndp
