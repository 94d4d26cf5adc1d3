import P4Survey.Lib.Queues
import P4Survey.Lib.System
import P4Survey.NetFpga.Stream

/-! # The output queues of the NDP switch

`nf_ndp_output_queues.v`: each of five ports has a normal and a priority queue. A packet
that arrives is stored in all of its queues or in none of them. The words and the metadata
of a queue are in two instances of `fallthrough_small_fifo`. The counters and the registers
for the host, which only observe the signals, are left out, and so is the reset.
-/

namespace P4Survey.NetFpga

open Lib

namespace OutputQueues

abbrev numQueues : ℕ := 5

/-- The normal and the priority queues. -/
inductive Kind where
  | h
  | p
  deriving DecidableEq

inductive State where
  | idle
  | wrPkt
  | drop
  deriving DecidableEq

inductive MetadataState where
  | waitHeader
  | waitEop
  deriving DecidableEq

inductive OutputState where
  | idleOutputState
  | pqOutputState
  | hqOutputState
  deriving DecidableEq

/-- The queues for a packet, in its metadata. All ports of the host share the last one. -/
def oq (u : BitVec 128) (k : Kind) (i : Fin numQueues) : Bool :=
  let pos := match k with
    | .h => 24
    | .p => 32
  if i.val < 4 then u.getLsbD (pos + 2 * i.val)
  else u.getLsbD (pos + 1) || u.getLsbD (pos + 3) || u.getLsbD (pos + 5) || u.getLsbD (pos + 7)

/-- One queue of words with their metadata. -/
structure Queue (FD : Fifo Word) (FM : Fifo (BitVec 128)) where
  outputFifo : FD.State
  metadataFifo : FM.State
  metadataState : MetadataState

variable {FD : Fifo Word} {FM : Fifo (BitVec 128)}

namespace Queue

variable (q : Queue FD FM)

def empty : Bool := FD.empty q.outputFifo

/-- The word that the queue shows, with the metadata. -/
def dout : Beat := ⟨FD.dout q.outputFifo, FM.dout q.metadataFifo⟩

/-- Either of the two is too full for a packet. -/
def full : Bool := FD.progFull q.outputFifo || FM.nearlyFull q.metadataFifo

/-- Metadata is read with the first word of a packet. -/
def metadataRdEn (rdEn : Bool) : Bool :=
  match q.metadataState with
  | .waitHeader => rdEn
  | .waitEop => false

def metadataStateNext (rdEn : Bool) : MetadataState :=
  match q.metadataState with
  | .waitHeader => if rdEn then .waitEop else .waitHeader
  | .waitEop => if rdEn && q.dout.tlast then .waitHeader else .waitEop

def clock (wr : Option Beat) (metadataWrEn rdEn : Bool) : Queue FD FM where
  outputFifo := FD.clock q.outputFifo (wr.map (·.toWord)) rdEn
  metadataFifo := FM.clock q.metadataFifo (if metadataWrEn then wr.map (·.tuser) else none)
    (q.metadataRdEn rdEn)
  metadataState := q.metadataStateNext rdEn

def init : Queue FD FM := ⟨FD.init, FM.init, .waitHeader⟩

/-- The ages of the words with which packets start. -/
def firsts (started : Bool) : List (Word × ℕ) → List ℕ
  | [] => []
  | p :: l => (if started then [] else [p.2]) ++ firsts (!p.1.tlast) l

def beats (l : List (Word × ℕ)) : List Beat := l.map fun p => ⟨p.1, 0#128⟩

theorem firsts_append (started : Bool) (l l' : List (Word × ℕ)) :
    firsts started (l ++ l') = firsts started l ++ firsts (midPacket started (beats l)) l' := by
  induction l generalizing started with
  | nil => rfl
  | cons p l ih =>
    rw [List.cons_append, firsts, ih, firsts, List.append_assoc]
    rfl

theorem firsts_aged (started : Bool) (l : List (Word × ℕ)) :
    firsts started (l.map fun p => (p.1, p.2 + 1)) = (firsts started l).map (· + 1) := by
  induction l generalizing started with
  | nil => rfl
  | cons p l ih =>
    rw [List.map_cons, firsts, ih, firsts, List.map_append]
    cases started <;> rfl

theorem beats_aged (l : List (Word × ℕ)) : beats (l.map fun p => (p.1, p.2 + 1)) = beats l := by
  simp [beats, Function.comp_def]

/-- What the queue holds of the words that were stored in it is what has not left. Metadata is
written and read with the first words of packets, and so ages with them. -/
structure Holds (stored out : List Beat) : Prop where
  words : stored.map (·.toWord) = out.map (·.toWord) ++ FD.contents q.outputFifo
  headers : headers false stored = headers false out ++ FM.contents q.metadataFifo
  ages : (FM.held q.metadataFifo).map (·.2) =
    firsts (midPacket false out) (FD.held q.outputFifo)
  state : q.metadataState = if midPacket false out then .waitEop else .waitHeader

variable {q} {stored out : List Beat}

theorem Holds.started (h : q.Holds stored out) :
    midPacket (midPacket false out) (beats (FD.held q.outputFifo)) = midPacket false stored := by
  rw [← midPacket_append]
  apply midPacket_congr
  rw [h.words, List.map_append, beats, List.map_map]
  rfl

/-- The first word of a packet is not the last one. -/
theorem Holds.first (h : q.Holds stored out) (hD : FD.Lawful)
    (hframed : Framed (fun _ => True) false stored) (he : q.empty = false)
    (hmid : midPacket false out = false) : q.dout.tlast = false := by
  obtain ⟨a, l, hl⟩ := hD.shown _ he
  have hwords : stored.map (·.toWord) =
      (out ++ beats (FD.held q.outputFifo)).map (·.toWord) := by
    rw [h.words, List.map_append, beats, List.map_map]
    rfl
  have hrest := (framed_append.1 (framed_congr hwords hframed)).2
  rw [hmid, hl] at hrest
  exact hrest.2.1

/-- With the first word of a packet the queue shows its metadata. -/
theorem Holds.metadata_shown (h : q.Holds stored out) (hD : FD.Lawful) (hM : FM.Lawful)
    (hlat : FM.latency = FD.latency) (he : q.empty = false) (hmid : midPacket false out = false) :
    FM.empty q.metadataFifo = false := by
  obtain ⟨p, hp, hle⟩ := (hD.nonempty_iff _).1 he
  obtain ⟨l, hl⟩ := List.head?_eq_some_iff.1 hp
  have hages := h.ages
  rw [hmid, hl, firsts, if_neg Bool.false_ne_true, List.singleton_append] at hages
  obtain ⟨m, l', hm, hmp, -⟩ := List.map_eq_cons_iff.1 hages
  rw [hM.nonempty_iff, hm]
  exact ⟨m, rfl, by rw [hlat, hmp]; exact hle⟩

/-- In the middle of a packet no metadata is read. -/
theorem Holds.metadataRdEn (h : q.Holds stored out) (rdEn : Bool) :
    q.metadataRdEn rdEn = (rdEn && !midPacket false out) := by
  rw [Queue.metadataRdEn, h.state]
  cases midPacket false out <;> simp

theorem Holds.metadataStateNext (h : q.Holds stored out) {rdEn : Bool}
    (hfirst : rdEn = true → midPacket false out = false → q.dout.tlast = false) :
    q.metadataStateNext rdEn =
      if midPacket false (out ++ if rdEn then [q.dout] else []) then .waitEop else .waitHeader := by
  rw [Queue.metadataStateNext, h.state]
  cases rdEn with
  | false => cases hmid : midPacket false out <;> simp [hmid]
  | true =>
    have hlast : midPacket false (out ++ if true = true then [q.dout] else []) = !q.dout.tlast :=
      midPacket_concat ..
    rw [hlast]
    cases hmid : midPacket false out with
    | false =>
      rw [hfirst rfl hmid]
      rfl
    | true => cases q.dout.tlast <;> rfl

/-- What is left of the words and the metadata after a word was read. -/
theorem Holds.read (h : q.Holds stored out) (hD : FD.Lawful) {rdEn : Bool}
    (hrd : rdEn = true → q.empty = false) :
    midPacket (midPacket false (out ++ if rdEn then [q.dout] else []))
        (beats (if rdEn then (FD.held q.outputFifo).tail else FD.held q.outputFifo)) =
      midPacket false stored ∧
    (if rdEn && !midPacket false out then (FM.held q.metadataFifo).tail
        else FM.held q.metadataFifo).map (·.2) =
      firsts (midPacket false (out ++ if rdEn then [q.dout] else []))
        (if rdEn then (FD.held q.outputFifo).tail else FD.held q.outputFifo) := by
  have hstarted := h.started
  have hages := h.ages
  cases rdEn with
  | false =>
    simp only [Bool.false_eq_true, if_false, List.append_nil, Bool.false_and]
    exact ⟨hstarted, hages⟩
  | true =>
    obtain ⟨a, l, hl⟩ := hD.shown _ (hrd rfl)
    have hlast : midPacket false (out ++ if true = true then [q.dout] else []) = !q.dout.tlast :=
      midPacket_concat ..
    rw [hl] at hstarted hages
    rw [hlast, hl]
    refine ⟨hstarted, ?_⟩
    rw [firsts] at hages
    cases hmid : midPacket false out with
    | false =>
      rw [hmid, if_neg Bool.false_ne_true, List.singleton_append] at hages
      change (FM.held q.metadataFifo).tail.map (·.2) = _
      rw [List.map_tail, hages]
      rfl
    | true =>
      rw [hmid, if_pos rfl, List.nil_append] at hages
      exact hages

theorem Holds.clock (h : q.Holds stored out) (hD : FD.Lawful) (hM : FM.Lawful)
    (hlat : FM.latency = FD.latency) {wr : Option Beat} {metadataWrEn rdEn : Bool}
    (hrd : rdEn = true → q.empty = false)
    (hfirst : rdEn = true → midPacket false out = false → q.dout.tlast = false)
    (hwr : wr.isSome = true → (FD.contents q.outputFifo).length < FD.capacity)
    (hstart : wr.isSome = true → metadataWrEn = !midPacket false stored)
    (hroom : metadataWrEn = true → wr.isSome = true → FM.nearlyFull q.metadataFifo = false) :
    (q.clock wr metadataWrEn rdEn).Holds (stored ++ wr.toList)
      (out ++ if rdEn then [q.dout] else []) := by
  have hreadyD : FD.Ready q.outputFifo (wr.map (·.toWord)) rdEn := by
    refine ⟨hrd, fun hsome => .inr (hwr ?_)⟩
    rwa [Option.isSome_map] at hsome
  have hreadyM : FM.Ready q.metadataFifo (if metadataWrEn then wr.map (·.tuser) else none)
      (q.metadataRdEn rdEn) := by
    constructor
    · intro hmrd
      rw [h.metadataRdEn, Bool.and_eq_true, Bool.not_eq_true'] at hmrd
      exact h.metadata_shown hD hM hlat (hrd hmrd.1) hmrd.2
    · intro hsome
      split_ifs at hsome with hm
      · rw [Option.isSome_map] at hsome
        exact .inl (hroom hm hsome)
      · cases hsome
  have hwritten : (if metadataWrEn then wr.map (·.tuser) else none).toList =
      NetFpga.headers (midPacket false stored) wr.toList := by
    cases wr with
    | none => cases metadataWrEn <;> rfl
    | some w =>
      rw [hstart rfl]
      cases midPacket false stored <;> rfl
  refine ⟨?_, ?_, ?_, h.metadataStateNext hfirst⟩
  · rw [List.map_append, h.words]
    change _ = _ ++ FD.contents (FD.clock _ _ _)
    rw [hD.contents_clock hreadyD]
    cases rdEn with
    | false => simp [Option.toList_map]
    | true =>
      obtain ⟨l, hl⟩ := hD.contents_shown (hrd rfl)
      simp [hl, Option.toList_map, dout]
  · rw [headers_append, h.headers]
    change _ = _ ++ FM.contents (FM.clock _ _ _)
    rw [hM.contents_clock hreadyM, hwritten, h.metadataRdEn]
    cases rdEn with
    | false => simp
    | true =>
      cases hmid : midPacket false out with
      | true => simp [headers_append, hmid, NetFpga.headers]
      | false =>
        obtain ⟨l, hl⟩ := hM.contents_shown (h.metadata_shown hD hM hlat (hrd rfl) hmid)
        simp [headers_append, hmid, NetFpga.headers, hl, dout]
  · change (FM.held (FM.clock _ _ _)).map (·.2) = firsts _ (FD.held (FD.clock _ _ _))
    obtain ⟨hmid, hages⟩ := h.read hD hrd
    rw [hM.clock _ _ _ hreadyM, hD.clock _ _ _ hreadyD, firsts_append, firsts_aged, beats_aged,
      List.map_append, h.metadataRdEn, hmid, ← hages, List.map_map, List.map_map, List.map_map]
    congr 1
    cases wr with
    | none => cases metadataWrEn <;> rfl
    | some w =>
      rw [hstart rfl]
      cases midPacket false stored <;> rfl

end Queue

/-- What the block for a port computes. -/
structure PortLogic where
  selOut : Kind
  outputStateNext : OutputState
  rdEn : Kind → Bool
  mAxisTvalid : Bool
  ctrNext : BitVec 5

/-- The counter has five bits. -/
def portLogic (st : OutputState) (ctr : BitVec 5) (mAxisTready : Bool) (empty tlast : Kind → Bool) :
    PortLogic :=
  match st with
  | .idleOutputState =>
    if mAxisTready then
      if !empty .p then ⟨.p, .pqOutputState, fun k => k == .p, true, ctr⟩
      else if !empty .h then ⟨.h, .hqOutputState, fun k => k == .h, true, ctr⟩
      else ⟨.h, st, fun _ => false, false, ctr⟩
    else ⟨.h, st, fun _ => false, false, ctr⟩
  | .pqOutputState =>
    if !empty .p && mAxisTready then
      if tlast .p then
        if ctr.setWidth 8 == 0x64#8 && !empty .h then
          ⟨.p, .hqOutputState, fun k => k == .p, true, 0#5⟩
        else if ctr.setWidth 8 == 0x64#8 then ⟨.p, .idleOutputState, fun k => k == .p, true, 0#5⟩
        else ⟨.p, .idleOutputState, fun k => k == .p, true, ctr + 1#5⟩
      else ⟨.p, st, fun k => k == .p, true, ctr⟩
    else ⟨.p, st, fun _ => false, false, ctr⟩
  | .hqOutputState =>
    if !empty .h && mAxisTready then
      ⟨.h, if tlast .h then .idleOutputState else st, fun k => k == .h, true, ctr⟩
    else ⟨.h, st, fun _ => false, false, ctr⟩

end OutputQueues

structure OutputQueues (FD : Fifo Word) (FM : Fifo (BitVec 128)) where
  state : OutputQueues.State
  curQueue : OutputQueues.Kind → Fin OutputQueues.numQueues → Bool
  queue : OutputQueues.Kind → Fin OutputQueues.numQueues → OutputQueues.Queue FD FM
  outputState : Fin OutputQueues.numQueues → OutputQueues.OutputState
  ctr : Fin OutputQueues.numQueues → BitVec 5

namespace OutputQueues

variable {FD : Fifo Word} {FM : Fifo (BitVec 128)} (s : OutputQueues FD FM)

/-- The signals from outside in a cycle. Everything that arrives is taken. -/
structure Cycle where
  sAxis : Option Beat
  mAxisTready : Fin numQueues → Bool

/-- Whether one of the queues for a packet is too full. -/
def refuses (w : Beat) : Bool :=
  (List.finRange numQueues).any fun i =>
    (s.queue .h i).full && oq w.tuser .h i || (s.queue .p i).full && oq w.tuser .p i

/-- What the block for the input computes: the next state, the queues that are written, and
whether metadata is. -/
structure WriteLogic where
  stateNext : State
  wrEn : Kind → Fin numQueues → Bool
  metadataWrEn : Bool

def writeLogic : Option Beat → WriteLogic
  | none => ⟨s.state, fun _ _ => false, false⟩
  | some w =>
    match s.state with
    | .idle =>
      if s.refuses w then ⟨.drop, fun _ _ => false, false⟩ else ⟨.wrPkt, oq w.tuser, true⟩
    | .wrPkt => ⟨if w.tlast then .idle else .wrPkt, s.curQueue, false⟩
    | .drop => ⟨if w.tlast then .idle else .drop, fun _ _ => false, false⟩

def port (mAxisTready : Bool) (i : Fin numQueues) : PortLogic :=
  portLogic (s.outputState i) (s.ctr i) mAxisTready (fun k => (s.queue k i).empty)
    fun k => (s.queue k i).dout.tlast

def clock (c : Cycle) : OutputQueues FD FM :=
  let l := s.writeLogic c.sAxis
  { state := l.stateNext
    -- What is latched without a word is latched again with the first one.
    curQueue := match s.state, c.sAxis with
      | .idle, some w => oq w.tuser
      | _, _ => s.curQueue
    queue := fun k i => (s.queue k i).clock (if l.wrEn k i then c.sAxis else none) l.metadataWrEn
      ((s.port (c.mAxisTready i) i).rdEn k)
    outputState := fun i => (s.port (c.mAxisTready i) i).outputStateNext
    ctr := fun i => (s.port (c.mAxisTready i) i).ctrNext }

/-- The word that leaves at a port, with the kind of its queue. -/
def output (c : Cycle) (i : Fin numQueues) : Option (Kind × Beat) :=
  let l := s.port (c.mAxisTready i) i
  if l.mAxisTvalid && c.mAxisTready i then some (l.selOut, (s.queue l.selOut i).dout) else none

/-! ## A port -/

/-- The state in which a queue is read to the end of a packet. -/
def Kind.outputState : Kind → OutputState
  | .h => .hqOutputState
  | .p => .pqOutputState

/-- What a port can do in a cycle. -/
inductive PortActs (st : OutputState) (mAxisTready : Bool) (empty tlast : Kind → Bool) :
    PortLogic → Prop
  | waits (k : Kind) (ctr : BitVec 5) :
      PortActs st mAxisTready empty tlast ⟨k, st, fun _ => false, false, ctr⟩
  | begins (k : Kind) (ctr : BitVec 5) (hst : st = .idleOutputState) (hr : mAxisTready = true)
      (he : empty k = false) (hp : k = .h → empty .p = true) :
      PortActs st mAxisTready empty tlast ⟨k, k.outputState, fun k' => k' == k, true, ctr⟩
  | goesOn (k : Kind) (ctr : BitVec 5) (hst : st = k.outputState) (hr : mAxisTready = true)
      (he : empty k = false) :
      PortActs st mAxisTready empty tlast
        ⟨k, if tlast k then .idleOutputState else st, fun k' => k' == k, true, ctr⟩

/-- Five bits are never `8'h64`. -/
theorem ctr_ne (ctr : BitVec 5) : (ctr.setWidth 8 == 0x64#8) = false := by
  revert ctr
  decide

theorem portLogic_acts (st : OutputState) (ctr : BitVec 5) (mAxisTready : Bool)
    (empty tlast : Kind → Bool) :
    PortActs st mAxisTready empty tlast (portLogic st ctr mAxisTready empty tlast) := by
  cases st with
  | idleOutputState =>
    rw [portLogic]
    split_ifs with hr hp hh
    · exact .begins .p ctr rfl hr (by simpa using hp) nofun
    · exact .begins .h ctr rfl hr (by simpa using hh) fun _ => by simpa using hp
    · exact .waits ..
    · exact .waits ..
  | pqOutputState =>
    rw [portLogic, ctr_ne, Bool.false_and, if_neg Bool.false_ne_true, if_neg Bool.false_ne_true]
    split_ifs with hr hlast
    · obtain ⟨he, hr⟩ := Bool.and_eq_true_iff.1 hr
      have hgo : PortActs _ _ empty tlast _ := .goesOn .p (ctr + 1#5) rfl hr (by simpa using he)
      rw [if_pos hlast] at hgo
      exact hgo
    · obtain ⟨he, hr⟩ := Bool.and_eq_true_iff.1 hr
      have hgo : PortActs _ _ empty tlast _ := .goesOn .p ctr rfl hr (by simpa using he)
      rw [if_neg hlast] at hgo
      exact hgo
    · exact .waits ..
  | hqOutputState =>
    by_cases hr : (!empty .h && mAxisTready) = true
    · rw [portLogic, if_pos hr]
      obtain ⟨he, hr⟩ := Bool.and_eq_true_iff.1 hr
      exact .goesOn .h ctr rfl hr (by simpa using he)
    · rw [portLogic, if_neg hr]
      exact .waits ..

theorem port_acts (mAxisTready : Bool) (i : Fin numQueues) :
    PortActs (s.outputState i) mAxisTready (fun k => (s.queue k i).empty)
      (fun k => (s.queue k i).dout.tlast) (s.port mAxisTready i) :=
  portLogic_acts ..

section Port

variable {s} {c : Cycle} {i : Fin numQueues}

/-- What leaves is what is read. -/
theorem output_eq (k : Kind) : ((s.output c i).filter fun p => p.1 = k).map (·.2) =
    if (s.port (c.mAxisTready i) i).rdEn k then some (s.queue k i).dout else none := by
  have hacts := s.port_acts (c.mAxisTready i) i
  rw [output]
  generalize s.port (c.mAxisTready i) i = l at hacts
  cases hacts with
  | waits => rfl
  | begins k' ctr hst hr =>
    rw [hr]
    by_cases hk : k = k'
    · simp [hk]
    · simp [hk, Ne.symm hk]
  | goesOn k' ctr hst hr =>
    rw [hr]
    by_cases hk : k = k'
    · simp [hk]
    · simp [hk, Ne.symm hk]

end Port

end OutputQueues

end P4Survey.NetFpga
