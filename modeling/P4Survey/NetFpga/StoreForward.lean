import P4Survey.NetFpga.OutputQueues

/-! # Packets through the output queues

Each packet is stored in all of its queues or in none of them. What a queue stores leaves
in order, with its metadata, and unmixed with the packets of the other queue of the port.
-/

namespace P4Survey.NetFpga

open Lib OutputQueues

/-- The packets that arrived, each with whether it was stored, and the one under way. -/
structure Log where
  packets : List (List Beat × Bool)
  packet : List Beat
  taken : Bool

namespace Log

def start : Log := ⟨[], [], false⟩

/-- Whether a packet goes to a queue. -/
def selects (p : List Beat) (k : Kind) (i : Fin numQueues) : Bool :=
  p.head?.any fun w => oq w.tuser k i

section Add

variable (l : Log) (w : Beat) (refused : Bool)

/-- Whether the packet is stored that a word belongs to. -/
def takes : Bool := if l.packet = [] then !refused else l.taken

def add : Log :=
  if w.tlast then ⟨l.packets ++ [(l.packet ++ [w], l.takes refused)], [], false⟩
  else ⟨l.packets, l.packet ++ [w], l.takes refused⟩

/-- All words that arrived. -/
def words : List Beat := l.packets.flatMap (·.1) ++ l.packet

/-- The words that were stored in a queue. -/
def stored (k : Kind) (i : Fin numQueues) : List Beat :=
  (l.packets.filter fun p => p.2 && selects p.1 k i).flatMap (·.1) ++
    if l.taken && selects l.packet k i then l.packet else []

end Add

/-- Packets are whole, and the one under way has not ended. -/
structure Valid (l : Log) : Prop where
  whole : ∀ p ∈ l.packets, IsPacket p.1
  begun : ∀ w ∈ l.packet, w.tlast = false

variable {l : Log} {w : Beat} {refused : Bool}

theorem words_add : (l.add w refused).words = l.words ++ [w] := by
  rw [add]
  split_ifs <;> simp [words]

theorem selects_append (k : Kind) (i : Fin numQueues) (hp : l.packet ≠ []) :
    selects (l.packet ++ [w]) k i = selects l.packet k i := by
  rw [selects, selects, List.head?_append_of_ne_nil _ hp]

theorem stored_add (k : Kind) (i : Fin numQueues) : (l.add w refused).stored k i =
    l.stored k i ++
      if l.takes refused && selects (l.packet ++ [w]) k i then [w] else [] := by
  have hunder : (if l.takes refused && selects (l.packet ++ [w]) k i then l.packet ++ [w] else []) =
      (if l.taken && selects l.packet k i then l.packet else []) ++
        if l.takes refused && selects (l.packet ++ [w]) k i then [w] else [] := by
    by_cases hp : l.packet = []
    · rw [hp]
      simp [selects]
    · rw [takes, if_neg hp, selects_append k i hp]
      cases l.taken && selects l.packet k i <;> rfl
  rw [add]
  by_cases hlast : w.tlast = true
  · rw [if_pos hlast, stored, stored, List.append_assoc, ← hunder, List.filter_append,
      List.flatMap_append]
    cases h : l.takes refused && selects (l.packet ++ [w]) k i <;> simp [h]
  · rw [if_neg hlast, stored, stored, List.append_assoc, ← hunder]

theorem Valid.add (h : l.Valid) (hfirst : l.packet = [] → w.tlast = false) :
    (l.add w refused).Valid := by
  rw [Log.add]
  by_cases hlast : w.tlast = true
  · rw [if_pos hlast]
    refine ⟨fun p hp => ?_, fun x hx => absurd hx List.not_mem_nil⟩
    rcases List.mem_append.1 hp with hp | hp
    · exact h.whole p hp
    · rw [List.mem_singleton.1 hp]
      exact ⟨_, _, rfl, fun hnil => absurd (hlast.symm.trans (hfirst hnil)) (by decide), h.begun,
        hlast⟩
  · rw [if_neg hlast]
    refine ⟨h.whole, fun x hx => ?_⟩
    rcases List.mem_append.1 hx with hx | hx
    · exact h.begun x hx
    · rw [List.mem_singleton.1 hx]
      exact (Bool.not_eq_true _).mp hlast

theorem Valid.whole_stored (h : l.Valid) {k : Kind} {i : Fin numQueues} :
    ∀ p ∈ l.packets.filter fun p => p.2 && selects p.1 k i, IsPacket p.1 :=
  fun p hp => h.whole p (List.mem_of_mem_filter hp)

/-- A queue has got the beginning of a packet if one is stored in it. -/
theorem Valid.midPacket_stored (h : l.Valid) (k : Kind) (i : Fin numQueues) :
    midPacket false (l.stored k i) = (l.taken && selects l.packet k i) := by
  rw [stored, midPacket_append, midPacket_flatMap h.whole_stored]
  cases htaken : l.taken && selects l.packet k i with
  | false => rfl
  | true =>
    rw [if_pos rfl]
    refine midPacket_begun h.begun fun hp => ?_
    rw [hp, selects] at htaken
    simp at htaken

/-- Between packets none is under way. -/
theorem Valid.packet_eq_nil (h : l.Valid) (hmid : midPacket false l.words = false) :
    l.packet = [] := by
  by_contra hp
  rw [words, midPacket_append, midPacket_begun h.begun hp] at hmid
  cases hmid

theorem Valid.framed_stored (h : l.Valid) (k : Kind) (i : Fin numQueues) :
    Framed (fun _ => True) false (l.stored k i) := by
  have hwhole := h.whole_stored (k := k) (i := i)
  have hbegun : Framed (fun _ => True) false
      (if l.taken && selects l.packet k i then l.packet else []) := by
    split_ifs
    · exact framed_begun h.begun
    · trivial
  rw [stored, framed_append, midPacket_flatMap hwhole]
  exact ⟨framed_flatMap hwhole, hbegun⟩

end Log

/-- The queues, with the packets that arrived and the words that left at each port. -/
structure Stored (FD : Fifo Word) (FM : Fifo (BitVec 128)) where
  oqs : OutputQueues FD FM
  log : Log
  out : Fin numQueues → List (Kind × Beat)

namespace Stored

variable {FD : Fifo Word} {FM : Fifo (BitVec 128)}

def start : Stored FD FM :=
  ⟨⟨.idle, fun _ _ => false, fun _ _ => .init, fun _ => .idleOutputState, fun _ => 0#5⟩, .start,
    fun _ => []⟩

def clock (s : Stored FD FM) (c : Cycle) : Stored FD FM where
  oqs := s.oqs.clock c
  log := c.sAxis.elim s.log fun w => s.log.add w (s.oqs.refuses w)
  out := fun i => s.out i ++ (s.oqs.output c i).toList

/-- Packets of at least two and at most `maxWords` words arrive. -/
def outputQueues (FD : Fifo Word) (FM : Fifo (BitVec 128)) (maxWords : ℕ) :
    System (Stored FD FM) Cycle where
  init s := s = start
  enabled s c := ∀ w ∈ c.sAxis,
    (s.log.packet = [] → w.tlast = false) ∧ s.log.packet.length < maxWords
  next := clock

instance (maxWords : ℕ) (s : Stored FD FM) (c : Cycle) :
    Decidable ((outputQueues FD FM maxWords).enabled s c) :=
  inferInstanceAs (Decidable (∀ w ∈ c.sAxis, _))

structure Inv (s : Stored FD FM) : Prop where
  valid : s.log.Valid
  state : s.oqs.state =
    if s.log.packet = [] then .idle else if s.log.taken then .wrPkt else .drop
  cur : s.log.packet ≠ [] → s.oqs.curQueue = Log.selects s.log.packet
  room : ∀ k i, (s.log.taken && Log.selects s.log.packet k i) = true →
    (FD.contents (s.oqs.queue k i).outputFifo).length ≤ FD.progLimit + s.log.packet.length
  fits : ∀ k i, (FD.contents (s.oqs.queue k i).outputFifo).length ≤ FD.capacity
  holds : ∀ k i, (s.oqs.queue k i).Holds (s.log.stored k i) (forwarded (s.out i) k)
  mid : ∀ k i, midPacket false (forwarded (s.out i) k) =
    decide (s.oqs.outputState i = k.outputState)
  unmixed : ∀ i, Unmixed (s.out i)
  last : ∀ i, ∀ p ∈ (s.out i).getLast?, p.2.tlast = false →
    s.oqs.outputState i = p.1.outputState

variable {maxWords : ℕ} {s : Stored FD FM} {c : Cycle}

/-! ### The input -/

/-- A word is written into the queues of its packet if that is stored. -/
theorem Inv.wrEn (h : Inv s) (w : Beat) (k : Kind) (i : Fin numQueues) :
    (s.oqs.writeLogic (some w)).wrEn k i =
      (s.log.takes (s.oqs.refuses w) && Log.selects (s.log.packet ++ [w]) k i) := by
  have hstate := h.state
  by_cases hp : s.log.packet = []
  · rw [if_pos hp] at hstate
    rw [writeLogic, hstate, Log.takes, if_pos hp, hp]
    cases s.oqs.refuses w with
    | false => simp [Log.selects]
    | true => rfl
  · rw [if_neg hp] at hstate
    rw [Log.takes, if_neg hp, Log.selects_append k i hp, writeLogic]
    cases htaken : s.log.taken with
    | false =>
      rw [htaken, if_neg Bool.false_ne_true] at hstate
      rw [hstate]
      rfl
    | true =>
      rw [htaken, if_pos rfl] at hstate
      rw [hstate]
      change s.oqs.curQueue k i = _
      rw [h.cur hp, Bool.true_and]

/-- Metadata is written with the first word of a packet. -/
theorem Inv.metadataWrEn (h : Inv s) {w : Beat} {k : Kind} {i : Fin numQueues}
    (hwr : (s.oqs.writeLogic (some w)).wrEn k i = true) :
    (s.oqs.writeLogic (some w)).metadataWrEn = !midPacket false (s.log.stored k i) := by
  have hstate := h.state
  rw [h.wrEn] at hwr
  obtain ⟨htakes, hsel⟩ := Bool.and_eq_true_iff.1 hwr
  rw [h.valid.midPacket_stored]
  by_cases hp : s.log.packet = []
  · rw [if_pos hp] at hstate
    rw [Log.takes, if_pos hp, Bool.not_eq_true'] at htakes
    rw [writeLogic, hstate, htakes, hp]
    simp [Log.selects]
  · rw [Log.takes, if_neg hp] at htakes
    rw [Log.selects_append k i hp] at hsel
    rw [if_neg hp, htakes, if_pos rfl] at hstate
    rw [writeLogic, hstate, htakes, hsel]
    rfl

/-- A packet is not refused if all of its queues have room. -/
theorem full_of_refuses {w : Beat} {k : Kind} {i : Fin numQueues}
    (hr : s.oqs.refuses w = false) (hq : oq w.tuser k i = true) :
    (s.oqs.queue k i).full = false := by
  rw [refuses, List.any_eq_false] at hr
  have hi := hr i (List.mem_finRange i)
  cases k with
  | h =>
    rw [hq] at hi
    simp only [Bool.and_true, Bool.or_eq_true, not_or] at hi
    exact (Bool.not_eq_true _).mp hi.1
  | p =>
    rw [hq] at hi
    simp only [Bool.and_true, Bool.or_eq_true, not_or] at hi
    exact (Bool.not_eq_true _).mp hi.2

/-- When a packet starts its queues have room for all of it. -/
theorem Inv.space (h : Inv s) (hD : FD.Lawful) {w : Beat} {k : Kind} {i : Fin numQueues}
    (hwr : (s.oqs.writeLogic (some w)).wrEn k i = true) :
    (FD.contents (s.oqs.queue k i).outputFifo).length ≤ FD.progLimit + s.log.packet.length ∧
      ((s.oqs.writeLogic (some w)).metadataWrEn = true →
        FM.nearlyFull (s.oqs.queue k i).metadataFifo = false) := by
  have hmeta := h.metadataWrEn hwr
  rw [h.wrEn] at hwr
  obtain ⟨htakes, hsel⟩ := Bool.and_eq_true_iff.1 hwr
  by_cases hp : s.log.packet = []
  · rw [Log.takes, if_pos hp, Bool.not_eq_true'] at htakes
    rw [hp] at hsel ⊢
    have hfull := full_of_refuses htakes (show oq w.tuser k i = true from hsel)
    rw [Queue.full, Bool.or_eq_false_iff] at hfull
    exact ⟨hD.prog _ hfull.1, fun _ => hfull.2⟩
  · rw [Log.takes, if_neg hp] at htakes
    rw [Log.selects_append k i hp] at hsel
    refine ⟨h.room k i (by rw [htakes, hsel]; rfl), fun hm => ?_⟩
    rw [hmeta, h.valid.midPacket_stored, htakes, hsel] at hm
    exact absurd hm (by decide)

/-! ### The ports -/

/-- What leaves at a port in a cycle, and whether a packet is under way there. -/
theorem Inv.port_cases (h : Inv s) (hD : FD.Lawful) (c : Cycle) (i : Fin numQueues) :
    (s.oqs.output c i = none ∧ (s.clock c).oqs.outputState i = s.oqs.outputState i) ∨
      ∃ k, s.oqs.output c i = some (k, (s.oqs.queue k i).dout) ∧
        (s.clock c).oqs.outputState i =
          (if (s.oqs.queue k i).dout.tlast then .idleOutputState else k.outputState) ∧
        (s.oqs.queue k i).empty = false ∧
        (s.oqs.outputState i = .idleOutputState ∧ (k = .h → (s.oqs.queue .p i).empty = true) ∨
          s.oqs.outputState i = k.outputState) := by
  have hacts := s.oqs.port_acts (c.mAxisTready i) i
  have hnext : (s.clock c).oqs.outputState i =
      (s.oqs.port (c.mAxisTready i) i).outputStateNext := rfl
  rw [hnext, OutputQueues.output]
  generalize s.oqs.port (c.mAxisTready i) i = l at hacts
  cases hacts with
  | waits => exact .inl ⟨rfl, rfl⟩
  | begins k ctr hst hr he hp =>
    have hmid : midPacket false (forwarded (s.out i) k) = false := by
      rw [h.mid, hst]
      cases k <;> rfl
    have hlast := (h.holds k i).first hD (h.valid.framed_stored k i) he hmid
    refine .inr ⟨k, by rw [hr]; rfl, ?_, he, .inl ⟨hst, hp⟩⟩
    rw [hlast]
    rfl
  | goesOn k ctr hst hr he =>
    refine .inr ⟨k, by rw [hr]; rfl, ?_, he, .inr hst⟩
    rw [hst]

theorem outputState_inj {k k' : Kind} (h : k.outputState = k'.outputState) : k = k' := by
  cases k <;> cases k' <;> first | rfl | cases h

theorem Inv.port_clock (h : Inv s) (hD : FD.Lawful) (c : Cycle) (i : Fin numQueues) :
    (∀ k, midPacket false (forwarded ((s.clock c).out i) k) =
        decide ((s.clock c).oqs.outputState i = k.outputState)) ∧
      Unmixed ((s.clock c).out i) ∧
      ∀ p ∈ ((s.clock c).out i).getLast?, p.2.tlast = false →
        (s.clock c).oqs.outputState i = p.1.outputState := by
  have hout : (s.clock c).out i = s.out i ++ (s.oqs.output c i).toList := rfl
  rcases h.port_cases hD c i with ⟨hnone, hst⟩ | ⟨k, hsome, hst, -, hbusy⟩
  · rw [hout, hnone, hst, Option.toList_none, List.append_nil]
    exact ⟨fun k => h.mid k i, h.unmixed i, h.last i⟩
  · rw [hout, hsome, hst, Option.toList_some]
    refine ⟨fun k' => ?_, ?_, fun p hp hlast => ?_⟩
    · rw [forwarded_concat]
      by_cases hk : k' = k
      · rw [if_pos hk, midPacket_concat, hk]
        cases (s.oqs.queue k i).dout.tlast <;> cases k <;> rfl
      · have hother : decide (s.oqs.outputState i = k'.outputState) = false := by
          rcases hbusy with ⟨hidle, -⟩ | hbusy
          · rw [hidle]
            cases k' <;> rfl
          · rw [hbusy]
            exact decide_eq_false fun heq => hk (outputState_inj heq).symm
        rw [if_neg hk, List.append_nil, h.mid, hother, eq_comm]
        cases (s.oqs.queue k i).dout.tlast with
        | true => cases k' <;> rfl
        | false => exact decide_eq_false fun heq => hk (outputState_inj heq).symm
    · refine (h.unmixed i).append (.singleton _) fun p hp q hq hlast => ?_
      obtain rfl := Option.some.inj hq
      have hp' := h.last i p hp hlast
      rcases hbusy with ⟨hidle, -⟩ | hbusy
      · rw [hidle] at hp'
        cases hk : p.1 <;> rw [hk] at hp' <;> cases hp'
      · exact outputState_inj (hbusy.symm.trans hp')
    · rw [List.getLast?_concat] at hp
      obtain rfl := Option.some.inj hp
      rw [show (s.oqs.queue k i).dout.tlast = false from hlast]
      rfl

/-- A queue is read when a word of it leaves. -/
theorem forwarded_clock (s : Stored FD FM) (c : Cycle) (k : Kind) (i : Fin numQueues) :
    forwarded ((s.clock c).out i) k = forwarded (s.out i) k ++
      if (s.oqs.port (c.mAxisTready i) i).rdEn k then [(s.oqs.queue k i).dout] else [] := by
  have hout : (s.clock c).out i = s.out i ++ (s.oqs.output c i).toList := rfl
  have hleaves := output_eq (s := s.oqs) (c := c) (i := i) k
  rw [hout, forwarded, List.filter_append, List.map_append, ← forwarded]
  have hlist (o : Option (Kind × Beat)) : (o.toList.filter fun p => p.1 = k).map (·.2) =
      ((o.filter fun p => p.1 = k).map (·.2)).toList := by
    cases o with
    | none => rfl
    | some p => by_cases hp : p.1 = k <;> simp [Option.filter, hp]
  rw [hlist, hleaves]
  split_ifs <;> rfl

theorem rdEn_empty {r : Bool} {k : Kind} {i : Fin numQueues}
    (hrd : (s.oqs.port r i).rdEn k = true) : (s.oqs.queue k i).empty = false := by
  have hacts := s.oqs.port_acts r i
  generalize s.oqs.port r i = l at hacts hrd
  cases hacts with
  | waits => cases hrd
  | begins k' ctr hst hr he => rw [eq_of_beq hrd]; exact he
  | goesOn k' ctr hst hr he => rw [eq_of_beq hrd]; exact he

/-! ### The queues -/

section Queues

variable (hD : FD.Lawful) (hM : FM.Lawful) (hlat : FM.latency = FD.latency)
  (hroom : FD.progLimit + maxWords ≤ FD.capacity)

theorem stored_clock (h : Inv s) (c : Cycle) (k : Kind) (i : Fin numQueues) :
    (s.clock c).log.stored k i = s.log.stored k i ++
      (if (s.oqs.writeLogic c.sAxis).wrEn k i then c.sAxis else none).toList := by
  change (c.sAxis.elim s.log fun w => s.log.add w (s.oqs.refuses w)).stored k i = _
  cases c.sAxis with
  | none => simp
  | some w =>
    rw [Option.elim_some, Log.stored_add, h.wrEn]
    split_ifs <;> rfl

include hD hroom

theorem Inv.hasRoom (h : Inv s) (hen : (outputQueues FD FM maxWords).enabled s c) {k : Kind}
    {i : Fin numQueues}
    (hwr : (if (s.oqs.writeLogic c.sAxis).wrEn k i then c.sAxis else none).isSome = true) :
    (FD.contents (s.oqs.queue k i).outputFifo).length < FD.capacity := by
  cases hc : c.sAxis with
  | none => simp [hc] at hwr
  | some w =>
    have hwrEn : (s.oqs.writeLogic (some w)).wrEn k i = true := by
      rw [hc] at hwr
      by_contra hno
      rw [if_neg hno] at hwr
      cases hwr
    have hspace := (h.space hD hwrEn).1
    have hlen := (hen w hc).2
    omega

include hM hlat

theorem Inv.holds_clock (h : Inv s) (hen : (outputQueues FD FM maxWords).enabled s c) (k : Kind)
    (i : Fin numQueues) :
    ((s.clock c).oqs.queue k i).Holds ((s.clock c).log.stored k i)
      (forwarded ((s.clock c).out i) k) := by
  rw [stored_clock h, forwarded_clock]
  have hwritten : (if (s.oqs.writeLogic c.sAxis).wrEn k i then c.sAxis else none).isSome = true →
      ∃ w, c.sAxis = some w ∧ (s.oqs.writeLogic (some w)).wrEn k i = true := by
    intro hwr
    split_ifs at hwr with hk
    · obtain ⟨w, hw⟩ := Option.isSome_iff_exists.1 hwr
      exact ⟨w, hw, by rw [← hw]; exact hk⟩
    · cases hwr
  refine (h.holds k i).clock hD hM hlat (fun hrd => rdEn_empty hrd) (fun hrd hmid => ?_)
    (h.hasRoom hD hroom hen) (fun hwr => ?_) fun hmeta hwr => ?_
  · exact (h.holds k i).first hD (h.valid.framed_stored k i) (rdEn_empty hrd) hmid
  · obtain ⟨w, hw, hk⟩ := hwritten hwr
    rw [hw]
    exact h.metadataWrEn hk
  · obtain ⟨w, hw, hk⟩ := hwritten hwr
    rw [hw] at hmeta
    exact (h.space hD hk).2 hmeta

/-- A queue grows by the word that is written. -/
theorem Inv.contents_clock_le (h : Inv s) (hen : (outputQueues FD FM maxWords).enabled s c)
    (k : Kind) (i : Fin numQueues) :
    (FD.contents ((s.clock c).oqs.queue k i).outputFifo).length ≤
      (FD.contents (s.oqs.queue k i).outputFifo).length +
        (if (s.oqs.writeLogic c.sAxis).wrEn k i then c.sAxis else none).toList.length := by
  have hwords := congrArg List.length (h.holds_clock hD hM hlat hroom hen k i).words
  have hwords' := congrArg List.length (h.holds k i).words
  rw [stored_clock h, forwarded_clock] at hwords
  simp only [List.length_map, List.length_append] at hwords hwords'
  omega

end Queues

theorem inv_start (hD : FD.Lawful) (hM : FM.Lawful) : Inv (start : Stored FD FM) where
  valid := ⟨fun _ hp => absurd hp List.not_mem_nil, fun _ hw => absurd hw List.not_mem_nil⟩
  state := rfl
  cur hp := absurd rfl hp
  room _ _ h := absurd h (by simp [start, Log.start])
  fits k i := by
    change (FD.contents FD.init).length ≤ _
    rw [hD.contents_init]
    exact Nat.zero_le _
  holds k i := by
    refine ⟨hD.contents_init.symm, hM.contents_init.symm, ?_, rfl⟩
    change (FM.held FM.init).map (·.2) = Queue.firsts false (FD.held FD.init)
    rw [hD.init, hM.init]
    rfl
  mid k i := by cases k <;> rfl
  unmixed i := .nil
  last i p hp := by cases hp

theorem Inv.valid_clock (h : Inv s) (hen : (outputQueues FD FM maxWords).enabled s c) :
    (s.clock c).log.Valid := by
  obtain ⟨_ | w, r⟩ := c
  · exact h.valid
  · exact h.valid.add (hen w rfl).1

/-- The state of the input tells whether a packet is under way and stored. -/
theorem Inv.input_clock (h : Inv s) (hen : (outputQueues FD FM maxWords).enabled s c) :
    ((s.clock c).oqs.state = if (s.clock c).log.packet = [] then .idle
      else if (s.clock c).log.taken then .wrPkt else .drop) ∧
    ((s.clock c).log.packet ≠ [] →
      (s.clock c).oqs.curQueue = Log.selects (s.clock c).log.packet) := by
  have hstate := h.state
  obtain ⟨_ | w, r⟩ := c
  · refine ⟨hstate, fun hp => ?_⟩
    have hcur : (s.clock ⟨none, r⟩).oqs.curQueue = s.oqs.curQueue := by
      cases hs : s.oqs.state <;> simp only [clock, OutputQueues.clock, hs]
    rw [hcur]
    exact h.cur hp
  have hlog : (s.clock ⟨some w, r⟩).log = s.log.add w (s.oqs.refuses w) := rfl
  have hnext : (s.clock ⟨some w, r⟩).oqs.state = (s.oqs.writeLogic (some w)).stateNext := rfl
  rw [hlog, hnext, Log.add]
  by_cases hp : s.log.packet = []
  · -- the first word, which is not the last one
    rw [if_pos hp] at hstate
    have hcur : (s.clock ⟨some w, r⟩).oqs.curQueue = oq w.tuser := by
      simp only [clock, OutputQueues.clock, hstate]
    rw [(hen w rfl).1 hp, if_neg Bool.false_ne_true, hcur, writeLogic, hstate, Log.takes,
      if_pos hp, hp]
    refine ⟨?_, fun _ => rfl⟩
    cases s.oqs.refuses w <;> rfl
  · rw [if_neg hp] at hstate
    have hcur : (s.clock ⟨some w, r⟩).oqs.curQueue = s.oqs.curQueue := by
      cases htaken : s.log.taken <;> rw [htaken] at hstate <;>
        simp only [clock, OutputQueues.clock, hstate] <;> rfl
    have hgoes : (s.oqs.writeLogic (some w)).stateNext =
        if w.tlast then .idle else if s.log.taken then .wrPkt else .drop := by
      rw [writeLogic]
      cases htaken : s.log.taken <;> rw [htaken] at hstate <;> rw [hstate] <;> rfl
    rw [hgoes, hcur, Log.takes, if_neg hp]
    cases hlast : w.tlast with
    | true => exact ⟨rfl, fun hnil => absurd rfl hnil⟩
    | false =>
      refine ⟨(if_neg (List.append_ne_nil_of_right_ne_nil _ (List.cons_ne_nil w []))).symm,
        fun _ => ?_⟩
      rw [h.cur hp]
      funext k i
      exact (Log.selects_append k i hp).symm

section Clock

variable (hD : FD.Lawful) (hM : FM.Lawful) (hlat : FM.latency = FD.latency)
  (hroom : FD.progLimit + maxWords ≤ FD.capacity)

include hD hM hlat hroom

theorem Inv.room_clock (h : Inv s) (hen : (outputQueues FD FM maxWords).enabled s c) (k : Kind)
    (i : Fin numQueues)
    (hunder : ((s.clock c).log.taken && Log.selects (s.clock c).log.packet k i) = true) :
    (FD.contents ((s.clock c).oqs.queue k i).outputFifo).length ≤
      FD.progLimit + (s.clock c).log.packet.length := by
  have hle := h.contents_clock_le hD hM hlat hroom hen k i
  obtain ⟨_ | w, r⟩ := c
  · have hbefore := h.room k i hunder
    rw [ite_self, Option.toList_none, List.length_nil, Nat.add_zero] at hle
    exact hle.trans hbefore
  · change ((s.log.add w _).taken && Log.selects (s.log.add w _).packet k i) = true at hunder
    change _ ≤ FD.progLimit + (s.log.add w (s.oqs.refuses w)).packet.length
    rw [Log.add] at hunder ⊢
    cases hlast : w.tlast with
    | true =>
      rw [hlast, if_pos rfl, Bool.and_eq_true] at hunder
      cases hunder.2
    | false =>
      rw [hlast, if_neg Bool.false_ne_true] at hunder
      rw [if_neg Bool.false_ne_true]
      have hwr := h.wrEn w k i
      rw [hunder] at hwr
      have hspace := (h.space hD hwr).1
      rw [if_pos hwr] at hle
      simp only [Option.toList_some, List.length_singleton, List.length_append] at hle ⊢
      omega

theorem Inv.fits_clock (h : Inv s) (hen : (outputQueues FD FM maxWords).enabled s c) (k : Kind)
    (i : Fin numQueues) :
    (FD.contents ((s.clock c).oqs.queue k i).outputFifo).length ≤ FD.capacity := by
  have hle := h.contents_clock_le hD hM hlat hroom hen k i
  have hbefore := h.fits k i
  have hhas := h.hasRoom hD hroom hen (k := k) (i := i)
  cases hwr : (if (s.oqs.writeLogic c.sAxis).wrEn k i then c.sAxis else none) with
  | none =>
    rw [hwr, Option.toList_none, List.length_nil] at hle
    omega
  | some w =>
    rw [hwr] at hle hhas
    have hlt := hhas rfl
    rw [Option.toList_some, List.length_singleton] at hle
    omega

theorem Inv.clock (h : Inv s) (hen : (outputQueues FD FM maxWords).enabled s c) :
    Inv (s.clock c) where
  valid := h.valid_clock hen
  state := (h.input_clock hen).1
  cur := (h.input_clock hen).2
  room := h.room_clock hD hM hlat hroom hen
  fits := h.fits_clock hD hM hlat hroom hen
  holds := h.holds_clock hD hM hlat hroom hen
  mid k i := (h.port_clock hD c i).1 k
  unmixed i := (h.port_clock hD c i).2.1
  last i := (h.port_clock hD c i).2.2

theorem inv_reachable (hs : (outputQueues FD FM maxWords).Reachable s) : Inv s :=
  hs.invariant (fun _ h => h ▸ inv_start hD hM) fun _ _ _ h hen => h.clock hD hM hlat hroom hen

end Clock

/-- Each packet is stored whole in all of its queues or in none of them, which never run out of
room for it. Words and metadata leave a queue in order, and a port lets no packet into another
one. -/
theorem queues_store_forward (hD : FD.Lawful) (hM : FM.Lawful) (hlat : FM.latency = FD.latency)
    (hroom : FD.progLimit + maxWords ≤ FD.capacity) {s : Stored FD FM}
    (hs : (outputQueues FD FM maxWords).Reachable s) (i : Fin numQueues) :
    (∀ k, (s.log.stored k i).map (·.toWord) =
        (forwarded (s.out i) k).map (·.toWord) ++ FD.contents (s.oqs.queue k i).outputFifo ∧
      headers false (s.log.stored k i) =
        headers false (forwarded (s.out i) k) ++ FM.contents (s.oqs.queue k i).metadataFifo ∧
      (FD.contents (s.oqs.queue k i).outputFifo).length ≤ FD.capacity) ∧ Unmixed (s.out i) := by
  have h := inv_reachable hD hM hlat hroom hs
  exact ⟨fun k => ⟨(h.holds k i).words, (h.holds k i).headers, h.fits k i⟩, h.unmixed i⟩

/-- The queues of the source have room for 512 words, and from 322 on for no other packet. -/
abbrev bufferFifo : Fifo Word := Fifo.ofList 512 322 1 default

abbrev metadataFifo : Fifo (BitVec 128) := Fifo.ofList 512 512 1 0#128

/-- A word of a packet for the queues in `dst`, from bit 24 on. -/
def queueWord (dst : BitVec 16) (tlast : Bool) : Beat :=
  ⟨⟨0#256, 0#32, tlast⟩, dst.setWidth 128 <<< 24⟩

/-- Packets for the normal and the priority queue of port 0. -/
def twoStored (ready : Bool) : List Cycle :=
  [0x1#16, 0x100#16].flatMap fun dst =>
    [⟨some (queueWord dst false), fun _ => ready⟩, ⟨some (queueWord dst true), fun _ => ready⟩]

def drained (n : ℕ) : List Cycle := List.replicate n ⟨none, fun _ => true⟩

theorem queues_store_forward_twoStored :
    let s := (outputQueues bufferFifo metadataFifo 50).run start (twoStored true ++ drained 10)
    (outputQueues bufferFifo metadataFifo 50).Reachable s ∧
      (s.out 0).map (·.1) = [.h, .h, .p, .p] ∧
      (∀ k, (s.log.stored k 0).map (·.toWord) = (forwarded (s.out 0) k).map (·.toWord) ++
          bufferFifo.contents (s.oqs.queue k 0).outputFifo ∧
        headers false (s.log.stored k 0) = headers false (forwarded (s.out 0) k) ++
          metadataFifo.contents (s.oqs.queue k 0).metadataFifo ∧
        (bufferFifo.contents (s.oqs.queue k 0).outputFifo).length ≤ 512) ∧
      Unmixed (s.out 0) := by
  intro s
  have hs : (outputQueues bufferFifo metadataFifo 50).Reachable s :=
    (System.Reachable.init rfl).run (by decide +kernel)
  exact ⟨hs, by decide +kernel, queues_store_forward (Fifo.lawful_ofList ..)
    (Fifo.lawful_ofList ..) rfl (by decide) hs 0⟩

/-! ## Priority -/

/-- With a word in the priority queue no normal packet starts. -/
theorem Inv.headers_clock (h : Inv s) (hD : FD.Lawful) (c : Cycle) {i : Fin numQueues}
    (hp : (s.oqs.queue .p i).empty = false) :
    headers false (forwarded ((s.clock c).out i) .h) = headers false (forwarded (s.out i) .h) := by
  have hout : (s.clock c).out i = s.out i ++ (s.oqs.output c i).toList := rfl
  rcases h.port_cases hD c i with ⟨hnone, -⟩ | ⟨k, hsome, -, -, hbusy⟩
  · rw [hout, hnone, Option.toList_none, List.append_nil]
  · rw [hout, hsome, Option.toList_some, forwarded_concat]
    cases k with
    | p => rw [if_neg (by decide), List.append_nil]
    | h =>
      rcases hbusy with ⟨-, hempty⟩ | hbusy
      · exact absurd (hp.symm.trans (hempty rfl)) (by decide)
      · rw [if_pos rfl, headers_append, h.mid, hbusy]
        exact List.append_nil _

/-- As long as the priority queue of a port does not look empty no packet of the normal queue
starts, however long this is: the counter that should let one in never gets there. -/
theorem priority_starves (hD : FD.Lawful) (hM : FM.Lawful) (hlat : FM.latency = FD.latency)
    (hroom : FD.progLimit + maxWords ≤ FD.capacity) {s t : Stored FD FM}
    (hs : (outputQueues FD FM maxWords).Reachable s) {i : Fin numQueues}
    (hst : ((outputQueues FD FM maxWords).restrict fun s _ =>
      (s.oqs.queue .p i).empty = false).Steps s t) :
    headers false (forwarded (t.out i) .h) = headers false (forwarded (s.out i) .h) := by
  have hinv := inv_reachable hD hM hlat hroom hs
  have hboth : Inv t ∧
      headers false (forwarded (t.out i) .h) = headers false (forwarded (s.out i) .h) := by
    induction hst with
    | refl => exact ⟨hinv, rfl⟩
    | step _ hen ih =>
      obtain ⟨hu, hsame⟩ := ih
      exact ⟨hu.clock hD hM hlat hroom hen.1, (hu.headers_clock hD _ hen.2).trans hsame⟩
  exact hboth.2

/-- Both queues hold a packet, and the one of the priority queue leaves. -/
theorem priority_starves_twoStored :
    let s := (outputQueues bufferFifo metadataFifo 50).run start
      (twoStored false ++ [⟨none, fun _ => false⟩])
    let t := (outputQueues bufferFifo metadataFifo 50).run s (drained 2)
    (t.out 0).map (·.1) = [.p, .p] ∧
      headers false (forwarded (t.out 0) .h) = headers false (forwarded (s.out 0) .h) := by
  intro s t
  have hs : (outputQueues bufferFifo metadataFifo 50).Reachable s :=
    (System.Reachable.init rfl).run (by decide +kernel)
  have hl : ((outputQueues bufferFifo metadataFifo 50).restrict fun s _ =>
      (s.oqs.queue .p 0).empty = false).Allowed s (drained 2) := by decide +kernel
  have hst := hl.history (R := fun _ t => System.Steps _ s t) (fun _ _ _ h hen => h.step hen) .refl
  rw [System.run_restrict] at hst
  exact ⟨by decide +kernel, priority_starves (Fifo.lawful_ofList ..) (Fifo.lawful_ofList ..) rfl
    (by decide) hs hst⟩

end Stored

end P4Survey.NetFpga
