import P4Survey.NetFpga.StoreForward
import P4Survey.NetFpga.Trimming

/-! # Trimming in front of the output queues

`nf_datapath.v`: the output queues tell the trimming stage which of them are full, and get
the words it sends in the same cycle.
-/

namespace P4Survey.NetFpga

open Lib OutputQueues

namespace NfNdp

/-- The packet that goes on is a packet. -/
theorem IsPacket.forward {p : List Beat} (h : IsPacket p) (hFull : Full) :
    IsPacket (forward hFull p) := by
  obtain ⟨q, y, rfl, hq, hbegun, hlast⟩ := h
  obtain ⟨w, q, rfl⟩ := List.exists_cons_of_ne_nil hq
  obtain ⟨x, l, hl⟩ : ∃ x l, q ++ [y] = x :: l :=
    List.exists_cons_of_ne_nil (List.append_ne_nil_of_right_ne_nil _ (List.cons_ne_nil y []))
  rw [List.cons_append, hl, NfNdp.forward]
  split_ifs with hc ht
  · refine ⟨prioritized w :: q, y, by rw [List.cons_append, hl], List.cons_ne_nil _ _, ?_, hlast⟩
    intro z hz
    rcases List.mem_cons.1 hz with rfl | hz
    · exact hbegun w List.mem_cons_self
    · exact hbegun z (List.mem_cons_of_mem w hz)
  · refine ⟨[trimmed hFull w x], trimmedTail x, rfl, List.cons_ne_nil _ _, ?_, rfl⟩
    intro z hz
    rw [List.mem_singleton.1 hz]
    rfl
  · exact ⟨w :: q, y, by rw [List.cons_append, hl], List.cons_ne_nil _ _, hbegun, hlast⟩

theorem framed_forward {p : List Beat} (h : Framed (fun _ => True) false p) (hFull : Full) :
    Framed (fun _ => True) false (forward hFull p) := by
  rcases p with _ | ⟨w, _ | ⟨x, l⟩⟩
  · exact h
  · exact h
  · rw [forward]
    split_ifs
    · exact h
    · exact ⟨trivial, rfl, trivial⟩
    · exact h

/-- In the cycle of the check a packet that goes on whole has no full queue. -/
theorem free_of_output {full : Full} {r : Regs} {fifo : Beat} {e : Bool}
    (hs : r.state = .checkAckNack) (hHQ : r.tuserHQ = dstPorts r.chunk0.tuser)
    (hPQ : r.tuserPQ = 0#8) (hc : isControl r.chunk0 fifo = false)
    (hv : (logic full r fifo e).mAxisTvalid = true) :
    (logic full r fifo e).mAxis = r.chunk0 ∧ blocked full r.chunk0 = false := by
  cases e with
  | true =>
    have hl : logic full r fifo true = still r fifo := by rw [logic, hs]; rfl
    rw [hl] at hv
    cases hv
  | false =>
    have hl : logic full r fifo false =
        ⟨(List.finRange 4).foldl (Regs.divert full) { r with state := .ndpModeOffPipe },
          ((List.finRange 4).foldl (Regs.divert full)
            { r with state := .ndpModeOffPipe }).state == .ndpModeOffPipe, r.chunk0, false⟩ := by
      have hdata : ¬isControl r.chunk0 fifo = true := by rw [hc]; exact Bool.false_ne_true
      rw [logic, hs]
      exact if_neg hdata
    obtain ⟨-, -, -, hst⟩ := divert_all full (r := { r with state := .ndpModeOffPipe }) hHQ hPQ rfl
    rw [hl] at hv ⊢
    have hstate := eq_of_beq hv
    rw [hst] at hstate
    refine ⟨rfl, ?_⟩
    by_contra hb
    rw [if_pos ((Bool.not_eq_false _).mp hb)] at hstate
    cases hstate

end NfNdp

structure Datapath (F : Fifo Beat) (FD : Fifo Word) (FM : Fifo (BitVec 128)) where
  trimmer : Trimmer F
  queues : Stored FD FM

namespace Datapath

variable {F : Fifo Beat} {FD : Fifo Word} {FM : Fifo (BitVec 128)}

/-- The signals from outside in a cycle. -/
structure Cycle where
  sAxis : Option Beat
  mAxisTready : Fin numQueues → Bool

def start : Datapath F FD FM := ⟨.start, .start⟩

section Clock

variable (s : Datapath F FD FM) (c : Cycle)

/-- `H_0_full` to `H_3_full`. The one for the host is not looked at. -/
def hFull : NfNdp.Full := fun k => FD.progFull (s.queues.oqs.queue .h k.castSucc).outputFifo

/-- The word between the two stages. -/
def sent : Option Beat := s.trimmer.ndp.output s.hFull

def clock : Datapath F FD FM where
  trimmer := s.trimmer.clock ⟨s.hFull, c.sAxis⟩
  queues := s.queues.clock ⟨s.sent, c.mAxisTready⟩

end Clock

/-- Packets of at least two words arrive, and no more than `maxWords` of one go on. -/
def datapath (F : Fifo Beat) (FD : Fifo Word) (FM : Fifo (BitVec 128)) (maxWords : ℕ) :
    System (Datapath F FD FM) Cycle where
  init s := s = start
  enabled s c := (Trimmer.trimmer F).enabled s.trimmer ⟨s.hFull, c.sAxis⟩ ∧
    (s.sent.isSome = true → s.queues.log.packet.length < maxWords)
  next := clock

instance (maxWords : ℕ) (s : Datapath F FD FM) (c : Cycle) :
    Decidable ((datapath F FD FM maxWords).enabled s c) :=
  inferInstanceAs (Decidable ((Trimmer.trimmer F).enabled _ _ ∧ _))

section Trimmer

variable {t : Trimmer F} {sent : List Beat}

/-- What the stage sends is made of packets. -/
theorem left_packets (h : Trimmer.Inv t sent) :
    Framed (fun _ => True) false t.left ∧ midPacket false t.left = false := by
  have hwhole (d) (hd : d ∈ t.done) : IsPacket (NfNdp.forward d.2 d.1) :=
    NfNdp.IsPacket.forward (h.whole d hd) d.2
  exact ⟨framed_flatMap hwhole, midPacket_flatMap hwhole⟩

theorem framed_out (h : Trimmer.Inv t sent) (hF : F.Lawful) :
    Framed (fun _ => True) false t.out := by
  rw [← Trimmer.framed_map_bridge, h.out, framed_append, (left_packets h).2]
  refine ⟨(left_packets h).1, ?_⟩
  have hframed := h.framed
  rw [h.words, List.append_assoc, framed_append, Trimmer.arrived, midPacket_flatMap h.whole]
    at hframed
  obtain ⟨rest, hrest⟩ := h.sent_prefix hF
  have hforward := NfNdp.framed_forward hframed.2 t.hFull
  rw [← hrest, framed_append] at hforward
  exact hforward.1

/-- During the check nothing has been sent of the packet. -/
theorem between_packets (h : Trimmer.Inv t sent) (hs : t.ndp.regs.state = .checkAckNack) :
    midPacket false t.out = false ∧ t.ndp.regs.tuserHQ = NfNdp.dstPorts t.ndp.regs.chunk0.tuser ∧
      t.ndp.regs.tuserPQ = 0#8 := by
  have hstage := h.stage
  have hout := h.out
  generalize t.packet = p at hstage
  cases hstage with
  | held hs' hw hHQ hPQ =>
    refine ⟨?_, hHQ, hPQ⟩
    rw [← Trimmer.midPacket_map_bridge, hout, List.append_nil]
    exact (left_packets h).2
  | start hs' => exact absurd (hs.symm.trans hs') (by decide)
  | controlFirst hs' => exact absurd (hs.symm.trans hs') (by decide)
  | control hs' => exact absurd (hs.symm.trans hs') (by decide)
  | plainFirst hs' => exact absurd (hs.symm.trans hs') (by decide)
  | plain hs' => exact absurd (hs.symm.trans hs') (by decide)
  | trimFirst hs' => exact absurd (hs.symm.trans hs') (by decide)
  | trimSum hs' => exact absurd (hs.symm.trans hs') (by decide)
  | trimTail hs' =>
    rcases hs' with hs' | hs'
    · exact absurd (hs.symm.trans hs') (by decide)
    · exact absurd (hs.symm.trans hs') (by decide)
  | flush hs' => exact absurd (hs.symm.trans hs') (by decide)

end Trimmer

section Runs

variable {maxWords : ℕ} {s : Datapath F FD FM} {c : Cycle}

/-- Each stage runs as it does alone, and the queues get what the trimming stage sends. -/
structure Inv (maxWords : ℕ) (s : Datapath F FD FM) : Prop where
  trimmer : (Trimmer.trimmer F).Reachable s.trimmer
  queues : (Stored.outputQueues FD FM maxWords).Reachable s.queues
  words : s.queues.log.words = s.trimmer.out

variable (hF : F.Lawful) (hD : FD.Lawful) (hM : FM.Lawful) (hlat : FM.latency = FD.latency)
  (hroom : FD.progLimit + maxWords ≤ FD.capacity)

include hF hD hM hlat hroom

theorem Inv.enabled (h : Inv maxWords s) (hen : (datapath F FD FM maxWords).enabled s c) :
    (Stored.outputQueues FD FM maxWords).enabled s.queues ⟨s.sent, c.mAxisTready⟩ := by
  intro w hw
  have hsent : s.sent = some w := hw
  refine ⟨fun hp => ?_, hen.2 (by rw [hsent]; rfl)⟩
  obtain ⟨sent, ht⟩ := Trimmer.inv_reachable hF (h.trimmer.step hen.1)
  have hframed := framed_out ht hF
  have hout : (s.trimmer.clock ⟨s.hFull, c.sAxis⟩).out = s.trimmer.out ++ s.sent.toList := rfl
  change Framed _ false (s.trimmer.clock ⟨s.hFull, c.sAxis⟩).out at hframed
  have hvalid := (Stored.inv_reachable hD hM hlat hroom h.queues).valid
  rw [hout, hsent, Option.toList_some, framed_append, ← h.words, Log.words, hp,
    List.append_nil, midPacket_flatMap hvalid.whole] at hframed
  exact hframed.2.2.1

theorem Inv.clock (h : Inv maxWords s) (hen : (datapath F FD FM maxWords).enabled s c) :
    Inv maxWords (s.clock c) where
  trimmer := h.trimmer.step hen.1
  queues := h.queues.step (h.enabled hF hD hM hlat hroom hen)
  words := by
    change (s.sent.elim s.queues.log fun w =>
      s.queues.log.add w (s.queues.oqs.refuses w)).words = s.trimmer.out ++ s.sent.toList
    cases s.sent with
    | none => rw [Option.elim_none, Option.toList_none, List.append_nil, h.words]
    | some w => rw [Option.elim_some, Log.words_add, h.words, Option.toList_some]

theorem inv_reachable (hs : (datapath F FD FM maxWords).Reachable s) : Inv maxWords s :=
  hs.invariant (fun _ h => h ▸ ⟨.init rfl, .init rfl, rfl⟩)
    fun _ _ _ h hen => h.clock hF hD hM hlat hroom hen

/-- What goes on for the packets that arrived is what came to the queues, and each queue holds
what it stored of it and has not sent. -/
theorem datapath_delivers (hs : (datapath F FD FM maxWords).Reachable s) :
    s.trimmer.accepted.map bridge =
        s.trimmer.arrived ++ s.trimmer.packet ++ F.contents s.trimmer.ndp.inputFifo ∧
      (∃ sent, s.queues.log.words.map bridge = s.trimmer.left ++ sent ∧
        sent <+: NfNdp.forward s.trimmer.hFull
          (s.trimmer.packet ++ F.contents s.trimmer.ndp.inputFifo)) ∧
      ∀ i, Unmixed (s.queues.out i) ∧ ∀ k, (s.queues.log.stored k i).map (·.toWord) =
        (forwarded (s.queues.out i) k).map (·.toWord) ++
          FD.contents (s.queues.oqs.queue k i).outputFifo := by
  have h := inv_reachable hF hD hM hlat hroom hs
  obtain ⟨sent, ht⟩ := Trimmer.inv_reachable hF h.trimmer
  have hq := Stored.inv_reachable hD hM hlat hroom h.queues
  refine ⟨ht.words, ⟨sent, by rw [h.words, ht.out], ht.sent_prefix hF⟩, fun i => ?_⟩
  exact ⟨hq.unmixed i, fun k => (hq.holds k i).words⟩

end Runs

/-- A packet arrives with nothing in the queues. -/
def labArrival (n : ℕ) : List Cycle :=
  (Trimmer.labPacket.map fun w => ⟨some (bridge w), fun _ => true⟩) ++
    List.replicate n ⟨none, fun _ => true⟩

abbrev labDatapath :=
  datapath (Fifo.ofList 16 16 1 default) Stored.bufferFifo Stored.metadataFifo 50

theorem datapath_delivers_labArrival :
    let s := labDatapath.run start (labArrival 10)
    labDatapath.Reachable s ∧ (s.queues.out 0).map (·.1) = [.h, .h, .h] ∧
      (∃ sent, s.queues.log.words.map bridge = s.trimmer.left ++ sent) ∧
      Unmixed (s.queues.out 0) := by
  intro s
  have hs : labDatapath.Reachable s := (System.Reachable.init rfl).run (by decide +kernel)
  obtain ⟨-, ⟨sent, hwords, -⟩, hports⟩ := datapath_delivers (Fifo.lawful_ofList ..)
    (Fifo.lawful_ofList ..) (Fifo.lawful_ofList ..) rfl (by decide) hs
  exact ⟨hs, by decide +kernel, ⟨sent, hwords⟩, (hports 0).1⟩

section Whole

variable {maxWords : ℕ} {s : Datapath F FD FM}

/-- A data packet for the ports of the switch that the trimming stage lets go on whole is not
refused for want of room for its words. -/
theorem untrimmed_stored (hF : F.Lawful) (hD : FD.Lawful) (hM : FM.Lawful)
    (hlat : FM.latency = FD.latency) (hroom : FD.progLimit + maxWords ≤ FD.capacity)
    (hs : (datapath F FD FM maxWords).Reachable s)
    (hcheck : s.trimmer.ndp.regs.state = .checkAckNack)
    (hdata : NfNdp.isControl s.trimmer.ndp.regs.chunk0 s.trimmer.ndp.fifo = false)
    {w : Beat} (hsent : s.sent = some w) (hports : ∀ i, oq w.tuser .p i = false)
    (hhost : oq w.tuser .h 4 = false)
    (hmeta : ∀ i, FM.nearlyFull (s.queues.oqs.queue .h i).metadataFifo = false) {c : Cycle}
    (hen : (datapath F FD FM maxWords).enabled s c) : (s.clock c).queues.log.taken = true := by
  have h := inv_reachable hF hD hM hlat hroom hs
  obtain ⟨sent, ht⟩ := Trimmer.inv_reachable hF h.trimmer
  obtain ⟨hmid, hHQ, hPQ⟩ := between_packets ht hcheck
  have hqueues := Stored.inv_reachable hD hM hlat hroom h.queues
  have hnil : s.queues.log.packet = [] := hqueues.valid.packet_eq_nil (by rw [h.words, hmid])
  have hvalid : (s.trimmer.ndp.comb s.hFull).mAxisTvalid = true ∧
      w = bridge (s.trimmer.ndp.comb s.hFull).mAxis := by
    rw [Datapath.sent, NfNdp.output] at hsent
    split_ifs at hsent with hv
    exact ⟨hv, (Option.some.inj hsent).symm⟩
  obtain ⟨hmAxis, hfree⟩ := NfNdp.free_of_output hcheck hHQ hPQ hdata hvalid.1
  have htuser : w.tuser = s.trimmer.ndp.regs.chunk0.tuser := by
    rw [hvalid.2]
    change (s.trimmer.ndp.comb s.hFull).mAxis.tuser = _
    exact congrArg Beat.tuser hmAxis
  have hrefuses : s.queues.oqs.refuses w = false := by
    rw [refuses, List.any_eq_false]
    intro i _
    rw [hports, Bool.and_false, Bool.or_false, Bool.and_eq_true, not_and]
    intro hfull hoq
    rw [Queue.full, hmeta, Bool.or_false] at hfull
    induction i using Fin.lastCases with
    | last => exact absurd (hoq.symm.trans hhost) (by decide)
    | cast k =>
      have hhits : NfNdp.hits s.hFull s.trimmer.ndp.regs.chunk0 k = true := by
        have hbit : w.tuser.getLsbD (24 + 2 * k.val) = true := by
          rw [← hoq, oq, if_pos (show k.castSucc.val < 4 from k.isLt)]
          rfl
        rw [NfNdp.hits, ← htuser, hbit, Bool.true_and]
        exact hfull
      rw [NfNdp.blocked, List.any_eq_false] at hfree
      exact hfree k (List.mem_finRange k) hhits
  have hlog : (s.clock c).queues.log = s.queues.log.add w (s.queues.oqs.refuses w) := by
    change (s.sent.elim s.queues.log fun w => s.queues.log.add w (s.queues.oqs.refuses w)) = _
    rw [hsent, Option.elim_some]
  have hfirst := (h.enabled hF hD hM hlat hroom hen w hsent).1 hnil
  rw [hlog, Log.add, hfirst, if_neg Bool.false_ne_true, Log.takes, if_pos hnil, hrefuses]
  rfl

/-- The check of that packet finds no full queue. -/
theorem untrimmed_stored_labArrival :
    let s := labDatapath.run start (labArrival 0)
    s.trimmer.ndp.regs.state = .checkAckNack ∧
      (s.clock ⟨none, fun _ => true⟩).queues.log.taken = true := by
  intro s
  have hs : labDatapath.Reachable s := (System.Reachable.init rfl).run (by decide +kernel)
  have hcheck : s.trimmer.ndp.regs.state = .checkAckNack := by decide +kernel
  have hsent : s.sent = some (bridge (Trimmer.labPacket.headD default)) := by decide +kernel
  exact ⟨hcheck, untrimmed_stored (Fifo.lawful_ofList ..) (Fifo.lawful_ofList ..)
    (Fifo.lawful_ofList ..) rfl (by decide) hs hcheck (by decide +kernel) hsent
    (by decide +kernel) (by decide +kernel) (by decide +kernel) (by decide +kernel)⟩

end Whole

end Datapath

end P4Survey.NetFpga
