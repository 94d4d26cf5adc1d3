import P4Survey.Lib.Queues
import P4Survey.Lib.System
import P4Survey.NetFpga.Stream

/-! # The input arbiter of the NDP switch

`input_drr_arbiter.v`: five input queues share one output by deficit round robin. The
queues are instances of `fallthrough_small_fifo`. The counters for the host, which only
observe the signals, are left out, and so is the reset.
-/

namespace P4Survey.NetFpga

open Lib

namespace Arbiter

abbrev numQueues : ℕ := 5

def quantum : BitVec 16 := 500#16

local instance arbiter_queues : NeZero numQueues := ⟨by decide⟩

inductive State where
  | idle
  | wrPkt
  deriving DecidableEq

end Arbiter

structure Arbiter (F : Fifo Beat) where
  inArbFifo : Fin Arbiter.numQueues → F.State
  drrCount : Fin Arbiter.numQueues → BitVec 16
  curQueue : Fin Arbiter.numQueues
  state : Arbiter.State
  pktFwd : Bool

namespace Arbiter

variable {F : Fifo Beat}

/-- What the block `always @(*)` computes. Only the current queue is ever read. -/
structure Logic where
  stateNext : State
  curQueueNext : Fin numQueues
  rdEn : Bool
  pktFwdNext : Bool
  drrCountNext : Fin numQueues → BitVec 16
  mAxisTvalid : Bool

section Logic

variable (s : Arbiter F)

def empty (i : Fin numQueues) : Bool := F.empty (s.inArbFifo i)

/-- The word on the output. -/
def fifoOut : Beat := F.dout (s.inArbFifo s.curQueue)

def nextQueue : Fin numQueues :=
  if s.curQueue.val = numQueues - 1 then 0 else s.curQueue + 1

/-- The values at the top of the block. -/
def still : Logic := ⟨s.state, s.curQueue, false, false, s.drrCount, false⟩

def logic (mAxisTready : Bool) : Logic :=
  let q := s.curQueue
  match s.state with
  | .idle =>
    if !s.empty q then
      if s.fifoOut.pktLen ≤ s.drrCount q then
        if mAxisTready then
          { s.still with
            mAxisTvalid := true
            drrCountNext := Function.update s.drrCount q (s.drrCount q - s.fifoOut.pktLen)
            stateNext := .wrPkt
            rdEn := true
            pktFwdNext := true }
        else { s.still with mAxisTvalid := true }
      else
        { s.still with
          drrCountNext := Function.update s.drrCount q (s.drrCount q + quantum)
          curQueueNext := s.nextQueue }
    else { s.still with curQueueNext := s.nextQueue }
  | .wrPkt =>
    if mAxisTready && s.fifoOut.tlast then
      { s.still with mAxisTvalid := true, stateNext := .idle, rdEn := true }
    else if mAxisTready && !s.empty q then { s.still with mAxisTvalid := true, rdEn := true }
    else s.still

end Logic

/-- The signals from outside in a cycle: `m_axis_tready`, and for each input the word if
`s_axis_tvalid` is set. -/
structure Cycle where
  mAxisTready : Bool
  sAxis : Fin numQueues → Option Beat

variable (s : Arbiter F) (c : Cycle)

/-- The word that is written into a queue. -/
def accepted (i : Fin numQueues) : Option Beat :=
  if F.nearlyFull (s.inArbFifo i) then none else c.sAxis i

def clock : Arbiter F :=
  let l := s.logic c.mAxisTready
  { inArbFifo := fun i =>
      F.clock (s.inArbFifo i) (s.accepted c i) (l.rdEn && decide (i = s.curQueue))
    drrCount := fun i => if s.empty i then 0#16 else l.drrCountNext i
    curQueue := l.curQueueNext
    state := l.stateNext
    pktFwd := l.pktFwdNext }

/-- The word that leaves in a cycle. -/
def output : Option Beat :=
  if (s.logic c.mAxisTready).mAxisTvalid && c.mAxisTready then some s.fifoOut else none

/-- What the arbiter can do in a cycle. -/
inductive Acts (mAxisTready : Bool) : Logic → Prop
  | waits (v : Bool) (h : v = true → mAxisTready = false) :
      Acts mAxisTready { s.still with mAxisTvalid := v }
  | skips (hs : s.state = .idle) (he : s.empty s.curQueue = true) :
      Acts mAxisTready { s.still with curQueueNext := s.nextQueue }
  | earns (hs : s.state = .idle) (he : s.empty s.curQueue = false)
      (hlt : s.drrCount s.curQueue < s.fifoOut.pktLen) :
      Acts mAxisTready { s.still with
        drrCountNext :=
          Function.update s.drrCount s.curQueue (s.drrCount s.curQueue + quantum)
        curQueueNext := s.nextQueue }
  | begins (hs : s.state = .idle) (he : s.empty s.curQueue = false)
      (hle : s.fifoOut.pktLen ≤ s.drrCount s.curQueue) (hr : mAxisTready = true) :
      Acts mAxisTready { s.still with
        mAxisTvalid := true
        drrCountNext :=
          Function.update s.drrCount s.curQueue (s.drrCount s.curQueue - s.fifoOut.pktLen)
        stateNext := .wrPkt
        rdEn := true
        pktFwdNext := true }
  | goesOn (hs : s.state = .wrPkt) (hr : mAxisTready = true)
      (he : s.fifoOut.tlast = false → s.empty s.curQueue = false) :
      Acts mAxisTready { s.still with
        mAxisTvalid := true
        stateNext := if s.fifoOut.tlast then .idle else .wrPkt
        rdEn := true }

theorem logic_acts (mAxisTready : Bool) : s.Acts mAxisTready (s.logic mAxisTready) := by
  cases hs : s.state with
  | idle =>
    have hl : s.logic mAxisTready =
        if !s.empty s.curQueue then
          if s.fifoOut.pktLen ≤ s.drrCount s.curQueue then
            if mAxisTready then
              { s.still with
                mAxisTvalid := true
                drrCountNext :=
                  Function.update s.drrCount s.curQueue (s.drrCount s.curQueue - s.fifoOut.pktLen)
                stateNext := .wrPkt
                rdEn := true
                pktFwdNext := true }
            else { s.still with mAxisTvalid := true }
          else
            { s.still with
              drrCountNext :=
                Function.update s.drrCount s.curQueue (s.drrCount s.curQueue + quantum)
              curQueueNext := s.nextQueue }
        else { s.still with curQueueNext := s.nextQueue } := by
      rw [logic, hs]
    rw [hl]
    split_ifs with he hle hr
    · exact .begins hs (by simpa using he) hle hr
    · exact .waits true fun _ => Bool.not_eq_true _ ▸ hr
    · exact .earns hs (by simpa using he) (BitVec.not_le.1 hle)
    · exact .skips hs (by simpa using he)
  | wrPkt =>
    have hl : s.logic mAxisTready =
        if mAxisTready && s.fifoOut.tlast then
          { s.still with mAxisTvalid := true, stateNext := .idle, rdEn := true }
        else if mAxisTready && !s.empty s.curQueue then
          { s.still with mAxisTvalid := true, rdEn := true }
        else s.still := by
      rw [logic, hs]
    rw [hl]
    split_ifs with hlast hnext
    · obtain ⟨hr, hlast⟩ := Bool.and_eq_true_iff.1 hlast
      have hgo := Acts.goesOn hs hr fun hfalse => absurd (hlast.symm.trans hfalse) (by decide)
      rw [if_pos hlast] at hgo
      exact hgo
    · obtain ⟨hr, he⟩ := Bool.and_eq_true_iff.1 hnext
      have hgo := Acts.goesOn hs hr fun _ => by simpa using he
      rw [if_neg fun ht => hlast (by rw [hr, ht]; rfl)] at hgo
      have hstill : s.still.stateNext = .wrPkt := hs
      rw [← hstill] at hgo
      exact hgo
    · exact .waits false nofun

/-- What leaves is what is read. -/
theorem output_eq (c : Cycle) :
    s.output c = if (s.logic c.mAxisTready).rdEn then some s.fifoOut else none := by
  have hacts := s.logic_acts c.mAxisTready
  rw [output]
  generalize s.logic c.mAxisTready = l at hacts
  cases hacts with
  | waits v h =>
    by_cases hv : v = true
    · rw [h hv, Bool.and_false]
      rfl
    · rw [(Bool.not_eq_true _).mp hv]
      rfl
  | skips => rfl
  | earns => rfl
  | begins hs he hle hr => rw [hr]; rfl
  | goesOn hs hr he => rw [hr]; rfl

theorem nextQueue_val : s.nextQueue.val = (s.curQueue.val + 1) % numQueues := by
  rw [nextQueue]
  split_ifs with h
  · rw [h]
    rfl
  · rfl

theorem nextQueue_ne : s.nextQueue ≠ s.curQueue := by
  intro h
  have hval := congrArg Fin.val h
  rw [nextQueue_val] at hval
  have hlt : s.curQueue.val < 5 := s.curQueue.isLt
  change (s.curQueue.val + 1) % 5 = s.curQueue.val at hval
  omega

/-- The first word of a packet that is not too long. -/
def Sized (maxLen : ℕ) (w : Beat) : Prop := w.pktLen.toNat ≤ maxLen

instance (maxLen : ℕ) : DecidablePred (Sized maxLen) :=
  fun w => inferInstanceAs (Decidable (w.pktLen.toNat ≤ maxLen))

end Arbiter

/-- The arbiter, with the words written into each queue, the words that have left with the
queue they came from, the bytes that each queue was charged with, and the moves to another
queue. -/
structure Watched (F : Fifo Beat) where
  arb : Arbiter F
  accepted : Fin Arbiter.numQueues → List Beat
  out : List (Fin Arbiter.numQueues × Beat)
  sent : Fin Arbiter.numQueues → ℕ
  moves : ℕ

namespace Watched

open Arbiter

local instance watched_queues : NeZero numQueues := ⟨by decide⟩

variable {F : Fifo Beat}

def start : Watched F :=
  ⟨⟨fun _ => F.init, fun _ => 0#16, 0, .idle, false⟩, fun _ => [], [], fun _ => 0, 0⟩

section Clock

variable (s : Watched F) (c : Cycle)

def clock : Watched F :=
  let l := s.arb.logic c.mAxisTready
  { arb := s.arb.clock c
    accepted := fun i => s.accepted i ++ (s.arb.accepted c i).toList
    out := s.out ++ ((s.arb.output c).map fun w => (s.arb.curQueue, w)).toList
    sent := fun i =>
      if l.pktFwdNext = true ∧ i = s.arb.curQueue then s.sent i + s.arb.fifoOut.pktLen.toNat
      else s.sent i
    moves := if l.curQueueNext = s.arb.curQueue then s.moves else s.moves + 1 }

end Clock

/-- Each input brings packets, of at most `maxLen` bytes. -/
def arbiter (F : Fifo Beat) (maxLen : ℕ) : System (Watched F) Cycle where
  init s := s = start
  enabled s c := ∀ i, Framed (Sized maxLen) false (s.accepted i ++ (s.arb.accepted c i).toList)
  next := clock

instance (maxLen : ℕ) (s : Watched F) (c : Cycle) :
    Decidable ((arbiter F maxLen).enabled s c) :=
  inferInstanceAs (Decidable (∀ _, Framed _ _ _))

structure Inv (maxLen : ℕ) (s : Watched F) : Prop where
  cur : s.arb.curQueue.val = s.moves % numQueues
  fifo : ∀ i, s.accepted i = forwarded s.out i ++ F.contents (s.arb.inArbFifo i)
  framed : ∀ i, Framed (Sized maxLen) false (s.accepted i)
  mid : ∀ i, midPacket false (forwarded s.out i) =
    (decide (s.arb.state = .wrPkt) && decide (i = s.arb.curQueue))
  stale : s.arb.state = .wrPkt → s.arb.empty s.arb.curQueue = true → s.arb.fifoOut.tlast = false
  credit : ∀ i, (s.arb.drrCount i).toNat < maxLen + 500
  unmixed : Unmixed s.out
  last : ∀ p ∈ s.out.getLast?, p.2.tlast = false →
    s.arb.state = .wrPkt ∧ p.1 = s.arb.curQueue

variable {maxLen : ℕ} {s : Watched F} {c : Cycle}

/-- Between packets the next word is the first one of a packet. -/
theorem Inv.first (h : Inv maxLen s) (hF : F.Lawful) (hs : s.arb.state = .idle)
    (he : s.arb.empty s.arb.curQueue = false) :
    s.arb.fifoOut.pktLen.toNat ≤ maxLen ∧ s.arb.fifoOut.tlast = false := by
  obtain ⟨l, hl⟩ := hF.contents_shown he
  have hframed := h.framed s.arb.curQueue
  rw [h.fifo, framed_append, h.mid, hs, hl] at hframed
  obtain ⟨-, hlen, hlast, -⟩ := hframed
  exact ⟨hlen, hlast⟩

/-- The queue that is read does not look empty. -/
theorem Inv.readable (h : Inv maxLen s) (hrd : (s.arb.logic c.mAxisTready).rdEn = true) :
    s.arb.empty s.arb.curQueue = false := by
  have hacts := s.arb.logic_acts c.mAxisTready
  generalize s.arb.logic c.mAxisTready = l at hacts hrd
  cases hacts with
  | waits v hv => cases hrd
  | skips => cases hrd
  | earns => cases hrd
  | begins hs he hle hr => exact he
  | goesOn hs hr he =>
    by_contra hempty
    exact hempty (he (h.stale hs ((Bool.not_eq_false _).mp hempty)))

theorem Inv.ready (h : Inv maxLen s) (i : Fin numQueues) :
    F.Ready (s.arb.inArbFifo i) (s.arb.accepted c i)
      ((s.arb.logic c.mAxisTready).rdEn && decide (i = s.arb.curQueue)) := by
  constructor
  · intro hrd
    obtain ⟨hrd, hi⟩ := Bool.and_eq_true_iff.1 hrd
    rw [of_decide_eq_true hi]
    exact h.readable hrd
  · intro hwr
    left
    by_contra hfull
    rw [Arbiter.accepted, if_pos ((Bool.not_eq_false _).mp hfull)] at hwr
    exact absurd hwr (by decide)

/-- The word that leaves is the next one of its queue. -/
theorem Inv.fifo_clock (h : Inv maxLen s) (hF : F.Lawful) (i : Fin numQueues) :
    (s.clock c).accepted i =
      forwarded (s.clock c).out i ++ F.contents ((s.clock c).arb.inArbFifo i) := by
  change s.accepted i ++ (s.arb.accepted c i).toList =
    forwarded (s.out ++ ((s.arb.output c).map fun w => (s.arb.curQueue, w)).toList) i ++
      F.contents ((s.arb.clock c).inArbFifo i)
  have hcontents : F.contents ((s.arb.clock c).inArbFifo i) = _ := hF.contents_clock (h.ready i)
  rw [hcontents, h.fifo, s.arb.output_eq]
  by_cases hrd : (s.arb.logic c.mAxisTready).rdEn = true
  · rw [if_pos hrd, hrd, Bool.true_and]
    change _ = forwarded (s.out ++ [(s.arb.curQueue, s.arb.fifoOut)]) i ++ _
    rw [forwarded_concat]
    by_cases hi : i = s.arb.curQueue
    · obtain ⟨l, hl⟩ := hF.contents_shown (h.readable hrd)
      rw [if_pos hi, if_pos (decide_eq_true hi), hi, hl, List.tail_cons]
      simp [Arbiter.fifoOut]
    · rw [if_neg hi, if_neg (by simpa using hi), List.append_nil, List.append_assoc]
  · rw [if_neg hrd, (Bool.not_eq_true _).mp hrd, Bool.false_and]
    simp

theorem inv_start (hF : F.Lawful) (maxLen : ℕ) : Inv maxLen (start : Watched F) := by
  refine ⟨rfl, fun i => ?_, fun _ => trivial, fun _ => rfl, nofun, fun _ => ?_, .nil, nofun⟩
  · exact hF.contents_init.symm
  · exact Nat.lt_of_lt_of_le (Nat.zero_lt_succ 499) (Nat.le_add_left _ _)

/-- The word that leaves goes on with the packet under way, or starts one. -/
theorem Inv.unmixed_clock (h : Inv maxLen s) (c : Cycle) : Unmixed (s.clock c).out := by
  change Unmixed (s.out ++ ((s.arb.output c).map fun w => (s.arb.curQueue, w)).toList)
  rw [s.arb.output_eq]
  split_ifs
  · refine h.unmixed.append (.singleton _) fun p hp q hq hlast => ?_
    obtain rfl := Option.some.inj hq
    exact (h.last p hp hlast).2.symm
  · rw [Option.map_none, Option.toList_none, List.append_nil]
    exact h.unmixed

theorem Inv.credit_clock (h : Inv maxLen s) (hF : F.Lawful) (c : Cycle) (i : Fin numQueues) :
    ((s.clock c).arb.drrCount i).toNat < maxLen + 500 := by
  change (if s.arb.empty i then 0#16 else (s.arb.logic c.mAxisTready).drrCountNext i).toNat < _
  have hacts := s.arb.logic_acts c.mAxisTready
  generalize s.arb.logic c.mAxisTready = l at hacts
  split_ifs
  · exact Nat.lt_of_lt_of_le (Nat.zero_lt_succ 499) (Nat.le_add_left _ _)
  · cases hacts with
    | waits v hv => exact h.credit i
    | skips => exact h.credit i
    | earns hs he hlt =>
      change (Function.update s.arb.drrCount s.arb.curQueue _ i).toNat < _
      by_cases hi : i = s.arb.curQueue
      · rw [hi, Function.update_self, BitVec.toNat_add]
        have hlen := (h.first hF hs he).1
        have hlt' : (s.arb.drrCount s.arb.curQueue).toNat < s.arb.fifoOut.pktLen.toNat := hlt
        calc _ ≤ (s.arb.drrCount s.arb.curQueue).toNat + quantum.toNat := Nat.mod_le _ _
          _ < maxLen + 500 := Nat.add_lt_add_right (hlt'.trans_le hlen) 500
      · rw [Function.update_of_ne hi]
        exact h.credit i
    | begins hs he hle hr =>
      change (Function.update s.arb.drrCount s.arb.curQueue _ i).toNat < _
      by_cases hi : i = s.arb.curQueue
      · rw [hi, Function.update_self, BitVec.toNat_sub_of_le hle]
        exact (Nat.sub_le _ _).trans_lt (h.credit _)
      · rw [Function.update_of_ne hi]
        exact h.credit i
    | goesOn hs hr he => exact h.credit i

theorem clock_state (s : Watched F) (c : Cycle) :
    (s.clock c).arb.state = (s.arb.logic c.mAxisTready).stateNext := rfl

theorem clock_curQueue (s : Watched F) (c : Cycle) :
    (s.clock c).arb.curQueue = (s.arb.logic c.mAxisTready).curQueueNext := rfl

theorem Inv.cur_clock (h : Inv maxLen s) (c : Cycle) :
    (s.clock c).arb.curQueue.val = (s.clock c).moves % numQueues := by
  have hacts := s.arb.logic_acts c.mAxisTready
  change (s.arb.logic c.mAxisTready).curQueueNext.val =
    (if (s.arb.logic c.mAxisTready).curQueueNext = s.arb.curQueue then s.moves else s.moves + 1) %
      numQueues
  generalize s.arb.logic c.mAxisTready = l at hacts
  have hmoved : s.arb.nextQueue.val = (if s.arb.nextQueue = s.arb.curQueue then s.moves
      else s.moves + 1) % numQueues := by
    rw [if_neg s.arb.nextQueue_ne, s.arb.nextQueue_val, h.cur, Nat.mod_add_mod]
  have hstayed : s.arb.curQueue.val = (if s.arb.curQueue = s.arb.curQueue then s.moves
      else s.moves + 1) % numQueues := by
    rw [if_pos rfl, h.cur]
  cases hacts with
  | waits v hv => exact hstayed
  | skips => exact hmoved
  | earns => exact hmoved
  | begins => exact hstayed
  | goesOn => exact hstayed

/-- An empty queue shows the word that it did before. -/
theorem stale_clock (hF : F.Lawful) (hcur : (s.clock c).arb.curQueue = s.arb.curQueue)
    (he : (s.clock c).arb.empty (s.clock c).arb.curQueue = true) :
    (s.clock c).arb.fifoOut = s.arb.fifoOut := by
  change F.dout ((s.clock c).arb.inArbFifo (s.clock c).arb.curQueue) = _
  rw [hcur] at he ⊢
  exact hF.stale _ _ _ he

theorem Inv.stale_clock (h : Inv maxLen s) (hF : F.Lawful) (c : Cycle)
    (hs' : (s.clock c).arb.state = .wrPkt)
    (he : (s.clock c).arb.empty (s.clock c).arb.curQueue = true) :
    (s.clock c).arb.fifoOut.tlast = false := by
  have hacts := s.arb.logic_acts c.mAxisTready
  have hcur := s.clock_curQueue c
  rw [s.clock_state] at hs'
  have hshown := Watched.stale_clock (s := s) (c := c) hF
  obtain ⟨l, hl⟩ : ∃ l, s.arb.logic c.mAxisTready = l := ⟨_, rfl⟩
  rw [hl] at hacts hcur hs'
  cases hacts with
  | waits v hv =>
    rw [hshown hcur he]
    apply h.stale hs'
    by_contra hfull
    have hready := h.ready (c := c) s.arb.curQueue
    rw [hl] at hready
    have hstays := (hF.waits hready ((Bool.not_eq_true _).mp hfull)).1
    have hsame : (s.clock c).arb.empty s.arb.curQueue =
        F.empty (F.clock (s.arb.inArbFifo s.arb.curQueue) (s.arb.accepted c s.arb.curQueue)
          false) := by
      change F.empty (F.clock _ _ ((s.arb.logic c.mAxisTready).rdEn && _)) = _
      rw [hl]
      rfl
    rw [hcur] at he
    exact absurd (he.symm.trans (hsame.trans hstays)) (by decide)
  | skips hs => exact absurd (hs.symm.trans hs') (by decide)
  | earns hs => exact absurd (hs.symm.trans hs') (by decide)
  | begins hs he' =>
    rw [hshown hcur he]
    exact (h.first hF hs he').2
  | goesOn hs =>
    rw [hshown hcur he]
    by_contra hlast
    change (if s.arb.fifoOut.tlast then State.idle else .wrPkt) = .wrPkt at hs'
    rw [if_pos ((Bool.not_eq_false _).mp hlast)] at hs'
    exact absurd hs' (by decide)

/-- A packet is under way in the current queue after a word that is not the last one. -/
theorem Inv.last_clock (h : Inv maxLen s) (hF : F.Lawful) (c : Cycle) :
    (∀ i, midPacket false (forwarded (s.clock c).out i) =
        (decide ((s.clock c).arb.state = .wrPkt) && decide (i = (s.clock c).arb.curQueue))) ∧
      ∀ p ∈ (s.clock c).out.getLast?, p.2.tlast = false →
        (s.clock c).arb.state = .wrPkt ∧ p.1 = (s.clock c).arb.curQueue := by
  have hacts := s.arb.logic_acts c.mAxisTready
  have hout : (s.clock c).out =
      s.out ++ ((s.arb.output c).map fun w => (s.arb.curQueue, w)).toList := rfl
  rw [s.arb.output_eq] at hout
  rw [s.clock_state, s.clock_curQueue]
  generalize s.arb.logic c.mAxisTready = l at hacts hout
  have hread (st : State) (hst : decide (st = .wrPkt) = !s.arb.fifoOut.tlast)
      (hout : (s.clock c).out = s.out ++ [(s.arb.curQueue, s.arb.fifoOut)]) :
      (∀ i, midPacket false (forwarded (s.clock c).out i) =
        (decide (st = .wrPkt) && decide (i = s.arb.curQueue))) ∧
      ∀ p ∈ (s.clock c).out.getLast?, p.2.tlast = false →
        st = .wrPkt ∧ p.1 = s.arb.curQueue := by
    rw [hout]
    refine ⟨fun i => ?_, fun p hp hlast => ?_⟩
    · rw [forwarded_concat]
      by_cases hi : i = s.arb.curQueue
      · rw [if_pos hi, midPacket_concat, hst, decide_eq_true hi, Bool.and_true]
      · rw [if_neg hi, List.append_nil, h.mid, decide_eq_false hi, Bool.and_false, Bool.and_false]
    · rw [List.getLast?_concat] at hp
      obtain rfl := Option.some.inj hp
      rw [show s.arb.fifoOut.tlast = false from hlast] at hst
      exact ⟨of_decide_eq_true hst, rfl⟩
  have hnone (hout : (s.clock c).out = s.out ++ []) (q : Fin numQueues)
      (hq : s.arb.state = .idle ∨ q = s.arb.curQueue) :
      (∀ i, midPacket false (forwarded (s.clock c).out i) =
        (decide (s.arb.state = .wrPkt) && decide (i = q))) ∧
      ∀ p ∈ (s.clock c).out.getLast?, p.2.tlast = false →
        s.arb.state = .wrPkt ∧ p.1 = q := by
    rw [hout, List.append_nil]
    rcases hq with hidle | rfl
    · refine ⟨fun i => ?_, fun p hp hlast => ?_⟩
      · rw [h.mid, hidle]
        rfl
      · exact absurd (hidle.symm.trans (h.last p hp hlast).1) (by decide)
    · exact ⟨h.mid, h.last⟩
  cases hacts with
  | waits v hv => exact hnone hout _ (.inr rfl)
  | skips hs => exact hnone hout _ (.inl hs)
  | earns hs => exact hnone hout _ (.inl hs)
  | begins hs he =>
    apply hread .wrPkt _ hout
    rw [(h.first hF hs he).2]
    rfl
  | goesOn hs =>
    apply hread _ _ hout
    cases s.arb.fifoOut.tlast <;> rfl

theorem Inv.clock (h : Inv maxLen s) (hF : F.Lawful) (hen : (arbiter F maxLen).enabled s c) :
    Inv maxLen (s.clock c) := by
  obtain ⟨hmid, hlast⟩ := h.last_clock hF c
  exact ⟨h.cur_clock c, h.fifo_clock hF, hen, hmid, h.stale_clock hF c, h.credit_clock hF c,
    h.unmixed_clock c, hlast⟩

theorem inv_reachable (hF : F.Lawful) (hs : (arbiter F maxLen).Reachable s) : Inv maxLen s :=
  hs.invariant (fun _ h => h ▸ inv_start hF maxLen) fun _ _ _ h hen => h.clock hF hen

/-- The arbiter loses, repeats and reorders nothing, and lets no packet into another one. -/
theorem arbiter_merges (hF : F.Lawful) (maxLen : ℕ) {s : Watched F}
    (hs : (arbiter F maxLen).Reachable s) :
    (∀ i, s.accepted i = forwarded s.out i ++ F.contents (s.arb.inArbFifo i)) ∧ Unmixed s.out :=
  ⟨(inv_reachable hF hs).fifo, (inv_reachable hF hs).unmixed⟩

/-- The queues of the source have room for 64 words. -/
abbrev smallFifo : Fifo Beat := Fifo.ofList 64 64 1 default

def word (pktLen : BitVec 16) (tlast : Bool) : Beat :=
  ⟨⟨0#256, 0#32, tlast⟩, pktLen.setWidth 128⟩

/-- Two packets arrive at once. -/
def twoArrive : List Cycle :=
  [⟨true, fun i => if i.val < 2 then some (word 64#16 false) else none⟩,
    ⟨true, fun i => if i.val < 2 then some (word 0#16 true) else none⟩]

def quiet (n : ℕ) : List Cycle := List.replicate n ⟨true, fun _ => none⟩

theorem arbiter_merges_twoArrive :
    let s := (arbiter smallFifo 1518).run start (twoArrive ++ quiet 10)
    (arbiter smallFifo 1518).Reachable s ∧
      s.out = [(0, word 64#16 false), (0, word 0#16 true)] ∧
      (∀ i, s.accepted i = forwarded s.out i ++ smallFifo.contents (s.arb.inArbFifo i)) ∧
      Unmixed s.out := by
  intro s
  have hs : (arbiter smallFifo 1518).Reachable s :=
    (System.Reachable.init rfl).run (by decide +kernel)
  exact ⟨hs, by decide +kernel, arbiter_merges (Fifo.lawful_ofList ..) 1518 hs⟩

/-! ## Fairness -/

theorem turns_moved (h : Inv maxLen s) (i : Fin numQueues) :
    turns numQueues i (s.moves + 1) =
      turns numQueues i s.moves + if i = s.arb.curQueue then 1 else 0 := by
  rw [turns_succ, ← h.cur]
  by_cases hi : i = s.arb.curQueue
  · rw [if_pos hi, if_pos (congrArg Fin.val hi.symm)]
  · rw [if_neg hi, if_neg fun hval => hi (Fin.ext hval.symm)]

/-- A queue that does not look empty pays for what it sends and earns a quantum at each turn. -/
theorem Inv.settled_clock (h : Inv maxLen s) (hF : F.Lawful) (hfits : maxLen + 500 < 2 ^ 16)
    (c : Cycle) {i : Fin numQueues} (hi : s.arb.empty i = false) :
    Settled numQueues 500 i s.moves (s.clock c).moves (s.sent i) (s.arb.drrCount i).toNat
      ((s.clock c).sent i) ((s.clock c).arb.drrCount i).toNat := by
  have hacts := s.arb.logic_acts c.mAxisTready
  have hdrr : (s.clock c).arb.drrCount i = (s.arb.logic c.mAxisTready).drrCountNext i :=
    if_neg (by rw [hi]; exact Bool.false_ne_true)
  have hsent : (s.clock c).sent i =
      if (s.arb.logic c.mAxisTready).pktFwdNext = true ∧ i = s.arb.curQueue then
        s.sent i + s.arb.fifoOut.pktLen.toNat else s.sent i := rfl
  have hmoves : (s.clock c).moves =
      if (s.arb.logic c.mAxisTready).curQueueNext = s.arb.curQueue then s.moves
      else s.moves + 1 := rfl
  generalize s.arb.logic c.mAxisTready = l at hacts hdrr hsent hmoves
  have hstill (hm : (s.clock c).moves = s.moves) (hse : (s.clock c).sent i = s.sent i)
      (hd : (s.clock c).arb.drrCount i = s.arb.drrCount i) :
      Settled numQueues 500 i s.moves (s.clock c).moves (s.sent i) (s.arb.drrCount i).toNat
        ((s.clock c).sent i) ((s.clock c).arb.drrCount i).toNat := by
    rw [hm, hse, hd]
    exact Settled.refl ..
  cases hacts with
  | waits v hv =>
    exact hstill (hmoves.trans (if_pos rfl)) (hsent.trans (if_neg (by simp [still]))) hdrr
  | skips hs he =>
    have hne : i ≠ s.arb.curQueue := fun heq => absurd (hi.symm.trans (heq ▸ he)) (by decide)
    have hm := hmoves.trans (if_neg s.arb.nextQueue_ne)
    have hse := hsent.trans (if_neg fun hc => hne hc.2)
    rw [hm, hse, hdrr, Settled, turns_moved h, if_neg hne]
    rfl
  | earns hs he hlt =>
    have hm := hmoves.trans (if_neg s.arb.nextQueue_ne)
    have hse := hsent.trans (if_neg (by simp [still]))
    change _ = Function.update s.arb.drrCount s.arb.curQueue _ i at hdrr
    rw [hm, hse, hdrr, Settled, turns_moved h]
    by_cases hcur : i = s.arb.curQueue
    · subst hcur
      have hlen := (h.first hF hs he).1
      have hlt' : (s.arb.drrCount s.arb.curQueue).toNat < s.arb.fifoOut.pktLen.toNat := hlt
      have hq : quantum.toNat = 500 := rfl
      rw [Function.update_self, if_pos rfl, BitVec.toNat_add, hq, Nat.mod_eq_of_lt (by omega)]
      ring
    · rw [Function.update_of_ne hcur, if_neg hcur]
      rfl
  | begins hs he hle hr =>
    have hm := hmoves.trans (if_pos rfl)
    change _ = if true = true ∧ i = s.arb.curQueue then _ else _ at hsent
    change _ = Function.update s.arb.drrCount s.arb.curQueue _ i at hdrr
    by_cases hcur : i = s.arb.curQueue
    · subst hcur
      have hle' : s.arb.fifoOut.pktLen.toNat ≤ (s.arb.drrCount s.arb.curQueue).toNat := hle
      rw [if_pos ⟨rfl, rfl⟩] at hsent
      rw [Function.update_self] at hdrr
      rw [hm, hsent, hdrr, Settled, BitVec.toNat_sub_of_le hle]
      omega
    · rw [if_neg fun hc => hcur hc.2] at hsent
      rw [Function.update_of_ne hcur] at hdrr
      exact hstill hm hsent hdrr
  | goesOn hs hr he =>
    exact hstill (hmoves.trans (if_pos rfl)) (hsent.trans (if_neg (by simp [still]))) hdrr

/-- As long as two queues do not look empty, neither sends more than a constant more than the
other one. -/
theorem arbiter_fair (hF : F.Lawful) {maxLen : ℕ} (hfits : maxLen + 500 < 2 ^ 16)
    {s t : Watched F} (hs : (arbiter F maxLen).Reachable s) {i j : Fin numQueues}
    (hst : ((arbiter F maxLen).restrict fun s _ =>
      s.arb.empty i = false ∧ s.arb.empty j = false).Steps s t) :
    t.sent i + s.sent j < t.sent j + s.sent i + 500 + 2 * (maxLen + 500) := by
  have hinv := inv_reachable hF hs
  have hsettled : Inv maxLen t ∧
      Settled numQueues 500 i s.moves t.moves (s.sent i) (s.arb.drrCount i).toNat (t.sent i)
        (t.arb.drrCount i).toNat ∧
      Settled numQueues 500 j s.moves t.moves (s.sent j) (s.arb.drrCount j).toNat (t.sent j)
        (t.arb.drrCount j).toNat := by
    induction hst with
    | refl => exact ⟨hinv, Settled.refl .., Settled.refl ..⟩
    | step _ hen ih =>
      obtain ⟨hu, hi, hj⟩ := ih
      obtain ⟨hen, hbusy, hbusy'⟩ := hen
      exact ⟨hu.clock hF hen, hi.trans (hu.settled_clock hF hfits _ hbusy),
        hj.trans (hu.settled_clock hF hfits _ hbusy')⟩
  obtain ⟨ht, hi, hj⟩ := hsettled
  exact Settled.le i.isLt j.isLt hi hj (hinv.credit i) (ht.credit j)

theorem arbiter_fair_twoArrive :
    let s := (arbiter smallFifo 1518).run start twoArrive
    let t := (arbiter smallFifo 1518).run s (quiet 10)
    t.sent 0 = 64 ∧ t.sent 0 + s.sent 1 < t.sent 1 + s.sent 0 + 500 + 2 * (1518 + 500) := by
  intro s t
  have hs : (arbiter smallFifo 1518).Reachable s :=
    (System.Reachable.init rfl).run (by decide +kernel)
  have hl : ((arbiter smallFifo 1518).restrict fun s _ =>
      s.arb.empty 0 = false ∧ s.arb.empty 1 = false).Allowed s (quiet 10) := by decide +kernel
  have hst := hl.history (R := fun _ t => System.Steps _ s t) (fun _ _ _ h hen => h.step hen) .refl
  rw [System.run_restrict] at hst
  exact ⟨by decide +kernel, arbiter_fair (Fifo.lawful_ofList ..) (by decide) hs hst⟩

end Watched

end P4Survey.NetFpga
