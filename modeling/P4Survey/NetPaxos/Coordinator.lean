import P4Survey.NetPaxos.Acceptor

/-! # The NetPaxos coordinator pipeline

The ingress control of `netpaxos_coordinator_16.p4` with the rules of
`coord_rules.p4cfg`. Message type 0 takes the next instance number from cell 0
of `inst_register` and leaves as phase 2A; type `0xff` resets the counter.
-/

namespace P4Survey.NetPaxos
open Lib

structure Coordinator where
  instRegister : Register 32 instCount

namespace Coordinator

def zero : Coordinator := ⟨.fill instCount 0#32⟩

/-- The instance number the next request gets. -/
def nextInst (c : Coordinator) : BitVec 32 := c.instRegister.read 0

def increaseSequence (c : Coordinator) (h : Headers) : Coordinator × Headers :=
  (⟨c.instRegister.write 0 (c.nextInst + 1#32)⟩,
    { h with
      paxos := { h.paxos with inst := c.nextInst, msgtype := 3#16 }
      udp := { h.udp with checksum := 0#16 } })

def resetPaxos (c : Coordinator) (h : Headers) : Coordinator × Headers :=
  (⟨c.instRegister.write 0 0#32⟩, h)

def paxosTbl (c : Coordinator) (h : Headers) : Coordinator × Headers :=
  if h.paxos.msgtype = 0#16 then c.increaseSequence h
  else if h.paxos.msgtype = 0xff#16 then c.resetPaxos h
  else (c, h)

/-- One packet through the ingress control. -/
def ingress (r : FwdRules) (c : Coordinator) (port : BitVec 9) (h : Headers) :
    Outcome Coordinator :=
  let spec := if h.ipv4Valid then r.fwdTbl port else 0#9
  if h.paxosValid then ⟨(c.paxosTbl h).1, (c.paxosTbl h).2, spec⟩ else ⟨c, h, spec⟩

/-- The registers after a list of packets. -/
def run (r : FwdRules) (c : Coordinator) : List (BitVec 9 × Headers) → Coordinator
  | [] => c
  | x :: l => run r (c.ingress r x.1 x.2).regs l

@[simp] theorem zero_nextInst : zero.nextInst = 0#32 := Register.read_fill_zero _

theorem increaseSequence_nextInst (c : Coordinator) (h : Headers) :
    (c.increaseSequence h).1.nextInst = c.nextInst + 1#32 :=
  Register.read_write_self _ (by decide) _

end Coordinator

/-- A client request: a valid Paxos packet of message type 0. -/
def Headers.IsRequest (h : Headers) : Prop :=
  h.ipv4Valid = true ∧ h.paxosValid = true ∧ h.paxos.msgtype = 0#16

instance (h : Headers) : Decidable h.IsRequest := inferInstanceAs (Decidable (_ ∧ _))

/-- The two ports that have a forwarding rule. -/
def FwdRules.Connected (r : FwdRules) (port : BitVec 9) : Prop := port = r.v0 ∨ port = r.p0

theorem FwdRules.fwdTbl_ne_drop (r : FwdRules) {port : BitVec 9} (h : r.Connected port) :
    r.fwdTbl port ≠ dropPort := by
  unfold fwdTbl
  rcases h with h | h
  · rw [if_pos h]
    exact r.p0_ne_drop
  · by_cases h0 : port = r.v0
    · rw [if_pos h0]
      exact r.p0_ne_drop
    · rw [if_neg h0, if_pos h]
      exact r.v0_ne_drop

namespace Coordinator

/-- A request gets the next instance number and leaves where `fwd_tbl` says. -/
theorem ingress_request (r : FwdRules) (c : Coordinator) (port : BitVec 9) {h : Headers}
    (hq : h.IsRequest) :
    c.ingress r port h =
      ⟨(c.increaseSequence h).1, (c.increaseSequence h).2, r.fwdTbl port⟩ := by
  obtain ⟨hi, hv, hm⟩ := hq
  simp [ingress, paxosTbl, hi, hv, hm]

/-- The coordinator, from zeroed registers, can emit a 2A for instance `i`. -/
def Assigns (r : FwdRules) (i : BitVec 32) : Prop :=
  ∃ (pre : List (BitVec 9 × Headers)) (port : BitVec 9) (h : Headers),
    let o := (zero.run r pre).ingress r port h
    o.hdr.IsPhase2a ∧ o.hdr.paxos.inst = i ∧ o.egressSpec ≠ dropPort

theorem run_replicate (r : FwdRules) (c : Coordinator) (port : BitVec 9) {h : Headers}
    (hq : h.IsRequest) (n : ℕ) :
    (c.run r (List.replicate n (port, h))).nextInst = c.nextInst + BitVec.ofNat 32 n := by
  induction n generalizing c with
  | zero => simp [run]
  | succ n ih =>
    rw [List.replicate_succ, run, ih, ingress_request r c port hq, increaseSequence_nextInst]
    bv_omega

/-- The counter runs through all 32-bit numbers. -/
theorem assigns (r : FwdRules) (i : BitVec 32) : Assigns r i := by
  let h : Headers := ⟨true, default, true, default⟩
  have hq : h.IsRequest := by decide
  refine ⟨List.replicate i.toNat (r.v0, h), r.v0, h, ?_⟩
  rw [ingress_request r _ _ hq]
  refine ⟨⟨rfl, rfl⟩, ?_, r.fwdTbl_ne_drop (.inl rfl)⟩
  have hn := run_replicate r zero r.v0 hq i.toNat
  simpa [increaseSequence] using hn

end Coordinator

end P4Survey.NetPaxos
