import P4Survey.Lib.Inet
import P4Survey.Lib.Register

/-! # The NetPaxos acceptor pipeline

The ingress control of `netpaxos_acceptor_16.p4` with the rules of
`acceptor_rules.p4cfg`, on headers as its parser delivers them. A packet whose
proposal is below the round of its instance is dropped; otherwise message type
1 is answered as phase 1B, type 3 as phase 2B, and other types pass unchanged.
-/

namespace P4Survey.NetPaxos
open Lib

/-- The number of cells of the per-instance registers. -/
abbrev instCount : ℕ := 64000

/-- The fields of `paxos_t` that the pipelines read or write. -/
structure Paxos where
  inst : BitVec 32
  proposal : BitVec 16
  vproposal : BitVec 16
  acpt : BitVec 16
  msgtype : BitVec 16
  val : BitVec 32
  deriving DecidableEq, Inhabited

structure Headers where
  ipv4Valid : Bool
  udp : Udp
  paxosValid : Bool
  paxos : Paxos
  deriving DecidableEq, Inhabited

/-- The two forwarding rules `host2net` and `net2host`. -/
structure FwdRules where
  v0 : BitVec 9
  p0 : BitVec 9
  v0_ne_drop : v0 ≠ dropPort
  p0_ne_drop : p0 ≠ dropPort

/-- The egress specification `fwd_tbl` sets: `forward` on a rule, `_drop` by default. -/
def FwdRules.fwdTbl (r : FwdRules) (port : BitVec 9) : BitVec 9 :=
  if port = r.v0 then r.p0 else if port = r.p0 then r.v0 else dropPort

/-- A switch whose host is on port 1 and whose network is on port 2. -/
def twoPorts : FwdRules := ⟨1, 2, by decide, by decide⟩

/-- What a pipeline leaves behind: registers, headers and egress specification. -/
structure Outcome (σ : Type*) where
  regs : σ
  hdr : Headers
  egressSpec : BitVec 9

structure Acceptor where
  acceptorId : Register 16 1
  proposalRegister : Register 16 instCount
  valRegister : Register 32 instCount
  vproposalRegister : Register 16 instCount

namespace Acceptor

/-- All registers zero. -/
def zero : Acceptor :=
  ⟨.fill 1 0#16, .fill instCount 0#16, .fill instCount 0#32, .fill instCount 0#16⟩

def round (st : Acceptor) (i : BitVec 32) : BitVec 16 := st.proposalRegister.read i.toNat

def vround (st : Acceptor) (i : BitVec 32) : BitVec 16 := st.vproposalRegister.read i.toNat

def value (st : Acceptor) (i : BitVec 32) : BitVec 32 := st.valRegister.read i.toNat

def handlePhase1a (st : Acceptor) (h : Headers) : Acceptor × Headers :=
  ({ st with
      proposalRegister := st.proposalRegister.write h.paxos.inst.toNat h.paxos.proposal },
    { h with
      paxos := { h.paxos with
        vproposal := st.vround h.paxos.inst
        val := st.value h.paxos.inst
        msgtype := 2#16
        acpt := st.acceptorId.read 0 }
      udp := { h.udp with checksum := 0#16 } })

def handlePhase2a (st : Acceptor) (h : Headers) : Acceptor × Headers :=
  ({ st with
      proposalRegister := st.proposalRegister.write h.paxos.inst.toNat h.paxos.proposal
      vproposalRegister := st.vproposalRegister.write h.paxos.inst.toNat h.paxos.proposal
      valRegister := st.valRegister.write h.paxos.inst.toNat h.paxos.val },
    { h with
      paxos := { h.paxos with
        msgtype := 4#16
        vproposal := h.paxos.proposal
        acpt := st.acceptorId.read 0 }
      udp := { h.udp with checksum := 0#16 } })

def paxosTbl (st : Acceptor) (h : Headers) : Acceptor × Headers :=
  if h.paxos.msgtype = 1#16 then st.handlePhase1a h
  else if h.paxos.msgtype = 3#16 then st.handlePhase2a h
  else (st, h)

/-- One packet through the ingress control; `round_tbl` reads the round first. -/
def ingress (r : FwdRules) (st : Acceptor) (port : BitVec 9) (h : Headers) : Outcome Acceptor :=
  let spec := if h.ipv4Valid then r.fwdTbl port else 0#9
  if h.paxosValid then
    if st.round h.paxos.inst ≤ h.paxos.proposal then
      ⟨(st.paxosTbl h).1, (st.paxosTbl h).2, spec⟩
    else ⟨st, h, dropPort⟩
  else ⟨st, h, spec⟩

@[simp] theorem zero_round (i : BitVec 32) : zero.round i = 0#16 := Register.read_fill_zero _

@[simp] theorem zero_vround (i : BitVec 32) : zero.vround i = 0#16 := Register.read_fill_zero _

@[simp] theorem zero_value (i : BitVec 32) : zero.value i = 0#32 := Register.read_fill_zero _

theorem handlePhase1a_round (st : Acceptor) (h : Headers) (i : BitVec 32) :
    (st.handlePhase1a h).1.round i =
      if h.paxos.inst = i ∧ i.toNat < instCount then h.paxos.proposal else st.round i := by
  rw [round, handlePhase1a, Register.read_write]
  by_cases he : h.paxos.inst = i
  · simp [he, round]
  · simp [he, round, BitVec.toNat_inj]

theorem handlePhase2a_round (st : Acceptor) (h : Headers) (i : BitVec 32) :
    (st.handlePhase2a h).1.round i =
      if h.paxos.inst = i ∧ i.toNat < instCount then h.paxos.proposal else st.round i := by
  rw [round, handlePhase2a, Register.read_write]
  by_cases he : h.paxos.inst = i
  · simp [he, round]
  · simp [he, round, BitVec.toNat_inj]

theorem handlePhase2a_vround (st : Acceptor) (h : Headers) (i : BitVec 32) :
    (st.handlePhase2a h).1.vround i =
      if h.paxos.inst = i ∧ i.toNat < instCount then h.paxos.proposal else st.vround i := by
  rw [vround, handlePhase2a, Register.read_write]
  by_cases he : h.paxos.inst = i
  · simp [he, vround]
  · simp [he, vround, BitVec.toNat_inj]

theorem handlePhase2a_value (st : Acceptor) (h : Headers) (i : BitVec 32) :
    (st.handlePhase2a h).1.value i =
      if h.paxos.inst = i ∧ i.toNat < instCount then h.paxos.val else st.value i := by
  rw [value, handlePhase2a, Register.read_write]
  by_cases he : h.paxos.inst = i
  · simp [he, value]
  · simp [he, value, BitVec.toNat_inj]

end Acceptor

/-- A valid Paxos packet of message type 1. -/
def Headers.IsPhase1a (h : Headers) : Prop := h.paxosValid = true ∧ h.paxos.msgtype = 1#16

/-- A valid Paxos packet of message type 3. -/
def Headers.IsPhase2a (h : Headers) : Prop := h.paxosValid = true ∧ h.paxos.msgtype = 3#16

instance (h : Headers) : Decidable h.IsPhase1a := inferInstanceAs (Decidable (_ ∧ _))

instance (h : Headers) : Decidable h.IsPhase2a := inferInstanceAs (Decidable (_ ∧ _))

namespace Acceptor

/-- Every way a packet can go through the ingress control: it leaves registers
and headers alone, or it is a 1A or a 2A that is not below the round. -/
theorem ingress_cases (r : FwdRules) (st : Acceptor) (port : BitVec 9) (h : Headers) :
    ((ingress r st port h).regs = st ∧ (ingress r st port h).hdr = h ∧
        (h.paxosValid = true → st.round h.paxos.inst ≤ h.paxos.proposal →
          h.paxos.msgtype ≠ 1#16 ∧ h.paxos.msgtype ≠ 3#16)) ∨
      (h.IsPhase1a ∧ st.round h.paxos.inst ≤ h.paxos.proposal ∧
        (ingress r st port h).regs = (st.handlePhase1a h).1 ∧
        (ingress r st port h).hdr = (st.handlePhase1a h).2) ∨
      (h.IsPhase2a ∧ st.round h.paxos.inst ≤ h.paxos.proposal ∧
        (ingress r st port h).regs = (st.handlePhase2a h).1 ∧
        (ingress r st port h).hdr = (st.handlePhase2a h).2) := by
  unfold ingress paxosTbl Headers.IsPhase1a Headers.IsPhase2a
  by_cases hv : h.paxosValid = true
  · by_cases hr : st.round h.paxos.inst ≤ h.paxos.proposal
    · by_cases h1 : h.paxos.msgtype = 1#16
      · simp [hv, hr, h1]
      · by_cases h3 : h.paxos.msgtype = 3#16
        · simp [hv, hr, h3]
        · simp [hv, hr, h1, h3]
    · simp [hv, hr]
  · simp [hv]

/-- The egress specification of an answered packet is the one of `fwd_tbl`. -/
theorem ingress_egressSpec (r : FwdRules) (st : Acceptor) (port : BitVec 9) (h : Headers)
    (hr : st.round h.paxos.inst ≤ h.paxos.proposal) :
    (ingress r st port h).egressSpec = if h.ipv4Valid then r.fwdTbl port else 0#9 := by
  unfold ingress
  by_cases hv : h.paxosValid = true
  · simp [hv, hr]
  · simp [hv]

end Acceptor

end P4Survey.NetPaxos
