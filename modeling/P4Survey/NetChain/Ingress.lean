import P4Survey.Lib.Inet
import P4Survey.Lib.Register

/-! # The NetChain ingress pipeline

The ingress control of `netchain_16.p4`, action by action and table by table,
on headers as the parser delivers them. A header that was not extracted has all
its fields zero, and so has an element past the end of the overlay stack.
-/

namespace P4Survey.NetChain
open Lib

/-- The number of cells of `sequence_reg` and `value_reg`. -/
abbrev regSize : ℕ := 4096

structure NcHdr where
  op : BitVec 8
  sc : BitVec 8
  seq : BitVec 16
  key : BitVec 128
  value : BitVec 128
  vgroup : BitVec 16
  deriving DecidableEq, Inhabited

structure Headers where
  ethernetValid : Bool
  ethernet : Ethernet
  ipv4Valid : Bool
  ipv4 : Ipv4
  udpValid : Bool
  udp : Udp
  tcpValid : Bool
  tcp : Tcp
  overlay : List (BitVec 32)
  ncHdrValid : Bool
  ncHdr : NcHdr
  deriving DecidableEq, Inhabited

/-- The field `swip` of an element of the overlay stack. -/
def Headers.swip (h : Headers) (i : ℕ) : BitVec 32 := h.overlay.getD i 0#32

/-- The actions of the table `failure_recovery`. -/
inductive RecoveryAction where
  | failoverAct
  | failoverWriteReplyAct
  | failureRecoveryAct (nexthop : BitVec 32)
  | nop
  | dropPacketAct
  deriving DecidableEq

/-- The table entries of one switch. Tables without a key always run their one
action, except `pop_chain_again`, which only some switches configure. -/
structure Tables where
  getMyAddress : BitVec 128 → Option (BitVec 32 × BitVec 16)
  findIndex : BitVec 128 → Option (BitVec 16)
  genReply : BitVec 8 → Option (BitVec 8)
  failureRecovery : BitVec 32 → BitVec 32 → BitVec 16 → RecoveryAction
  ipv4Route : BitVec 32 → Option (BitVec 9)
  ethernetSetMac : BitVec 9 → Option (BitVec 48 × BitVec 48)
  popChainAgain : Bool

structure Switch where
  sequenceReg : Register 16 regSize
  valueReg : Register 128 regSize

namespace Switch

def seq (st : Switch) (i : BitVec 16) : BitVec 16 := st.sequenceReg.read i.toNat

def value (st : Switch) (i : BitVec 16) : BitVec 128 := st.valueReg.read i.toNat

end Switch

/-- What a packet carries through the pipeline, its metadata included. -/
structure Pipe where
  regs : Switch
  hdr : Headers
  index : BitVec 16
  ipaddress : BitVec 32
  role : BitVec 16
  seq : BitVec 16
  egressSpec : BitVec 9

namespace Pipe

def assignValueAct (p : Pipe) : Pipe :=
  { p with regs := {
      sequenceReg := p.regs.sequenceReg.write p.index.toNat p.hdr.ncHdr.seq
      valueReg := p.regs.valueReg.write p.index.toNat p.hdr.ncHdr.value } }

def dropPacketAct (p : Pipe) : Pipe := { p with egressSpec := dropPort }

def popChainAct (p : Pipe) : Pipe :=
  { p with hdr := { p.hdr with
      ncHdr := { p.hdr.ncHdr with sc := p.hdr.ncHdr.sc + 255#8 }
      overlay := p.hdr.overlay.tail
      udp := { p.hdr.udp with len := p.hdr.udp.len + 65532#16 }
      ipv4 := { p.hdr.ipv4 with totalLen := p.hdr.ipv4.totalLen + 65532#16 } } }

def failoverAct (p : Pipe) : Pipe :=
  popChainAct { p with hdr := { p.hdr with
    ipv4 := { p.hdr.ipv4 with dstAddr := p.hdr.swip 1 } } }

def genReplyAct (messageType : BitVec 8) (p : Pipe) : Pipe :=
  { p with hdr := { p.hdr with
      ipv4 := { p.hdr.ipv4 with srcAddr := p.hdr.ipv4.dstAddr, dstAddr := p.hdr.ipv4.srcAddr }
      ncHdr := { p.hdr.ncHdr with op := messageType }
      udp := { p.hdr.udp with dstPort := 8889#16 } } }

def failoverWriteReplyAct (p : Pipe) : Pipe := p.genReplyAct 13#8

/-- Writing an element of the stack that is not there has no effect. -/
def failureRecoveryAct (nexthop : BitVec 32) (p : Pipe) : Pipe :=
  { p with hdr := { p.hdr with
      overlay := p.hdr.overlay.set 0 nexthop
      ipv4 := { p.hdr.ipv4 with dstAddr := nexthop } } }

def getNextHopAct (p : Pipe) : Pipe :=
  { p with hdr := { p.hdr with ipv4 := { p.hdr.ipv4 with dstAddr := p.hdr.swip 0 } } }

def getSequenceAct (p : Pipe) : Pipe := { p with seq := p.regs.seq p.index }

def setEgress (spec : BitVec 9) (p : Pipe) : Pipe :=
  { p with
    egressSpec := spec
    hdr := { p.hdr with ipv4 := { p.hdr.ipv4 with ttl := p.hdr.ipv4.ttl + 255#8 } } }

def maintainSequenceAct (p : Pipe) : Pipe :=
  let seq := p.seq + 1#16
  let reg := p.regs.sequenceReg.write p.index.toNat seq
  { p with
    seq := seq
    regs := { p.regs with sequenceReg := reg }
    hdr := { p.hdr with ncHdr := { p.hdr.ncHdr with seq := reg.read p.index.toNat } } }

def readValueAct (p : Pipe) : Pipe :=
  { p with hdr := { p.hdr with ncHdr := { p.hdr.ncHdr with value := p.regs.value p.index } } }

def getMyAddress (t : Tables) (p : Pipe) : Pipe :=
  match t.getMyAddress p.hdr.ncHdr.key with
  | some (ip, role) => { p with ipaddress := ip, role := role }
  | none => p

def findIndex (t : Tables) (p : Pipe) : Pipe :=
  match t.findIndex p.hdr.ncHdr.key with
  | some i => { p with index := i }
  | none => p

def popChainAgain (t : Tables) (p : Pipe) : Pipe := if t.popChainAgain then p.popChainAct else p

def genReply (t : Tables) (p : Pipe) : Pipe :=
  match t.genReply p.hdr.ncHdr.op with
  | some m => p.genReplyAct m
  | none => p

def failureRecovery (t : Tables) (p : Pipe) : Pipe :=
  match t.failureRecovery p.hdr.ipv4.dstAddr (p.hdr.swip 1) p.hdr.ncHdr.vgroup with
  | .failoverAct => p.failoverAct
  | .failoverWriteReplyAct => p.failoverWriteReplyAct
  | .failureRecoveryAct nexthop => p.failureRecoveryAct nexthop
  | .nop => p
  | .dropPacketAct => p.dropPacketAct

def ipv4Route (t : Tables) (p : Pipe) : Pipe :=
  match t.ipv4Route p.hdr.ipv4.dstAddr with
  | some spec => p.setEgress spec
  | none => p

/-- The branch of a write request; role 100 is the head of the chain. -/
def writeRequest (p : Pipe) : Pipe :=
  let p := if p.role = 100#16 then p.maintainSequenceAct else p
  if p.role = 100#16 ∨ p.seq < p.hdr.ncHdr.seq then p.assignValueAct.popChainAct
  else p.dropPacketAct

/-- The branch of the requested operation. -/
def operate (p : Pipe) : Pipe :=
  if p.hdr.ncHdr.op = 10#8 then p.readValueAct
  else if p.hdr.ncHdr.op = 12#8 then p.writeRequest
  else p

/-- The tail, of role 102, replies to the client; the others pass the packet on. -/
def answer (t : Tables) (p : Pipe) : Pipe :=
  if p.role = 102#16 then (p.popChainAgain t).genReply t else p.getNextHopAct

def serve (t : Tables) (p : Pipe) : Pipe := (p.findIndex t).getSequenceAct.operate.answer t

/-- The part of the control under the first validity test. -/
def process (t : Tables) (p : Pipe) : Pipe :=
  let p := p.getMyAddress t
  if p.hdr.ipv4.dstAddr = p.ipaddress then p.serve t else p

def start (regs : Switch) (h : Headers) : Pipe := ⟨regs, h, 0#16, 0#32, 0#16, 0#16, 0#9⟩

end Pipe

/-- The ingress control up to the table `ipv4_route`. -/
def beforeRoute (t : Tables) (regs : Switch) (h : Headers) : Pipe :=
  if h.ncHdrValid then ((Pipe.start regs h).process t).failureRecovery t else Pipe.start regs h

/-- One packet through the ingress control. -/
def ingress (t : Tables) (regs : Switch) (h : Headers) : Pipe :=
  let p := beforeRoute t regs h
  if p.hdr.tcpValid || p.hdr.udpValid then p.ipv4Route t else p

/-- The egress control: `ethernet_set_mac` on the chosen port. -/
def egress (t : Tables) (p : Pipe) : Headers :=
  match t.ethernetSetMac p.egressSpec with
  | some (smac, dmac) =>
    { p.hdr with ethernet := { p.hdr.ethernet with srcAddr := smac, dstAddr := dmac } }
  | none => p.hdr

/-- The headers with which a packet leaves the switch, if it does. -/
def emit (t : Tables) (regs : Switch) (h : Headers) : Option Headers :=
  if (ingress t regs h).egressSpec = dropPort then none else some (egress t (ingress t regs h))

namespace Tables

/-- The own address that `get_my_address` finds for a key. -/
def myAddress (t : Tables) (key : BitVec 128) : BitVec 32 :=
  ((t.getMyAddress key).map Prod.fst).getD 0#32

def role (t : Tables) (key : BitVec 128) : BitVec 16 :=
  ((t.getMyAddress key).map Prod.snd).getD 0#16

def index (t : Tables) (key : BitVec 128) : BitVec 16 := (t.findIndex key).getD 0#16

/-- The packet is a NetChain packet that this switch has to serve. -/
def Serves (t : Tables) (h : Headers) : Prop :=
  h.ncHdrValid = true ∧ h.ipv4.dstAddr = t.myAddress h.ncHdr.key

instance (t : Tables) (h : Headers) : Decidable (t.Serves h) := inferInstanceAs (Decidable (_ ∧ _))

end Tables

namespace Headers

def IsWrite (h : Headers) : Prop := h.ncHdrValid = true ∧ h.ncHdr.op = 12#8

instance (h : Headers) : Decidable h.IsWrite := inferInstanceAs (Decidable (_ ∧ _))

end Headers

namespace Pipe

/-- The pipeline of a served packet when its operation starts. -/
def located (t : Tables) (regs : Switch) (h : Headers) : Pipe :=
  ⟨regs, h, t.index h.ncHdr.key, t.myAddress h.ncHdr.key, t.role h.ncHdr.key,
    regs.seq (t.index h.ncHdr.key), 0#9⟩

theorem getMyAddress_start (t : Tables) (regs : Switch) (h : Headers) :
    (start regs h).getMyAddress t =
      ⟨regs, h, 0#16, t.myAddress h.ncHdr.key, t.role h.ncHdr.key, 0#16, 0#9⟩ := by
  unfold getMyAddress start Tables.myAddress Tables.role
  cases t.getMyAddress h.ncHdr.key <;> rfl

theorem process_of_serves {t : Tables} {h : Headers} (hs : t.Serves h) (regs : Switch) :
    (start regs h).process t = (located t regs h).operate.answer t := by
  unfold process serve
  rw [getMyAddress_start]
  simp only [hs.2, if_true]
  congr 2
  unfold findIndex getSequenceAct located Tables.index
  cases t.findIndex h.ncHdr.key <;> rfl

theorem process_of_not_serves {t : Tables} {h : Headers} (hv : h.ncHdrValid = true)
    (hs : ¬ t.Serves h) (regs : Switch) :
    (start regs h).process t =
      ⟨regs, h, 0#16, t.myAddress h.ncHdr.key, t.role h.ncHdr.key, 0#16, 0#9⟩ := by
  unfold process
  rw [getMyAddress_start]
  exact if_neg fun hd => hs ⟨hv, hd⟩

theorem operate_read {p : Pipe} (hop : p.hdr.ncHdr.op = 10#8) : p.operate = p.readValueAct := by
  rw [operate, if_pos hop]

theorem operate_head {p : Pipe} (hop : p.hdr.ncHdr.op = 12#8) (hr : p.role = 100#16) :
    p.operate = p.maintainSequenceAct.assignValueAct.popChainAct := by
  simp [operate, writeRequest, hop, hr, maintainSequenceAct]

theorem operate_accept {p : Pipe} (hop : p.hdr.ncHdr.op = 12#8) (hr : p.role ≠ 100#16)
    (hs : p.seq < p.hdr.ncHdr.seq) : p.operate = p.assignValueAct.popChainAct := by
  simp [operate, writeRequest, hop, hr, hs]

theorem operate_refuse {p : Pipe} (hop : p.hdr.ncHdr.op = 12#8) (hr : p.role ≠ 100#16)
    (hs : ¬ p.seq < p.hdr.ncHdr.seq) : p.operate = p.dropPacketAct := by
  simp [operate, writeRequest, hop, hr, hs]

theorem operate_regs_of_not_write {p : Pipe} (hop : p.hdr.ncHdr.op ≠ 12#8) :
    p.operate.regs = p.regs ∧ p.operate.hdr.ncHdr.op = p.hdr.ncHdr.op := by
  unfold operate
  by_cases h10 : p.hdr.ncHdr.op = 10#8
  · simp [h10, readValueAct]
  · simp [h10, hop]

@[simp] theorem popChainAct_regs (p : Pipe) : p.popChainAct.regs = p.regs := by
  cases p
  rfl

@[simp] theorem popChainAct_role (p : Pipe) : p.popChainAct.role = p.role := by
  cases p
  rfl

@[simp] theorem popChainAct_egressSpec (p : Pipe) : p.popChainAct.egressSpec = p.egressSpec := by
  cases p
  rfl

@[simp] theorem popChainAct_valid (p : Pipe) : p.popChainAct.hdr.tcpValid = p.hdr.tcpValid ∧
    p.popChainAct.hdr.udpValid = p.hdr.udpValid ∧
    p.popChainAct.hdr.ncHdrValid = p.hdr.ncHdrValid := by
  rcases p with ⟨_, ⟨⟩, _⟩
  simp only [popChainAct, and_self]

@[simp] theorem popChainAct_overlay (p : Pipe) :
    p.popChainAct.hdr.overlay = p.hdr.overlay.tail := by
  cases p
  rfl

@[simp] theorem popChainAct_srcAddr (p : Pipe) :
    p.popChainAct.hdr.ipv4.srcAddr = p.hdr.ipv4.srcAddr := by
  rcases p with ⟨_, ⟨_, _, _, ⟨⟩, _⟩, _⟩
  dsimp only [popChainAct]

@[simp] theorem popChainAct_dstAddr (p : Pipe) :
    p.popChainAct.hdr.ipv4.dstAddr = p.hdr.ipv4.dstAddr := by
  rcases p with ⟨_, ⟨_, _, _, ⟨⟩, _⟩, _⟩
  dsimp only [popChainAct]

@[simp] theorem popChainAct_ncHdr (p : Pipe) : p.popChainAct.hdr.ncHdr =
    { p.hdr.ncHdr with sc := p.hdr.ncHdr.sc + 255#8 } := by
  cases p
  rfl

@[simp] theorem genReplyAct_regs (m : BitVec 8) (p : Pipe) : (p.genReplyAct m).regs = p.regs := rfl

@[simp] theorem popChainAgain_regs (t : Tables) (p : Pipe) :
    (p.popChainAgain t).regs = p.regs := by
  unfold popChainAgain
  split
  · exact popChainAct_regs p
  · rfl

@[simp] theorem genReply_regs (t : Tables) (p : Pipe) : (p.genReply t).regs = p.regs := by
  unfold genReply
  split
  · exact genReplyAct_regs _ p
  · rfl

@[simp] theorem answer_regs (t : Tables) (p : Pipe) : (p.answer t).regs = p.regs := by
  unfold answer
  split
  · rw [genReply_regs, popChainAgain_regs]
  · rfl

@[simp] theorem failureRecovery_regs (t : Tables) (p : Pipe) :
    (p.failureRecovery t).regs = p.regs := by
  unfold failureRecovery
  split
  · exact popChainAct_regs _
  · exact genReplyAct_regs _ p
  · rfl
  · rfl
  · rfl

theorem failureRecovery_nop {t : Tables} (ht : ∀ dst next vgroup,
    t.failureRecovery dst next vgroup = .nop) (p : Pipe) : p.failureRecovery t = p := by
  simp [failureRecovery, ht]

@[simp] theorem ipv4Route_regs (t : Tables) (p : Pipe) : (p.ipv4Route t).regs = p.regs := by
  unfold ipv4Route
  split <;> rfl

/-- Routing changes no header field but the time to live. -/
theorem ipv4Route_hdr (t : Tables) (p : Pipe) :
    ∃ ttl, (p.ipv4Route t).hdr = { p.hdr with ipv4 := { p.hdr.ipv4 with ttl := ttl } } := by
  unfold ipv4Route
  split
  · exact ⟨_, rfl⟩
  · exact ⟨p.hdr.ipv4.ttl, rfl⟩

end Pipe

theorem ingress_regs (t : Tables) (regs : Switch) (h : Headers) :
    (ingress t regs h).regs = (beforeRoute t regs h).regs := by
  unfold ingress
  dsimp only
  split
  · exact Pipe.ipv4Route_regs t _
  · rfl

theorem ingress_hdr (t : Tables) (regs : Switch) (h : Headers) :
    ∃ ttl, (ingress t regs h).hdr = { (beforeRoute t regs h).hdr with
      ipv4 := { (beforeRoute t regs h).hdr.ipv4 with ttl := ttl } } := by
  unfold ingress
  dsimp only
  split
  · exact Pipe.ipv4Route_hdr t _
  · exact ⟨_, rfl⟩

theorem beforeRoute_of_serves {t : Tables} {h : Headers} (hs : t.Serves h) (regs : Switch) :
    beforeRoute t regs h =
      ((Pipe.located t regs h).operate.answer t).failureRecovery t := by
  rw [beforeRoute, if_pos hs.1, Pipe.process_of_serves hs]

theorem beforeRoute_regs_of_not_serves {t : Tables} {h : Headers} (hs : ¬ t.Serves h)
    (regs : Switch) : (beforeRoute t regs h).regs = regs := by
  unfold beforeRoute
  by_cases hv : h.ncHdrValid = true
  · rw [if_pos hv, Pipe.failureRecovery_regs, Pipe.process_of_not_serves hv hs]
  · rw [if_neg hv]
    rfl

/-- Only a write that the switch serves can change its registers. -/
theorem ingress_regs_eq {t : Tables} {h : Headers} (hw : ¬ (t.Serves h ∧ h.ncHdr.op = 12#8))
    (regs : Switch) : (ingress t regs h).regs = regs := by
  rw [ingress_regs]
  by_cases hs : t.Serves h
  · rw [beforeRoute_of_serves hs, Pipe.failureRecovery_regs, Pipe.answer_regs]
    exact (Pipe.operate_regs_of_not_write fun hop => hw ⟨hs, hop⟩).1
  · exact beforeRoute_regs_of_not_serves hs regs

end P4Survey.NetChain
