import P4Survey.Lib.System
import P4Survey.NetChain.Write

/-! # Failure recovery

The controller of `fail_recovery.py` at work on a chain with one failed switch,
while the surviving switches and the backup keep processing packets. For each
virtual group it disables the group at the neighbor, reads the sequence
registers and then the value registers of the copied-from switch, fills the
tables and registers of the backup, and enables the group again.
-/

namespace P4Survey.NetChain
open Lib

/-- A ternary entry of `failure_recovery`: the destination is matched in full, the
virtual group in its low eight bits or not at all; a lower number goes first. -/
structure Rule where
  dstAddr : BitVec 32
  vgroup : Option (BitVec 16)
  action : RecoveryAction
  priority : ℕ

namespace Rule

def Matches (r : Rule) (dst : BitVec 32) (vgroup : BitVec 16) : Prop :=
  dst = r.dstAddr ∧ ∀ g, r.vgroup = some g → vgroup &&& 255#16 = g &&& 255#16

instance (r : Rule) (dst : BitVec 32) (vgroup : BitVec 16) : Decidable (r.Matches dst vgroup) :=
  match h : r.vgroup with
  | none => decidable_of_iff (dst = r.dstAddr) (by simp [Matches, h])
  | some g => decidable_of_iff (dst = r.dstAddr ∧ vgroup &&& 255#16 = g &&& 255#16)
      (by simp [Matches, h])

/-- The matching entry that goes first. -/
def lookup : List Rule → BitVec 32 → BitVec 16 → Option Rule
  | [], _, _ => none
  | r :: l, dst, vgroup =>
    if r.Matches dst vgroup then
      match lookup l dst vgroup with
      | some r' => if r'.priority < r.priority then some r' else some r
      | none => some r
    else lookup l dst vgroup

/-- The action of the table, `nop` by default. -/
def actionFor (l : List Rule) (dst _next : BitVec 32) (vgroup : BitVec 16) : RecoveryAction :=
  match lookup l dst vgroup with
  | some r => r.action
  | none => .nop

theorem lookup_mem {l : List Rule} {dst : BitVec 32} {vgroup : BitVec 16} {r : Rule}
    (h : lookup l dst vgroup = some r) : r ∈ l ∧ r.Matches dst vgroup := by
  induction l with
  | nil => simp [lookup] at h
  | cons a l ih =>
    rw [lookup] at h
    split_ifs at h with ha
    · cases hl : lookup l dst vgroup with
      | none =>
        simp only [hl] at h
        obtain rfl := Option.some.inj h
        exact ⟨List.mem_cons_self, ha⟩
      | some r' =>
        simp only [hl] at h
        split_ifs at h
        · obtain rfl := Option.some.inj h
          exact ⟨List.mem_cons_of_mem _ (ih hl).1, (ih hl).2⟩
        · obtain rfl := Option.some.inj h
          exact ⟨List.mem_cons_self, ha⟩
    · exact ⟨List.mem_cons_of_mem _ (ih h).1, (ih h).2⟩

end Rule

/-- What the controller does next for the current group, with what is left of the
loop it is in. -/
inductive Phase where
  | disable
  | readSeqs (l : List (BitVec 16))
  | readValues (l : List (BitVec 16))
  | addAddresses (l : List (BitVec 128))
  | addIndices (l : List (BitVec 128))
  | writeSeqs (l : List (BitVec 16))
  | writeValues (l : List (BitVec 16))
  | enable
  deriving DecidableEq

/-- The controller between two of its commands, with the registers it has read. -/
structure Controller where
  group : ℕ
  phase : Phase
  seqs : BitVec 16 → BitVec 16
  values : BitVec 16 → BitVec 128

/-- A chain, its failed switch, the backup, and the parameters of the controller.
`keys` lists the entries of `find_index` on the copied-from switch. -/
structure Plan (n : ℕ) where
  chain : Chain n
  two_le : 2 ≤ n
  failed : Fin n
  backupIp : BitVec 32
  backupIp_ne_zero : backupIp ≠ 0#32
  backupIp_ne : ∀ j, chain.ip j ≠ backupIp
  backupRoute : BitVec 32 → Option (BitVec 9)
  backupSetMac : BitVec 9 → Option (BitVec 48 × BitVec 48)
  keys : List (BitVec 128)
  keys_index : ∀ k ∈ keys, ∃ i, chain.index k = some i
  numKv : ℕ
  sizeVgroup : ℕ

inductive Node (n : ℕ) where
  | member (j : Fin n)
  | backup
  deriving DecidableEq

/-- The switches, the entries the controller has added, the controller, the packets
on the network, and the registers the copied-from switch has had so far. -/
structure World (n : ℕ) where
  switch : Fin n → Switch
  backup : Switch
  rules : List Rule
  addresses : List (BitVec 128)
  indices : List (BitVec 128)
  ctl : Controller
  sent : List Headers
  held : List Switch

inductive RecoveryLabel (n : ℕ) where
  | control
  | send (h : Headers)
  | deliver (d : Node n) (h : Headers)

namespace Plan

variable {n : ℕ} (P : Plan n)

/-- The switch whose `failure_recovery` table the controller changes. -/
def neighbor : Fin n :=
  if P.failed.val = 0 then ⟨1, P.two_le⟩
  else ⟨P.failed.val - 1, Nat.lt_of_le_of_lt (Nat.sub_le _ _) P.failed.isLt⟩

/-- The switch the registers are copied from. -/
def target : Fin n :=
  if h : P.failed.val + 1 < n then ⟨P.failed.val + 1, h⟩
  else ⟨P.failed.val - 1, Nat.lt_of_le_of_lt (Nat.sub_le _ _) P.failed.isLt⟩

def keysPerGroup : ℕ := P.numKv / P.sizeVgroup

/-- The keys of a virtual group, in the order of the table dump. -/
def groupKeys (g : ℕ) : List (BitVec 128) :=
  P.keys.filter fun k =>
    2018 + g * P.keysPerGroup ≤ k.toNat ∧ k.toNat < 2018 + (g + 1) * P.keysPerGroup

def groupIndices (g : ℕ) : List (BitVec 16) := (P.groupKeys g).filterMap P.chain.index

/-- The virtual group a client puts into a request for the key. -/
def vgroupOf (k : BitVec 128) : BitVec 16 := BitVec.ofNat 16 ((k.toNat - 2018) / P.keysPerGroup)

/-- The entry that `failover` adds. For the head it adds none: it stops with an
exception when it takes the length of the file object a table dump returns. -/
def failoverRules : List Rule :=
  if P.failed.val = 0 then []
  else if P.failed.val + 1 = n then
    [⟨P.chain.ip P.failed, none, .failoverWriteReplyAct, 3⟩]
  else [⟨P.chain.ip P.failed, none, .failoverAct, 3⟩]

def disableRule (g : ℕ) : Rule :=
  ⟨P.chain.ip P.failed, some (BitVec.ofNat 16 g), .dropPacketAct, 2⟩

def enableRule (g : ℕ) : Rule :=
  ⟨P.chain.ip P.failed, some (BitVec.ofNat 16 g), .failureRecoveryAct P.backupIp, 1⟩

/-- The tables of a switch as the controller has changed them so far. -/
def tables (s : World n) : Node n → Tables
  | .member j =>
    if j = P.neighbor then
      { P.chain.tables j with failureRecovery := Rule.actionFor s.rules }
    else P.chain.tables j
  | .backup =>
    { getMyAddress := fun k =>
        if k ∈ s.addresses then some (P.backupIp, Chain.role P.failed) else none
      findIndex := fun k => if k ∈ s.indices then P.chain.index k else none
      genReply := Chain.genReply
      failureRecovery := fun _ _ _ => .nop
      ipv4Route := P.backupRoute
      ethernetSetMac := P.backupSetMac
      popChainAgain := false }

def regs (s : World n) : Node n → Switch
  | .member j => s.switch j
  | .backup => s.backup

def setRegs (s : World n) (st : Switch) : Node n → World n
  | .member j => { s with switch := Function.update s.switch j st }
  | .backup => { s with backup := st }

def deliver (s : World n) (d : Node n) (h : Headers) : World n :=
  let t := P.tables s d
  let st := (ingress t (regs s d) h).regs
  let s' := setRegs s st d
  { s' with
    sent := (emit t (regs s d) h).toList ++ s.sent
    held := if d = .member P.target then st :: s.held else s.held }

/-- One command of the controller, or the end of one of its loops. -/
def control (s : World n) : World n :=
  let ctl := s.ctl
  let g := ctl.group
  match ctl.phase with
  | .disable =>
    if g < P.sizeVgroup then
      { s with
        rules := P.disableRule g :: s.rules
        ctl := { ctl with phase := .readSeqs (P.groupIndices g) } }
    else s
  | .readSeqs (i :: l) =>
    { s with ctl := { ctl with
        phase := .readSeqs l
        seqs := Function.update ctl.seqs i ((s.switch P.target).seq i) } }
  | .readSeqs [] => { s with ctl := { ctl with phase := .readValues (P.groupIndices g) } }
  | .readValues (i :: l) =>
    { s with ctl := { ctl with
        phase := .readValues l
        values := Function.update ctl.values i ((s.switch P.target).value i) } }
  | .readValues [] => { s with ctl := { ctl with phase := .addAddresses (P.groupKeys g) } }
  | .addAddresses (k :: l) =>
    { s with addresses := k :: s.addresses, ctl := { ctl with phase := .addAddresses l } }
  | .addAddresses [] => { s with ctl := { ctl with phase := .addIndices (P.groupKeys g) } }
  | .addIndices (k :: l) =>
    { s with indices := k :: s.indices, ctl := { ctl with phase := .addIndices l } }
  | .addIndices [] => { s with ctl := { ctl with phase := .writeSeqs (P.groupIndices g) } }
  | .writeSeqs (i :: l) =>
    { s with
      backup := { s.backup with
        sequenceReg := s.backup.sequenceReg.write i.toNat (ctl.seqs i) }
      ctl := { ctl with phase := .writeSeqs l } }
  | .writeSeqs [] => { s with ctl := { ctl with phase := .writeValues (P.groupIndices g) } }
  | .writeValues (i :: l) =>
    { s with
      backup := { s.backup with valueReg := s.backup.valueReg.write i.toNat (ctl.values i) }
      ctl := { ctl with phase := .writeValues l } }
  | .writeValues [] => { s with ctl := { ctl with phase := .enable } }
  | .enable =>
    { s with
      rules := P.enableRule g :: s.rules
      ctl := { ctl with group := g + 1, phase := .disable } }

/-- A write on its way down the chain, with the virtual group of its key. -/
def IsInFlight (h : Headers) : Prop :=
  h.ncHdr.vgroup = P.vgroupOf h.ncHdr.key ∧ ∃ m < n, P.chain.Bound m h.query

/-- Recovery from any state of the registers and any writes in flight, with clients
that send further writes and any other packets. The failed switch gets nothing. -/
def recovery : System (World n) (RecoveryLabel n) where
  init s := s.rules = P.failoverRules ∧ s.addresses = [] ∧ s.indices = [] ∧ s.ctl.group = 0 ∧
    s.ctl.phase = .disable ∧ (∀ h ∈ s.sent, h.IsWrite → P.IsInFlight h) ∧
    s.held = [s.switch P.target]
  enabled
    | _, .control => True
    | _, .send h => h.IsWrite → P.chain.IsClientWrite h ∧ P.IsInFlight h
    | s, .deliver d h => h ∈ s.sent ∧ d ≠ .member P.failed
  next
    | s, .control => P.control s
    | s, .send h => { s with sent := h :: s.sent }
    | s, .deliver d h => P.deliver s d h

end Plan

end P4Survey.NetChain
