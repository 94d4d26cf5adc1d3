import P4Survey.Lib.Inet
import P4Survey.Lib.Register

/-! # The pipeline of HashPipe

Two stages of counters indexed by a hash of the source address. The first stage
always takes the source of the packet in and evicts another key it finds there;
the second stage keeps the larger of the evicted count and its own. Both stages
run on every packet, with or without an IPv4 header. A field of a header that was
not extracted reads as zero.
-/

namespace P4Survey.HashPipe
open Lib

structure Headers where
  ethernetValid : Bool
  ethernet : Ethernet
  ipv4Valid : Bool
  ipv4 : Ipv4
  deriving DecidableEq, Inhabited

def parseIpv4 (h : Headers) (l : List Bool) : Headers × List Bool :=
  match Ipv4.extract l with
  | none => (h, l)
  | some (x, l) => ({ h with ipv4Valid := true, ipv4 := x }, l)

def parseEthernet (h : Headers) (l : List Bool) : Headers × List Bool :=
  match Ethernet.extract l with
  | none => (h, l)
  | some (x, l) =>
    let h := { h with ethernetValid := true, ethernet := x }
    if x.etherType = 0x800#16 then parseIpv4 h l else (h, l)

/-- The headers of a packet and its payload. -/
def parse (l : List Bool) : Headers × List Bool := parseEthernet default l

structure TrackingMetadata where
  mKeyInTable : BitVec 32
  mCountInTable : BitVec 32
  mIndex : BitVec 5
  mValid : BitVec 1
  mKeyCarried : BitVec 32
  mCountCarried : BitVec 32
  mDiff : BitVec 32
  nhopIpv4 : BitVec 32
  deriving DecidableEq, Inhabited

/-- What a location of a stage holds. -/
structure Slot where
  key : BitVec 32
  count : BitVec 32
  valid : BitVec 1
  deriving DecidableEq

/-- The three registers of a stage. -/
structure Stage where
  flowTracker : Register 32 32
  packetCounter : Register 32 32
  validBit : Register 1 32

structure Switch where
  stage1 : Stage
  stage2 : Stage
  dropsRegister : Register 32 16
  dropsRegisterEnabled : Register 1 16

inductive LpmAction
  | setNhop (nhopIpv4 : BitVec 32) (port : BitVec 9)
  | drop
  deriving DecidableEq

inductive MacAction
  | setMac (mac : BitVec 48)
  | drop
  deriving DecidableEq

/-- The hash functions and what the controller has installed in the tables. A
lookup that misses leaves the packet as it is. -/
structure Tables where
  stage1Hash : BitVec 32 → ℕ
  stage2Hash : BitVec 32 → ℕ
  ipv4Lpm : BitVec 32 → Option LpmAction
  forward : BitVec 32 → Option MacAction
  sendFrame : BitVec 9 → Option MacAction

def empty : Stage := ⟨.fill 32 0#32, .fill 32 0#32, .fill 32 0#1⟩

def initial : Switch := ⟨empty, empty, .fill 16 0#32, .fill 16 0#1⟩

/-- A hash reduced to the 32 cells of a stage. -/
def index (hash : ℕ) : BitVec 5 := .ofNat 5 (hash % 32)

section Stages

/-- Read the three registers at the index. -/
def Stage.readInTable (s : Stage) (m : TrackingMetadata) : TrackingMetadata :=
  { m with
    mKeyInTable := s.flowTracker.read m.mIndex.toNat
    mCountInTable := s.packetCounter.read m.mIndex.toNat
    mValid := s.validBit.read m.mIndex.toNat }

/-- Whether the location is empty or has a different key in it. -/
def TrackingMetadata.checkLocation (m : TrackingMetadata) : TrackingMetadata :=
  let m := { m with mKeyInTable := if m.mValid = 0#1 then m.mKeyCarried else m.mKeyInTable }
  { m with mDiff := if m.mValid = 0#1 then 0#32 else m.mKeyInTable - m.mKeyCarried }

/-- The metadata carried to the next stage. -/
def TrackingMetadata.carryOn (m : TrackingMetadata) : TrackingMetadata :=
  { m with
    mKeyCarried := if m.mDiff = 0#32 then 0#32 else m.mKeyInTable
    mCountCarried := if m.mDiff = 0#32 then 0#32 else m.mCountInTable }

def Stage.write (s : Stage) (i : ℕ) (l : Slot) : Stage :=
  ⟨s.flowTracker.write i l.key, s.packetCounter.write i l.count, s.validBit.write i l.valid⟩

def doStage1 (t : Tables) (h : Headers) (s : Stage) (m : TrackingMetadata) :
    Stage × TrackingMetadata :=
  let m := { m with mKeyCarried := h.ipv4.srcAddr, mCountCarried := 0#32 }
  let m := { m with mIndex := index (t.stage1Hash m.mKeyCarried) }
  let m := (s.readInTable m).checkLocation
  (s.write m.mIndex.toNat
    ⟨h.ipv4.srcAddr, if m.mDiff = 0#32 then m.mCountInTable + 1#32 else 1#32, 1#1⟩, m.carryOn)

def doStage2 (t : Tables) (s : Stage) (m : TrackingMetadata) : Stage × TrackingMetadata :=
  let m := { m with mIndex := index (t.stage2Hash m.mKeyCarried) }
  let m := (s.readInTable m).checkLocation
  (s.write m.mIndex.toNat
    ⟨if m.mDiff = 0#32 then m.mKeyInTable
      else if m.mCountInTable < m.mCountCarried then m.mKeyCarried else m.mKeyInTable,
    if m.mDiff = 0#32 then m.mCountInTable + m.mCountCarried
      else if m.mCountInTable < m.mCountCarried then m.mCountCarried else m.mCountInTable,
    if m.mValid = 0#1 then if m.mKeyCarried = 0#32 then 0#1 else 1#1 else 1#1⟩, m.carryOn)

end Stages

/-- What a packet carries through the pipeline. -/
structure Pipe where
  regs : Switch
  hdr : Headers
  hhMeta : TrackingMetadata
  egressSpec : BitVec 9

namespace Pipe

def drop (p : Pipe) : Pipe := { p with egressSpec := dropPort }

def tblDoStage1 (t : Tables) (p : Pipe) : Pipe :=
  let r := doStage1 t p.hdr p.regs.stage1 p.hhMeta
  { p with regs := { p.regs with stage1 := r.1 }, hhMeta := r.2 }

def tblDoStage2 (t : Tables) (p : Pipe) : Pipe :=
  let r := doStage2 t p.regs.stage2 p.hhMeta
  { p with regs := { p.regs with stage2 := r.1 }, hhMeta := r.2 }

def doDropExpired (p : Pipe) : Pipe :=
  let value := p.regs.dropsRegister.read 0
  let valid := p.regs.dropsRegisterEnabled.read 0
  let value := value + if valid = 1#1 then 1#32 else 0#32
  drop { p with regs := { p.regs with dropsRegister := p.regs.dropsRegister.write 0 value } }

def setNhop (nhopIpv4 : BitVec 32) (port : BitVec 9) (p : Pipe) : Pipe :=
  { p with
    hhMeta := { p.hhMeta with nhopIpv4 := nhopIpv4 }
    egressSpec := port
    hdr := { p.hdr with ipv4 := { p.hdr.ipv4 with ttl := p.hdr.ipv4.ttl - 1#8 } } }

def ipv4Lpm (t : Tables) (p : Pipe) : Pipe :=
  match t.ipv4Lpm p.hdr.ipv4.dstAddr with
  | some (.setNhop nhop port) => p.setNhop nhop port
  | some .drop => p.drop
  | none => p

def setDmac (dmac : BitVec 48) (p : Pipe) : Pipe :=
  { p with hdr := { p.hdr with ethernet := { p.hdr.ethernet with dstAddr := dmac } } }

def forward (t : Tables) (p : Pipe) : Pipe :=
  match t.forward p.hhMeta.nhopIpv4 with
  | some (.setMac dmac) => p.setDmac dmac
  | some .drop => p.drop
  | none => p

def rewriteMac (smac : BitVec 48) (p : Pipe) : Pipe :=
  { p with hdr := { p.hdr with ethernet := { p.hdr.ethernet with srcAddr := smac } } }

def sendFrame (t : Tables) (p : Pipe) : Pipe :=
  match t.sendFrame p.egressSpec with
  | some (.setMac smac) => p.rewriteMac smac
  | some .drop => p.drop
  | none => p

end Pipe

def ingress (t : Tables) (regs : Switch) (hdr : Headers) : Pipe :=
  let p := ((Pipe.mk regs hdr default 0#9).tblDoStage1 t).tblDoStage2 t
  if p.hdr.ipv4Valid then
    if 1#8 < p.hdr.ipv4.ttl then (p.ipv4Lpm t).forward t else p.doDropExpired
  else p

def egress (t : Tables) (p : Pipe) : Pipe := p.sendFrame t

/-- The checksum covers the header without the checksum field itself. -/
def computeChecksum (h : Headers) : Headers :=
  if h.ipv4Valid then
    { h with ipv4 := { h.ipv4 with
        hdrChecksum := csum16 (Ipv4.bits { h.ipv4 with hdrChecksum := 0#16 }) } }
  else h

def deparse (h : Headers) (payload : List Bool) : List Bool :=
  (if h.ethernetValid then h.ethernet.bits else []) ++
    ((if h.ipv4Valid then h.ipv4.bits else []) ++ payload)

/-- The registers after a packet, and the packet that leaves and its port unless
it is dropped. -/
def process (t : Tables) (regs : Switch) (x : List Bool) :
    Switch × Option (BitVec 9 × List Bool) :=
  let p := ingress t regs (parse x).1
  if p.egressSpec = dropPort then (p.regs, none)
  else
    let q := egress t p
    (q.regs, if q.egressSpec = dropPort then none
      else some (q.egressSpec, deparse (computeChecksum q.hdr) (parse x).2))

section Registers

variable (t : Tables) (p : Pipe)

@[simp] theorem regs_ipv4Lpm : (p.ipv4Lpm t).regs = p.regs := by
  rw [Pipe.ipv4Lpm]
  split <;> rfl

@[simp] theorem regs_forward : (p.forward t).regs = p.regs := by
  rw [Pipe.forward]
  split <;> rfl

@[simp] theorem regs_egress : (egress t p).regs = p.regs := by
  rw [egress, Pipe.sendFrame]
  split <;> rfl

/-- Only the stages and the count of expired packets change. -/
theorem regs_process (regs : Switch) (x : List Bool) :
    (process t regs x).1 = (ingress t regs (parse x).1).regs := by
  rw [process]
  split <;> simp

theorem stages_ingress (regs : Switch) (h : Headers) :
    (ingress t regs h).regs.stage1 = (doStage1 t h regs.stage1 default).1 ∧
      (ingress t regs h).regs.stage2 =
        (doStage2 t regs.stage2 (doStage1 t h regs.stage1 default).2).1 := by
  rw [ingress]
  split_ifs
  · simp only [regs_forward, regs_ipv4Lpm]
    exact ⟨rfl, rfl⟩
  · exact ⟨rfl, rfl⟩
  · exact ⟨rfl, rfl⟩

end Registers

section Locations

namespace Stage

variable (s : Stage)

def slot (i : ℕ) : Slot := ⟨s.flowTracker.read i, s.packetCounter.read i, s.validBit.read i⟩

/-- The location of a key under a hash function. -/
def slotOf (hash : BitVec 32 → ℕ) (key : BitVec 32) : Slot := s.slot (index (hash key)).toNat

theorem slot_write_self {i : ℕ} (h : i < 32) (l : Slot) : (s.write i l).slot i = l := by
  simp only [slot, write, Register.read_write_self _ h]

theorem slot_write_of_ne {i j : ℕ} (h : i ≠ j) (l : Slot) : (s.write i l).slot j = s.slot j := by
  simp only [slot, write, Register.read_write_of_ne _ h]

@[simp] theorem slot_empty (i : ℕ) : empty.slot i = ⟨0#32, 0#32, 0#1⟩ := by
  simp only [slot, empty, Register.read_fill_zero]

end Stage

namespace Slot

variable (l : Slot) (key count : BitVec 32)

/-- The location is empty or has the given key in it. -/
def Takes : Prop := l.valid = 0#1 ∨ l.key = key

instance : Decidable (l.Takes key) := inferInstanceAs (Decidable (_ ∨ _))

/-- A location of the first stage after a packet from `key`. -/
def enter : Slot := ⟨key, if l.Takes key then l.count + 1#32 else 1#32, 1#1⟩

/-- A location of the second stage after `count` packets from `key` came to it. -/
def merge : Slot :=
  if l.valid = 0#1 then ⟨key, l.count + count, if key = 0#32 then 0#1 else 1#1⟩
  else if l.key = key then ⟨l.key, l.count + count, 1#1⟩
  else if l.count < count then ⟨key, count, 1#1⟩
  else ⟨l.key, l.count, 1#1⟩

end Slot

end Locations

section Actions

variable (t : Tables) (s : Stage)

theorem checkLocation_of_empty {m : TrackingMetadata} (h : m.mValid = 0#1) :
    m.checkLocation = { m with mKeyInTable := m.mKeyCarried, mDiff := 0#32 } := by
  simp [TrackingMetadata.checkLocation, h]

theorem checkLocation_of_valid {m : TrackingMetadata} (h : m.mValid ≠ 0#1) :
    m.checkLocation = { m with mDiff := m.mKeyInTable - m.mKeyCarried } := by
  simp [TrackingMetadata.checkLocation, h]

/-- The difference is zero exactly where the location takes the key. -/
theorem mDiff_checkLocation (m : TrackingMetadata) :
    (s.readInTable m).checkLocation.mDiff = 0#32 ↔ (s.slot m.mIndex.toNat).Takes m.mKeyCarried := by
  by_cases h : (s.readInTable m).mValid = 0#1
  · rw [checkLocation_of_empty h]
    exact iff_of_true rfl (.inl h)
  · rw [checkLocation_of_valid h]
    change s.flowTracker.read m.mIndex.toNat - m.mKeyCarried = 0#32 ↔ _
    rw [BitVec.sub_eq_iff_eq_add, BitVec.zero_add]
    exact ⟨.inr, fun ht => ht.resolve_left h⟩

theorem doStage1_eq (h : Headers) (m : TrackingMetadata) :
    (doStage1 t h s m).1 = s.write (index (t.stage1Hash h.ipv4.srcAddr)).toNat
      ((s.slotOf t.stage1Hash h.ipv4.srcAddr).enter h.ipv4.srcAddr) := by
  simp only [doStage1, mDiff_checkLocation]
  rfl

/-- A location that takes the source of the packet evicts nothing. -/
theorem carried_of_takes (h : Headers) (m : TrackingMetadata)
    (hl : (s.slotOf t.stage1Hash h.ipv4.srcAddr).Takes h.ipv4.srcAddr) :
    (doStage1 t h s m).2.mKeyCarried = 0#32 ∧ (doStage1 t h s m).2.mCountCarried = 0#32 := by
  simp only [doStage1, TrackingMetadata.carryOn, mDiff_checkLocation]
  exact ⟨if_pos hl, if_pos hl⟩

theorem carried_of_not_takes (h : Headers) (m : TrackingMetadata)
    (hl : ¬(s.slotOf t.stage1Hash h.ipv4.srcAddr).Takes h.ipv4.srcAddr) :
    (doStage1 t h s m).2.mKeyCarried = (s.slotOf t.stage1Hash h.ipv4.srcAddr).key ∧
      (doStage1 t h s m).2.mCountCarried = (s.slotOf t.stage1Hash h.ipv4.srcAddr).count := by
  have hv : (s.slotOf t.stage1Hash h.ipv4.srcAddr).valid ≠ 0#1 := fun hv => hl (.inl hv)
  simp only [doStage1, TrackingMetadata.carryOn, mDiff_checkLocation]
  exact ⟨(if_neg hl).trans (if_neg hv), if_neg hl⟩

theorem doStage2_eq (m : TrackingMetadata) :
    (doStage2 t s m).1 = s.write (index (t.stage2Hash m.mKeyCarried)).toNat
      ((s.slotOf t.stage2Hash m.mKeyCarried).merge m.mKeyCarried m.mCountCarried) := by
  let n : TrackingMetadata := { m with mIndex := index (t.stage2Hash m.mKeyCarried) }
  have hd := mDiff_checkLocation s n
  by_cases hv : (s.readInTable n).mValid = 0#1
  · have hl : (s.slotOf t.stage2Hash m.mKeyCarried).valid = 0#1 := hv
    simp only [doStage2, Slot.merge]
    rw [if_pos hl, checkLocation_of_empty hv]
    simp [hv]
    rfl
  · have hl : (s.slotOf t.stage2Hash m.mKeyCarried).valid ≠ 0#1 := hv
    rw [checkLocation_of_valid hv] at hd
    simp only [doStage2, Slot.merge]
    rw [if_neg hl, checkLocation_of_valid hv]
    simp only [if_neg hv]
    by_cases hk : (s.slotOf t.stage2Hash m.mKeyCarried).key = m.mKeyCarried
    · rw [if_pos hk]
      simp only [if_pos (hd.mpr (.inr hk))]
      rfl
    · rw [if_neg hk]
      simp only [if_neg fun h => hk ((hd.mp h).resolve_left hl)]
      split_ifs <;> first | rfl | contradiction

end Actions

end P4Survey.HashPipe
