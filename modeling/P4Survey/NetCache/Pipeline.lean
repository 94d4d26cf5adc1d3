import P4Survey.Lib.Inet
import P4Survey.Lib.Register

/-! # The NetCache pipeline

Ingress and egress of `netcache_16.p4`. A header that was not extracted has all
its fields zero. The eight controls `process_value_1` to `process_value_8` differ
only in their number, so they are one stage with a parameter.
-/

namespace P4Survey.NetCache
open Lib

structure NcHdr where
  op : BitVec 8
  key : BitVec 128
  deriving DecidableEq, Inhabited

structure NcLoad where
  load1 : BitVec 32
  load2 : BitVec 32
  load3 : BitVec 32
  load4 : BitVec 32
  deriving DecidableEq, Inhabited

/-- The fields of one of the headers `nc_value_1` to `nc_value_8`. -/
structure NcValue where
  value1 : BitVec 32
  value2 : BitVec 32
  value3 : BitVec 32
  value4 : BitVec 32
  deriving DecidableEq, Inhabited

structure Headers where
  ethernetValid : Bool
  ethernet : Ethernet
  ipv4Valid : Bool
  ipv4 : Ipv4
  ncHdrValid : Bool
  ncHdr : NcHdr
  ncLoadValid : Bool
  ncLoad : NcLoad
  ncValueValid : Fin 8 → Bool
  ncValue : Fin 8 → NcValue
  tcpValid : Bool
  tcp : Tcp
  udpValid : Bool
  udp : Udp
  deriving DecidableEq, Inhabited

/-- The number of entries of the cache. -/
abbrev cacheSize : ℕ := 128

/-- The entries of the match tables, and the hash algorithms the target provides. -/
structure Tables where
  checkCacheExist : BitVec 128 → Option (BitVec 14)
  ipv4Route : BitVec 32 → Option (BitVec 9)
  ethernetSetMac : BitVec 9 → Option (BitVec 48 × BitVec 48)
  crc32 : BitVec 128 → ℕ
  csum16 : BitVec 128 → ℕ
  crc16 : BitVec 128 → ℕ

/-- The four registers of one stage of the values. -/
structure ValueRegs where
  value1Reg : Register 32 cacheSize
  value2Reg : Register 32 cacheSize
  value3Reg : Register 32 cacheSize
  value4Reg : Register 32 cacheSize

namespace ValueRegs

def read (r : ValueRegs) (i : ℕ) : NcValue :=
  ⟨r.value1Reg.read i, r.value2Reg.read i, r.value3Reg.read i, r.value4Reg.read i⟩

def write (r : ValueRegs) (i : ℕ) (v : NcValue) : ValueRegs :=
  ⟨r.value1Reg.write i v.value1, r.value2Reg.write i v.value2, r.value3Reg.write i v.value3,
    r.value4Reg.write i v.value4⟩

theorem read_write_self (r : ValueRegs) {i : ℕ} (h : i < cacheSize) (v : NcValue) :
    (r.write i v).read i = v := by
  simp only [read, write, Register.read_write_self _ h]

theorem read_write_of_ne (r : ValueRegs) {i j : ℕ} (h : i ≠ j) (v : NcValue) :
    (r.write i v).read j = r.read j := by
  simp only [read, write, Register.read_write_of_ne _ h]

end ValueRegs

structure Switch where
  cacheValidReg : Register 1 cacheSize
  valueReg : Fin 8 → ValueRegs
  hhLoadReg : Fin 4 → Register 32 256
  hhBfReg : Fin 3 → Register 1 512

/-- What a packet carries through the pipeline, its metadata included. -/
structure Pipe where
  regs : Switch
  hdr : Headers
  cacheExist : Bool
  cacheIndex : BitVec 14
  cacheValid : BitVec 1
  load : Fin 4 → BitVec 32
  bf : Fin 3 → BitVec 1
  egressSpec : BitVec 9
  clone : Bool

namespace Pipe

def start (regs : Switch) (hdr : Headers) : Pipe :=
  ⟨regs, hdr, false, 0#14, 0#1, fun _ => 0#32, fun _ => 0#1, 0#9, false⟩

section Cache

def checkCacheExist (t : Tables) (p : Pipe) : Pipe :=
  match t.checkCacheExist p.hdr.ncHdr.key with
  | some i => { p with cacheExist := true, cacheIndex := i }
  | none => p

def checkCacheValidAct (p : Pipe) : Pipe :=
  { p with cacheValid := p.regs.cacheValidReg.read p.cacheIndex.toNat }

def setCacheValidAct (p : Pipe) : Pipe :=
  { p with regs := { p.regs with
      cacheValidReg := p.regs.cacheValidReg.write p.cacheIndex.toNat 1#1 } }

def processCache (t : Tables) (p : Pipe) : Pipe :=
  let p := p.checkCacheExist t
  if p.cacheExist then
    if p.hdr.ncHdr.op = 0#8 then p.checkCacheValidAct
    else if p.hdr.ncHdr.op = 9#8 then p.setCacheValidAct
    else p
  else p

end Cache

section Value

def addValueHeaderAct (i : Fin 8) (p : Pipe) : Pipe :=
  { p with hdr := { p.hdr with
      ipv4 := { p.hdr.ipv4 with totalLen := p.hdr.ipv4.totalLen + 16#16 }
      udp := { p.hdr.udp with len := p.hdr.udp.len + 16#16 }
      ncValueValid := Function.update p.hdr.ncValueValid i true } }

def readValueAct (i : Fin 8) (p : Pipe) : Pipe :=
  { p with hdr := { p.hdr with
      ncValue := Function.update p.hdr.ncValue i ((p.regs.valueReg i).read p.cacheIndex.toNat) } }

def writeValueAct (i : Fin 8) (p : Pipe) : Pipe :=
  { p with regs := { p.regs with
      valueReg := Function.update p.regs.valueReg i
        ((p.regs.valueReg i).write p.cacheIndex.toNat (p.hdr.ncValue i)) } }

def removeValueHeaderAct (i : Fin 8) (p : Pipe) : Pipe :=
  { p with hdr := { p.hdr with
      ipv4 := { p.hdr.ipv4 with totalLen := p.hdr.ipv4.totalLen - 16#16 }
      udp := { p.hdr.udp with len := p.hdr.udp.len - 16#16 }
      ncValueValid := Function.update p.hdr.ncValueValid i false } }

/-- The packet is a read and the entry of its key is valid. -/
def IsHit (p : Pipe) : Prop := p.hdr.ncHdr.op = 0#8 ∧ p.cacheValid = 1#1

instance (p : Pipe) : Decidable p.IsHit := inferInstanceAs (Decidable (_ ∧ _))

/-- The control `process_value_i`. -/
def processStage (i : Fin 8) (p : Pipe) : Pipe :=
  if p.IsHit then (p.addValueHeaderAct i).readValueAct i
  else if p.hdr.ncHdr.op = 9#8 ∧ p.cacheExist = true then
    (p.writeValueAct i).removeValueHeaderAct i
  else p

def processValue1 : Pipe → Pipe := processStage 0
def processValue2 : Pipe → Pipe := processStage 1
def processValue3 : Pipe → Pipe := processStage 2
def processValue4 : Pipe → Pipe := processStage 3
def processValue5 : Pipe → Pipe := processStage 4
def processValue6 : Pipe → Pipe := processStage 5
def processValue7 : Pipe → Pipe := processStage 6
def processValue8 : Pipe → Pipe := processStage 7

def processStages (p : Pipe) : Pipe :=
  p.processValue1.processValue2.processValue3.processValue4.processValue5.processValue6.processValue7
    |>.processValue8

/-- The addresses are those from before the stages. -/
def replyReadHitAfterAct (srcAddr dstAddr : BitVec 32) (p : Pipe) : Pipe :=
  { p with hdr := { p.hdr with
      ipv4 := { p.hdr.ipv4 with srcAddr := dstAddr, dstAddr := srcAddr }
      ncHdr := { p.hdr.ncHdr with op := 1#8 } } }

def processValue (p : Pipe) : Pipe :=
  let info := if p.IsHit then (p.hdr.ipv4.srcAddr, p.hdr.ipv4.dstAddr) else (0#32, 0#32)
  let p := p.processStages
  if p.IsHit then p.replyReadHitAfterAct info.1 info.2 else p

end Value

def setEgress (spec : BitVec 9) (p : Pipe) : Pipe :=
  { p with
    egressSpec := spec
    hdr := { p.hdr with ipv4 := { p.hdr.ipv4 with ttl := p.hdr.ipv4.ttl + 255#8 } } }

def ipv4Route (t : Tables) (p : Pipe) : Pipe :=
  match t.ipv4Route p.hdr.ipv4.dstAddr with
  | some spec => p.setEgress spec
  | none => p

section HeavyHitter

/-- Count in the row `j` of the sketch, at the hash of the packet's key. -/
def hhLoadCountAct (j : Fin 4) (hash : BitVec 128 → ℕ) (p : Pipe) : Pipe :=
  let i := hash p.hdr.ncHdr.key % 256
  let load := (p.regs.hhLoadReg j).read i
  { p with
    load := Function.update p.load j load
    regs := { p.regs with
      hhLoadReg := Function.update p.regs.hhLoadReg j
        ((p.regs.hhLoadReg j).write i (load + 1#32)) } }

def countMin (t : Tables) (p : Pipe) : Pipe :=
  ((p.hhLoadCountAct 0 t.crc32).hhLoadCountAct 1 t.csum16).hhLoadCountAct 2 t.crc16
    |>.hhLoadCountAct 3 t.crc32

/-- Set the bit of the packet's key in the row `j` of the filter. -/
def hhBfAct (j : Fin 3) (hash : BitVec 128 → ℕ) (p : Pipe) : Pipe :=
  let i := hash p.hdr.ncHdr.key % 512
  { p with
    bf := Function.update p.bf j ((p.regs.hhBfReg j).read i)
    regs := { p.regs with
      hhBfReg := Function.update p.regs.hhBfReg j ((p.regs.hhBfReg j).write i 1#1) } }

def bloomFilter (t : Tables) (p : Pipe) : Pipe :=
  ((p.hhBfAct 0 t.crc32).hhBfAct 1 t.csum16).hhBfAct 2 t.crc16

def cloneToControllerAct (p : Pipe) : Pipe := { p with clone := true }

def reportHotAct (p : Pipe) : Pipe :=
  { p with hdr := { p.hdr with
      ncHdr := { p.hdr.ncHdr with op := 2#8 }
      ncLoadValid := true
      ncLoad := ⟨p.load 0, p.load 1, p.load 2, p.load 3⟩
      ipv4 := { p.hdr.ipv4 with
        totalLen := p.hdr.ipv4.totalLen + 16#16, dstAddr := 0x0a000003#32 }
      udp := { p.hdr.udp with len := p.hdr.udp.len + 16#16 } } }

/-- An instance type other than 0 marks a clone. -/
def heavyHitter (t : Tables) (instanceType : BitVec 32) (p : Pipe) : Pipe :=
  if instanceType = 0#32 then
    let p := p.countMin t
    if 128#32 < p.load 0 ∧ 128#32 < p.load 1 ∧ 128#32 < p.load 2 ∧ 128#32 < p.load 3 then
      let p := p.bloomFilter t
      if p.bf 0 = 0#1 ∨ p.bf 1 = 0#1 ∨ p.bf 2 = 0#1 then p.cloneToControllerAct else p
    else p
  else p.reportHotAct

end HeavyHitter

def ethernetSetMac (t : Tables) (p : Pipe) : Pipe :=
  match t.ethernetSetMac p.egressSpec with
  | some (smac, dmac) => { p with hdr := { p.hdr with
      ethernet := { p.hdr.ethernet with srcAddr := smac, dstAddr := dmac } } }
  | none => p

end Pipe

def ingress (t : Tables) (regs : Switch) (hdr : Headers) : Pipe :=
  (((Pipe.start regs hdr).processCache t).processValue).ipv4Route t

def egress (t : Tables) (instanceType : BitVec 32) (p : Pipe) : Pipe :=
  let p := if p.hdr.ncHdr.op = 0#8 ∧ p.cacheExist = false then p.heavyHitter t instanceType else p
  p.ethernetSetMac t

end P4Survey.NetCache
