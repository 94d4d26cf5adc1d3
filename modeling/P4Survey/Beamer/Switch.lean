import P4Survey.Lib.Inet

/-! # The load balancer of Beamer

A packet passes the switch of `beamer_16.p4` twice. The first pass takes the hash of its flow
and recirculates it, the second one puts it into a packet for a server: with an option in
between for the ports below 1024, without one for the others.

The fields of a header that is not valid are those of an earlier packet. `parse_mplb` and its
header are left out, as no state of the parser leads to them.
-/

namespace P4Survey.Beamer
open Lib

structure MplbIpopt where
  copied : BitVec 1
  optClass : BitVec 2
  number : BitVec 5
  len : BitVec 8
  padding : BitVec 16
  pdip : BitVec 32
  ts : BitVec 32
  gen : BitVec 32
  deriving DecidableEq, Inhabited

structure Tcp where
  srcPort : BitVec 16
  dstPort : BitVec 16
  sequence : BitVec 32
  ack : BitVec 32
  len : BitVec 4
  reserved : BitVec 6
  flags : BitVec 6
  window : BitVec 16
  check : BitVec 16
  urgent : BitVec 16
  deriving DecidableEq, Inhabited

structure Headers where
  ethernetValid : Bool
  ethernet : Ethernet
  innerIpv4Valid : Bool
  innerIpv4 : Ipv4
  ipv4Valid : Bool
  ipv4 : Ipv4
  mplbIpoptValid : Bool
  mplbIpopt : MplbIpopt
  tcpValid : Bool
  tcp : Tcp
  deriving DecidableEq, Inhabited

section Wire

namespace MplbIpopt

def bits (h : MplbIpopt) : List Bool :=
  Lib.bits h.copied ++ (Lib.bits h.optClass ++ (Lib.bits h.number ++ (Lib.bits h.len ++
    (Lib.bits h.padding ++ (Lib.bits h.pdip ++ (Lib.bits h.ts ++ Lib.bits h.gen))))))

def extract : List Bool → Option (MplbIpopt × List Bool) :=
  take 1 fun copied => take 2 fun optClass => take 5 fun number => take 8 fun len =>
    take 16 fun padding => take 32 fun pdip => take 32 fun ts => take 32 fun gen =>
    fun l => some (⟨copied, optClass, number, len, padding, pdip, ts, gen⟩, l)

@[simp] theorem extract_bits (h : MplbIpopt) (rest : List Bool) :
    extract (h.bits ++ rest) = some (h, rest) := by
  simp only [extract, bits, List.append_assoc, take_bits_append]

@[simp] theorem bits_length (h : MplbIpopt) : h.bits.length = 128 := by
  simp [bits]

/-- Any 16 bytes are an option to the parser. -/
theorem exists_bits {l : List Bool} (h : l.length = 128) : ∃ m : MplbIpopt, m.bits = l := by
  obtain ⟨copied, l₁, h₁, hl₁⟩ := exists_bits_append (w := 1) (l := l) (by omega)
  obtain ⟨optClass, l₂, h₂, hl₂⟩ := exists_bits_append (w := 2) (l := l₁) (by omega)
  obtain ⟨number, l₃, h₃, hl₃⟩ := exists_bits_append (w := 5) (l := l₂) (by omega)
  obtain ⟨len, l₄, h₄, hl₄⟩ := exists_bits_append (w := 8) (l := l₃) (by omega)
  obtain ⟨padding, l₅, h₅, hl₅⟩ := exists_bits_append (w := 16) (l := l₄) (by omega)
  obtain ⟨pdip, l₆, h₆, hl₆⟩ := exists_bits_append (w := 32) (l := l₅) (by omega)
  obtain ⟨ts, l₇, h₇, hl₇⟩ := exists_bits_append (w := 32) (l := l₆) (by omega)
  obtain ⟨gen, h₈⟩ := Lib.exists_bits (w := 32) (l := l₇) (by omega)
  refine ⟨⟨copied, optClass, number, len, padding, pdip, ts, gen⟩, ?_⟩
  rw [bits, h₈, ← h₇, ← h₆, ← h₅, ← h₄, ← h₃, ← h₂, ← h₁]

end MplbIpopt

namespace Tcp

def bits (h : Tcp) : List Bool :=
  Lib.bits h.srcPort ++ (Lib.bits h.dstPort ++ (Lib.bits h.sequence ++ (Lib.bits h.ack ++
    (Lib.bits h.len ++ (Lib.bits h.reserved ++ (Lib.bits h.flags ++ (Lib.bits h.window ++
      (Lib.bits h.check ++ Lib.bits h.urgent))))))))

def extract : List Bool → Option (Tcp × List Bool) :=
  take 16 fun srcPort => take 16 fun dstPort => take 32 fun sequence => take 32 fun ack =>
    take 4 fun len => take 6 fun reserved => take 6 fun flags => take 16 fun window =>
    take 16 fun check => take 16 fun urgent =>
    fun l => some (⟨srcPort, dstPort, sequence, ack, len, reserved, flags, window, check, urgent⟩, l)

@[simp] theorem extract_bits (h : Tcp) (rest : List Bool) :
    extract (h.bits ++ rest) = some (h, rest) := by
  simp only [extract, bits, List.append_assoc, take_bits_append]

@[simp] theorem bits_length (h : Tcp) : h.bits.length = 160 := by
  simp [bits]

/-- A header that was read stood in front. -/
theorem extract_eq_some {l : List Bool} {p : Tcp × List Bool} (h : extract l = some p) :
    l = p.1.bits ++ p.2 := by
  obtain ⟨srcPort, l₁, rfl, h₁⟩ := take_eq_some h
  obtain ⟨dstPort, l₂, rfl, h₂⟩ := take_eq_some h₁
  obtain ⟨sequence, l₃, rfl, h₃⟩ := take_eq_some h₂
  obtain ⟨ack, l₄, rfl, h₄⟩ := take_eq_some h₃
  obtain ⟨len, l₅, rfl, h₅⟩ := take_eq_some h₄
  obtain ⟨reserved, l₆, rfl, h₆⟩ := take_eq_some h₅
  obtain ⟨flags, l₇, rfl, h₇⟩ := take_eq_some h₆
  obtain ⟨window, l₈, rfl, h₈⟩ := take_eq_some h₇
  obtain ⟨check, l₉, rfl, h₉⟩ := take_eq_some h₈
  obtain ⟨urgent, rest, rfl, hp⟩ := take_eq_some h₉
  obtain rfl := Option.some.inj hp
  simp only [bits, List.append_assoc]

end Tcp

end Wire

section Parser

def parseTcp (h : Headers) (l : List Bool) : Headers × List Bool :=
  match Tcp.extract l with
  | none => (h, l)
  | some (x, l) => ({ h with tcpValid := true, tcp := x }, l)

def parseInnerIp (h : Headers) (l : List Bool) : Headers × List Bool :=
  match Ipv4.extract l with
  | none => (h, l)
  | some (x, l) => parseTcp { h with innerIpv4Valid := true, innerIpv4 := x } l

def parseMplbIpopt (h : Headers) (l : List Bool) : Headers × List Bool :=
  match MplbIpopt.extract l with
  | none => (h, l)
  | some (x, l) => parseInnerIp { h with mplbIpoptValid := true, mplbIpopt := x } l

def parseIpv4 (h : Headers) (l : List Bool) : Headers × List Bool :=
  match Ipv4.extract l with
  | none => (h, l)
  | some (x, l) =>
    let h := { h with ipv4Valid := true, ipv4 := x }
    if x.protocol = 4#8 then parseMplbIpopt h l else parseTcp h l

def parseEthernet (h : Headers) (l : List Bool) : Headers × List Bool :=
  match Ethernet.extract l with
  | none => (h, l)
  | some (x, l) =>
    let h := { h with ethernetValid := true, ethernet := x }
    if x.etherType = 0x800#16 then parseIpv4 h l else (h, l)

/-- The headers in front of a packet start out invalid, with the fields `stale`. -/
def parse (stale : Headers) (l : List Bool) : Headers × List Bool :=
  parseEthernet
    { stale with
      ethernetValid := false
      innerIpv4Valid := false
      ipv4Valid := false
      mplbIpoptValid := false
      tcpValid := false } l

/-- The outer IPv4 header with what stands between it and the inner one. -/
def outerBits (h : Headers) : List Bool :=
  (if h.ipv4Valid then h.ipv4.bits else []) ++ if h.mplbIpoptValid then h.mplbIpopt.bits else []

/-- The packet after its Ethernet header. -/
def ipBits (h : Headers) (payload : List Bool) : List Bool :=
  outerBits h ++ ((if h.innerIpv4Valid then h.innerIpv4.bits else []) ++
    ((if h.tcpValid then h.tcp.bits else []) ++ payload))

def deparse (h : Headers) (payload : List Bool) : List Bool :=
  (if h.ethernetValid then h.ethernet.bits else []) ++ ipBits h payload

end Parser

section Tables

inductive MplbAction
  | setDst (dst pdip ts : BitVec 32)
  | drop
  deriving DecidableEq

inductive MplbPortAction
  | setDstMplbPort (dst : BitVec 32)
  | drop
  deriving DecidableEq

inductive LpmAction
  | setNhop (nhopIpv4 : BitVec 32) (port : BitVec 9)
  | drop
  deriving DecidableEq

inductive MacAction
  | setMac (mac : BitVec 48)
  | drop
  deriving DecidableEq

/-- What the controller has installed. A lookup that misses leaves the packet as it is;
`recirc` and `modulo` have one action without data. -/
structure Tables where
  recirc : BitVec 32 → Bool
  modulo : BitVec 32 → Bool
  gen : BitVec 9 → Option (BitVec 32)
  mplb : BitVec 32 → Option MplbAction
  mplbPort : BitVec 16 → Option MplbPortAction
  ipv4Lpm : BitVec 32 → Option LpmAction
  forward : BitVec 32 → Option MacAction
  sendFrame : BitVec 9 → Option MacAction

end Tables

/-- What the packets that are dropped have for a port. -/
def dropPort : BitVec 9 := 511#9

structure HashMetadata where
  mplbHash : BitVec 32
  mplbHashModulo : BitVec 32
  deriving DecidableEq

structure StandardMetadata where
  ingressPort : BitVec 9
  egressSpec : BitVec 9
  egressPort : BitVec 9
  instanceType : BitVec 32
  deriving DecidableEq

/-- A packet in the tables of the switch. -/
structure Pass where
  hdr : Headers
  hashMetadata : HashMetadata
  nhopIpv4 : BitVec 32
  standardMetadata : StandardMetadata
  recirculated : Bool
  deriving DecidableEq

namespace Pass

variable (t : Tables) (x : Pass)

section Actions

def drop : Pass := { x with standardMetadata.egressSpec := dropPort }

def dropped : Prop := x.standardMetadata.egressSpec = dropPort

instance : Decidable x.dropped := inferInstanceAs (Decidable (_ = _))

def setDmac (dmac : BitVec 48) : Pass := { x with hdr.ethernet.dstAddr := dmac }

def rewriteMac (smac : BitVec 48) : Pass := { x with hdr.ethernet.srcAddr := smac }

/-- The option is not valid yet. -/
def setGen (gen : BitVec 32) : Pass := { x with hdr.mplbIpopt.gen := gen }

/-- The port is overwritten by `egressSpec`, which is left alone. -/
def setNhop (nhopIpv4 : BitVec 32) (port : BitVec 9) : Pass :=
  { x with
    nhopIpv4 := nhopIpv4
    standardMetadata.egressPort := port
    hdr.ipv4.ttl := x.hdr.ipv4.ttl + 255#8 }

def calcModulo : Pass :=
  { x with hashMetadata.mplbHashModulo :=
      x.hashMetadata.mplbHashModulo &&& ~~~10#32 ||| x.hashMetadata.mplbHash &&& 10#32 }

/-- The header of the packet becomes the inner one, but for its checksum. -/
def copyInner (h : Headers) : Headers :=
  { h with
    innerIpv4Valid := true
    innerIpv4 := { h.ipv4 with hdrChecksum := h.innerIpv4.hdrChecksum } }

def setDst (dst pdip ts : BitVec 32) : Pass :=
  let h := copyInner x.hdr
  { x with
    hdr :=
      { h with
        mplbIpoptValid := true
        mplbIpopt :=
          { h.mplbIpopt with optClass := 3#2, number := 1#5, ts := ts, pdip := pdip, len := 16#8 }
        ipv4 :=
          { h.ipv4 with
            ihl := 8#4
            totalLen := h.ipv4.totalLen + 36#16
            protocol := 4#8
            srcAddr := h.ipv4.dstAddr
            dstAddr := dst } } }

def setDstMplbPort (dst : BitVec 32) : Pass :=
  let h := copyInner x.hdr
  { x with
    hdr :=
      { h with
        ipv4 :=
          { h.ipv4 with
            ihl := 5#4
            totalLen := h.ipv4.totalLen + 20#16
            protocol := 4#8
            srcAddr := h.ipv4.dstAddr
            dstAddr := dst } } }

def recirculate : Pass :=
  { x with
    standardMetadata.egressPort := x.standardMetadata.ingressPort
    recirculated := true }

end Actions

def applyRecirc : Pass := if t.recirc x.hdr.ipv4.srcAddr then x.recirculate else x

def applyModulo : Pass := if t.modulo x.hashMetadata.mplbHash then x.calcModulo else x

def applyGen : Pass :=
  match t.gen x.standardMetadata.egressPort with
  | some gen => x.setGen gen
  | none => x

def applyMplb : Pass :=
  match t.mplb x.hashMetadata.mplbHashModulo with
  | some (.setDst dst pdip ts) => x.setDst dst pdip ts
  | some .drop => x.drop
  | none => x

def applyMplbPort : Pass :=
  match t.mplbPort x.hdr.tcp.dstPort with
  | some (.setDstMplbPort dst) => x.setDstMplbPort dst
  | some .drop => x.drop
  | none => x

def applyIpv4Lpm : Pass :=
  match t.ipv4Lpm x.hdr.ipv4.dstAddr with
  | some (.setNhop nhopIpv4 port) => x.setNhop nhopIpv4 port
  | some .drop => x.drop
  | none => x

def applyForward : Pass :=
  match t.forward x.nhopIpv4 with
  | some (.setMac dmac) => x.setDmac dmac
  | some .drop => x.drop
  | none => x

def applySendFrame : Pass :=
  match t.sendFrame x.standardMetadata.egressPort with
  | some (.setMac smac) => x.rewriteMac smac
  | some .drop => x.drop
  | none => x

/-- The tables of the two kinds of ports. -/
def balance : Pass :=
  if x.hdr.tcp.dstPort < 1024#16 then ((x.applyModulo t).applyGen t).applyMplb t
  else x.applyMplbPort t

def ingress : Pass :=
  if x.standardMetadata.instanceType = 0#32 then x.applyRecirc t
  else if x.hdr.ipv4Valid ∧ 0#8 < x.hdr.ipv4.ttl then ((x.balance t).applyIpv4Lpm t).applyForward t
  else x

def egress : Pass := x.applySendFrame t

/-- The field lists are fixed, so headers that are not valid are in them. -/
def computeChecksum : Pass :=
  let h := x.hdr
  let i := h.innerIpv4
  let ip := h.ipv4
  let o := h.mplbIpopt
  { x with
    hashMetadata.mplbHash := crc32 (bits ip.srcAddr ++ bits h.tcp.srcPort)
    hdr :=
      { h with
        innerIpv4 :=
          { i with hdrChecksum := if h.ipv4Valid then csum16 (bits i.version ++ bits i.ihl ++
            bits i.diffserv ++ bits i.totalLen ++ bits i.identification ++ bits i.flags ++
            bits i.fragOffset ++ bits i.ttl ++ bits i.protocol ++ bits i.srcAddr ++
            bits i.dstAddr) else i.hdrChecksum }
        ipv4 :=
          { ip with hdrChecksum := csum16 (bits ip.version ++ bits ip.ihl ++ bits ip.diffserv ++
            bits ip.totalLen ++ bits ip.identification ++ bits ip.flags ++ bits ip.fragOffset ++
            bits ip.ttl ++ bits ip.protocol ++ bits ip.srcAddr ++ bits ip.dstAddr ++
            bits o.copied ++ bits o.optClass ++ bits o.number ++ bits o.len ++ bits o.ts ++
            bits o.pdip) } } }

/-- Both pipelines with the traffic manager between them. -/
def pipeline : Option Pass :=
  let y := x.ingress t
  if y.dropped then none
  else
    let z := egress t { y with standardMetadata.egressPort := y.standardMetadata.egressSpec }
    if z.dropped then none else some z.computeChecksum

end Pass

/-- The instance type of a recirculated packet. -/
def recirculatedType : BitVec 32 := 4#32

namespace Tables

variable (t : Tables)

/-- The packet that leaves the switch, as its headers and its payload. A recirculated packet
is parsed again and keeps the metadata that `_recirculate` names. -/
def receive (stale staleRecirc : Headers) (port : BitVec 9) (l : List Bool) :
    Option (Headers × List Bool) :=
  let p := parse stale l
  ((Pass.mk p.1 ⟨0#32, 0#32⟩ 0#32 ⟨port, 0#9, 0#9, 0#32⟩ false).pipeline t).bind fun x =>
    if x.recirculated then
      let r := parse staleRecirc (deparse x.hdr p.2)
      ((Pass.mk r.1 x.hashMetadata 0#32
        { x.standardMetadata with instanceType := recirculatedType } false).pipeline t).map
          fun y => (y.hdr, r.2)
    else some (x.hdr, p.2)

end Tables

end P4Survey.Beamer
