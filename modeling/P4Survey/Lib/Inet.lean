import P4Survey.Lib.Wire

/-! # Ethernet, IPv4, UDP and TCP headers

The fields are those of the standard headers, in wire order. Each header has a
wire form and an extraction that takes all of its fields or none. The checksum
is the one of IPv4 and UDP; the two cyclic redundancy checks are the hashes a
v1model switch offers beside it.
-/

namespace P4Survey.Lib

structure Ethernet where
  dstAddr : BitVec 48
  srcAddr : BitVec 48
  etherType : BitVec 16
  deriving DecidableEq, Inhabited

structure Ipv4 where
  version : BitVec 4
  ihl : BitVec 4
  diffserv : BitVec 8
  totalLen : BitVec 16
  identification : BitVec 16
  flags : BitVec 3
  fragOffset : BitVec 13
  ttl : BitVec 8
  protocol : BitVec 8
  hdrChecksum : BitVec 16
  srcAddr : BitVec 32
  dstAddr : BitVec 32
  deriving DecidableEq, Inhabited

structure Udp where
  srcPort : BitVec 16
  dstPort : BitVec 16
  len : BitVec 16
  checksum : BitVec 16
  deriving DecidableEq, Inhabited

structure Tcp where
  srcPort : BitVec 16
  dstPort : BitVec 16
  seqNo : BitVec 32
  ackNo : BitVec 32
  dataOffset : BitVec 4
  res : BitVec 3
  ecn : BitVec 3
  ctrl : BitVec 6
  window : BitVec 16
  checksum : BitVec 16
  urgentPtr : BitVec 16
  deriving DecidableEq, Inhabited

/-- The 16-bit words of a bit string added up, the last word padded with zeros. -/
def wordSum : ℕ → List Bool → ℕ
  | 0, _ => 0
  | n + 1, l => valueOf (l.take 16) * 2 ^ (16 - (l.take 16).length) + wordSum n (l.drop 16)

/-- The Internet checksum: the complement of the ones' complement sum of the words.
Carries are folded back in, so a sum other than zero is kept between 1 and 65535. -/
def csum16 (l : List Bool) : BitVec 16 :=
  let sum := wordSum l.length l
  ~~~BitVec.ofNat 16 (if sum = 0 then 0 else (sum - 1) % 65535 + 1)

/-- One bit enters a cyclic redundancy check with the reflected polynomial `poly`. -/
def crcStep {w : ℕ} (poly crc : BitVec w) (b : Bool) : BitVec w :=
  if crc.getLsbD 0 = b then crc >>> 1 else (crc >>> 1) ^^^ poly

/-- The bits of each of the next `n` bytes enter lowest first. -/
def crcBytes {w : ℕ} (poly : BitVec w) : ℕ → BitVec w → List Bool → BitVec w
  | 0, crc, _ => crc
  | n + 1, crc, l => crcBytes poly n ((l.take 8).reverse.foldl (crcStep poly) crc) (l.drop 8)

def crc16 (l : List Bool) : BitVec 16 := crcBytes 0xa001#16 (l.length / 8) 0#16 l

def crc32 (l : List Bool) : BitVec 32 :=
  ~~~crcBytes 0xedb88320#32 (l.length / 8) 0xffffffff#32 l

namespace Ethernet

def bits (h : Ethernet) : List Bool :=
  Lib.bits h.dstAddr ++ (Lib.bits h.srcAddr ++ Lib.bits h.etherType)

def extract : List Bool → Option (Ethernet × List Bool) :=
  take 48 fun dstAddr => take 48 fun srcAddr => take 16 fun etherType =>
    fun l => some (⟨dstAddr, srcAddr, etherType⟩, l)

@[simp] theorem extract_bits (h : Ethernet) (rest : List Bool) :
    extract (h.bits ++ rest) = some (h, rest) := by
  simp only [extract, bits, List.append_assoc, take_bits_append]

end Ethernet

namespace Ipv4

def bits (h : Ipv4) : List Bool :=
  Lib.bits h.version ++ (Lib.bits h.ihl ++ (Lib.bits h.diffserv ++ (Lib.bits h.totalLen ++
    (Lib.bits h.identification ++ (Lib.bits h.flags ++ (Lib.bits h.fragOffset ++
      (Lib.bits h.ttl ++ (Lib.bits h.protocol ++ (Lib.bits h.hdrChecksum ++
        (Lib.bits h.srcAddr ++ Lib.bits h.dstAddr))))))))))

def extract : List Bool → Option (Ipv4 × List Bool) :=
  take 4 fun version => take 4 fun ihl => take 8 fun diffserv => take 16 fun totalLen =>
    take 16 fun identification => take 3 fun flags => take 13 fun fragOffset => take 8 fun ttl =>
    take 8 fun protocol => take 16 fun hdrChecksum => take 32 fun srcAddr =>
    take 32 fun dstAddr =>
    fun l => some (⟨version, ihl, diffserv, totalLen, identification, flags, fragOffset, ttl, protocol,
    hdrChecksum, srcAddr, dstAddr⟩, l)

@[simp] theorem extract_bits (h : Ipv4) (rest : List Bool) :
    extract (h.bits ++ rest) = some (h, rest) := by
  simp only [extract, bits, List.append_assoc, take_bits_append]

@[simp] theorem bits_length (h : Ipv4) : h.bits.length = 160 := by
  simp [bits]

/-- A header that was read stood in front. -/
theorem extract_eq_some {l : List Bool} {p : Ipv4 × List Bool} (h : extract l = some p) :
    l = p.1.bits ++ p.2 := by
  obtain ⟨version, l₁, rfl, h₁⟩ := take_eq_some h
  obtain ⟨ihl, l₂, rfl, h₂⟩ := take_eq_some h₁
  obtain ⟨diffserv, l₃, rfl, h₃⟩ := take_eq_some h₂
  obtain ⟨totalLen, l₄, rfl, h₄⟩ := take_eq_some h₃
  obtain ⟨identification, l₅, rfl, h₅⟩ := take_eq_some h₄
  obtain ⟨flags, l₆, rfl, h₆⟩ := take_eq_some h₅
  obtain ⟨fragOffset, l₇, rfl, h₇⟩ := take_eq_some h₆
  obtain ⟨ttl, l₈, rfl, h₈⟩ := take_eq_some h₇
  obtain ⟨protocol, l₉, rfl, h₉⟩ := take_eq_some h₈
  obtain ⟨hdrChecksum, l₁₀, rfl, h₁₀⟩ := take_eq_some h₉
  obtain ⟨srcAddr, l₁₁, rfl, h₁₁⟩ := take_eq_some h₁₀
  obtain ⟨dstAddr, rest, rfl, hp⟩ := take_eq_some h₁₁
  obtain rfl := Option.some.inj hp
  simp only [bits, List.append_assoc]

end Ipv4

namespace Udp

def bits (h : Udp) : List Bool :=
  Lib.bits h.srcPort ++ (Lib.bits h.dstPort ++ (Lib.bits h.len ++ Lib.bits h.checksum))

def extract : List Bool → Option (Udp × List Bool) :=
  take 16 fun srcPort => take 16 fun dstPort => take 16 fun len => take 16 fun checksum =>
    fun l => some (⟨srcPort, dstPort, len, checksum⟩, l)

@[simp] theorem extract_bits (h : Udp) (rest : List Bool) :
    extract (h.bits ++ rest) = some (h, rest) := by
  simp only [extract, bits, List.append_assoc, take_bits_append]

end Udp

namespace Tcp

def bits (h : Tcp) : List Bool :=
  Lib.bits h.srcPort ++ (Lib.bits h.dstPort ++ (Lib.bits h.seqNo ++ (Lib.bits h.ackNo ++
    (Lib.bits h.dataOffset ++ (Lib.bits h.res ++ (Lib.bits h.ecn ++ (Lib.bits h.ctrl ++
      (Lib.bits h.window ++ (Lib.bits h.checksum ++ Lib.bits h.urgentPtr)))))))))

def extract : List Bool → Option (Tcp × List Bool) :=
  take 16 fun srcPort => take 16 fun dstPort => take 32 fun seqNo => take 32 fun ackNo =>
    take 4 fun dataOffset => take 3 fun res => take 3 fun ecn => take 6 fun ctrl =>
    take 16 fun window => take 16 fun checksum => take 16 fun urgentPtr =>
    fun l => some (⟨srcPort, dstPort, seqNo, ackNo, dataOffset, res, ecn, ctrl, window, checksum,
    urgentPtr⟩, l)

end Tcp

end P4Survey.Lib
