import P4Survey.NetCache.Pipeline

/-! # Parser and deparser of NetCache

Packets as bit strings. When the packet is too short for the next header the
parser stops; the headers extracted so far are valid and the rest is payload.
A frame is what the network stack of a host makes of a datagram to the NetCache
port; it may be padded at the end.
-/

namespace P4Survey.NetCache
open Lib

namespace NcHdr

def bits (h : NcHdr) : List Bool := Lib.bits h.op ++ Lib.bits h.key

def extract : List Bool → Option (NcHdr × List Bool) :=
  take 8 fun op => take 128 fun key => fun l => some (⟨op, key⟩, l)

@[simp] theorem extract_bits (h : NcHdr) (rest : List Bool) :
    extract (h.bits ++ rest) = some (h, rest) := by
  simp only [extract, bits, List.append_assoc, take_bits_append]

end NcHdr

namespace NcLoad

def bits (h : NcLoad) : List Bool :=
  Lib.bits h.load1 ++ (Lib.bits h.load2 ++ (Lib.bits h.load3 ++ Lib.bits h.load4))

def extract : List Bool → Option (NcLoad × List Bool) :=
  take 32 fun load1 => take 32 fun load2 => take 32 fun load3 => take 32 fun load4 =>
    fun l => some (⟨load1, load2, load3, load4⟩, l)

end NcLoad

namespace NcValue

def bits (h : NcValue) : List Bool :=
  Lib.bits h.value1 ++ (Lib.bits h.value2 ++ (Lib.bits h.value3 ++ Lib.bits h.value4))

def extract : List Bool → Option (NcValue × List Bool) :=
  take 32 fun value1 => take 32 fun value2 => take 32 fun value3 => take 32 fun value4 =>
    fun l => some (⟨value1, value2, value3, value4⟩, l)

@[simp] theorem extract_bits (h : NcValue) (rest : List Bool) :
    extract (h.bits ++ rest) = some (h, rest) := by
  simp only [extract, bits, List.append_assoc, take_bits_append]

theorem exists_bits {l : List Bool} (h : l.length = 128) : ∃ v : NcValue, v.bits = l := by
  obtain ⟨a, ha⟩ := Lib.exists_bits (w := 32) (l := l.take 32) (by simp [h])
  obtain ⟨b, hb⟩ := Lib.exists_bits (w := 32) (l := (l.drop 32).take 32) (by simp [h])
  obtain ⟨c, hc⟩ := Lib.exists_bits (w := 32) (l := (l.drop 64).take 32) (by simp [h])
  obtain ⟨d, hd⟩ := Lib.exists_bits (w := 32) (l := l.drop 96) (by simp [h])
  refine ⟨⟨a, b, c, d⟩, ?_⟩
  rw [bits, ha, hb, hc, hd, show l.drop 96 = (l.drop 64).drop 32 by rw [List.drop_drop],
    List.take_append_drop, show l.drop 64 = (l.drop 32).drop 32 by rw [List.drop_drop],
    List.take_append_drop, List.take_append_drop]

end NcValue

/-- The states `parse_nc_value_1` to `parse_nc_value_8`, one after the other. -/
def parseNcValues : List (Fin 8) → Headers → List Bool → Headers × List Bool
  | [], h, l => (h, l)
  | i :: is, h, l =>
    match NcValue.extract l with
    | none => (h, l)
    | some (v, l) =>
      parseNcValues is { h with
        ncValueValid := Function.update h.ncValueValid i true
        ncValue := Function.update h.ncValue i v } l

def parseValue (h : Headers) (l : List Bool) : Headers × List Bool :=
  parseNcValues (List.finRange 8) h l

def parseNcLoad (h : Headers) (l : List Bool) : Headers × List Bool :=
  match NcLoad.extract l with
  | none => (h, l)
  | some (x, l) => ({ h with ncLoadValid := true, ncLoad := x }, l)

def parseNcHdr (h : Headers) (l : List Bool) : Headers × List Bool :=
  match NcHdr.extract l with
  | none => (h, l)
  | some (x, l) =>
    let h := { h with ncHdrValid := true, ncHdr := x }
    if x.op = 1#8 ∨ x.op = 9#8 then parseValue h l
    else if x.op = 2#8 then parseNcLoad h l
    else (h, l)

def parseTcp (h : Headers) (l : List Bool) : Headers × List Bool :=
  match Tcp.extract l with
  | none => (h, l)
  | some (x, l) => ({ h with tcpValid := true, tcp := x }, l)

def parseUdp (h : Headers) (l : List Bool) : Headers × List Bool :=
  match Udp.extract l with
  | none => (h, l)
  | some (x, l) =>
    let h := { h with udpValid := true, udp := x }
    if x.dstPort = 8888#16 then parseNcHdr h l else (h, l)

def parseIpv4 (h : Headers) (l : List Bool) : Headers × List Bool :=
  match Ipv4.extract l with
  | none => (h, l)
  | some (x, l) =>
    let h := { h with ipv4Valid := true, ipv4 := x }
    if x.protocol = 6#8 then parseTcp h l
    else if x.protocol = 17#8 then parseUdp h l
    else (h, l)

def parseEthernet (l : List Bool) : Headers × List Bool :=
  match Ethernet.extract l with
  | none => (default, l)
  | some (x, l) =>
    let h := { (default : Headers) with ethernetValid := true, ethernet := x }
    if x.etherType = 0x800#16 then parseIpv4 h l else (h, l)

/-- The headers of a packet and its payload. -/
def parse (l : List Bool) : Headers × List Bool := parseEthernet l

def deparse (h : Headers) (payload : List Bool) : List Bool :=
  (if h.ethernetValid then h.ethernet.bits else []) ++
    ((if h.ipv4Valid then h.ipv4.bits else []) ++
      ((if h.udpValid then h.udp.bits else []) ++
        ((if h.ncHdrValid then h.ncHdr.bits else []) ++
          ((if h.ncLoadValid then h.ncLoad.bits else []) ++
            (((List.finRange 8).flatMap fun i =>
                if h.ncValueValid i then (h.ncValue i).bits else []) ++
              ((if h.tcpValid then h.tcp.bits else []) ++ payload))))))

/-- The IPv4 checksum first, then the UDP checksum over the payload. -/
def computeChecksum (h : Headers) (payload : List Bool) : Headers :=
  let ip := h.ipv4
  let udp := h.udp
  { h with
    ipv4 := { ip with hdrChecksum := csum16 (bits ip.version ++ bits ip.ihl ++ bits ip.diffserv ++
      bits ip.totalLen ++ bits ip.identification ++ bits ip.flags ++ bits ip.fragOffset ++
      bits ip.ttl ++ bits ip.protocol ++ bits ip.srcAddr ++ bits ip.dstAddr) }
    udp := { udp with checksum := csum16 (bits ip.srcAddr ++ bits ip.dstAddr ++ bits 0#8 ++
      bits ip.protocol ++ bits udp.len ++ bits udp.srcPort ++ bits udp.dstPort ++ bits udp.len ++
      payload) } }

/-- A packet that is not a clone, through the switch: the registers, the egress port
and the packet that leaves. -/
structure Hop where
  regs : Switch
  port : BitVec 9
  packet : List Bool

def hop (t : Tables) (regs : Switch) (x : List Bool) : Hop :=
  let (h, payload) := parse x
  let p := egress t 0#32 (ingress t regs h)
  ⟨p.regs, p.egressSpec, deparse (computeChecksum p.hdr payload) payload⟩

/-- A datagram to the NetCache port, with the lengths of the IPv4 and UDP headers. -/
structure Frame where
  ethernet : Ethernet
  etherType : ethernet.etherType = 0x800#16
  ipv4 : Ipv4
  protocol : ipv4.protocol = 17#8
  udp : Udp
  dstPort : udp.dstPort = 8888#16
  payload : List Bool
  totalLen : ipv4.totalLen = BitVec.ofNat 16 (28 + payload.length / 8)
  len : udp.len = BitVec.ofNat 16 (8 + payload.length / 8)
  pad : List Bool

namespace Frame

def bits (f : Frame) : List Bool :=
  f.ethernet.bits ++ (f.ipv4.bits ++ (f.udp.bits ++ (f.payload ++ f.pad)))

end Frame

/-- The headers in front of a datagram, as the parser leaves them. -/
def baseHeaders (ethernet : Ethernet) (ipv4 : Ipv4) (udp : Udp) : Headers :=
  { (default : Headers) with
    ethernetValid := true, ethernet := ethernet, ipv4Valid := true, ipv4 := ipv4
    udpValid := true, udp := udp }

theorem parse_frame (f : Frame) :
    parse f.bits = parseNcHdr (baseHeaders f.ethernet f.ipv4 f.udp) (f.payload ++ f.pad) := by
  have hproto : ¬ f.ipv4.protocol = 6#8 := by
    rw [f.protocol]
    decide
  rw [parse, parseEthernet, Frame.bits, Ethernet.extract_bits]
  dsimp only
  rw [if_pos f.etherType, parseIpv4, Ipv4.extract_bits]
  dsimp only
  rw [if_neg hproto, if_pos f.protocol, parseUdp, Udp.extract_bits]
  dsimp only
  rw [if_pos f.dstPort]
  rfl

/-- The wire form of the values of all stages. -/
def valueBits (v : Fin 8 → NcValue) : List Bool := (List.finRange 8).flatMap fun i => (v i).bits

theorem parseNcValues_bits (v : Fin 8 → NcValue) (is : List (Fin 8)) (h : Headers)
    (rest : List Bool) :
    parseNcValues is h ((is.flatMap fun i => (v i).bits) ++ rest) =
      ({ h with
          ncValueValid := fun i => if i ∈ is then true else h.ncValueValid i
          ncValue := fun i => if i ∈ is then v i else h.ncValue i }, rest) := by
  induction is generalizing h with
  | nil => rfl
  | cons i is ih =>
    rw [parseNcValues, List.flatMap_cons, List.append_assoc, NcValue.extract_bits]
    dsimp only
    rw [ih]
    dsimp only
    congr 2
    · ext j
      by_cases hj : j = i
      · subst hj
        simp
      · simp [hj]
    · ext1 j
      by_cases hj : j = i
      · subst hj
        simp
      · simp [hj]

theorem parseValue_bits (v : Fin 8 → NcValue) (h : Headers) (rest : List Bool) :
    parseValue h (valueBits v ++ rest) =
      ({ h with ncValueValid := fun _ => true, ncValue := v }, rest) := by
  rw [parseValue, valueBits, parseNcValues_bits]
  simp

/-- Every 128 bytes are the values of the eight stages. -/
theorem exists_valueBits {l : List Bool} (h : l.length = 1024) : ∃ v, valueBits v = l := by
  have hchop (n : ℕ) (l : List Bool) (hl : l.length = n * 128) :
      ∃ v : Fin n → NcValue, (List.ofFn v).flatMap NcValue.bits = l := by
    induction n generalizing l with
    | zero =>
      rw [Nat.zero_mul, List.length_eq_zero_iff] at hl
      exact ⟨Fin.elim0, hl.symm⟩
    | succ n ih =>
      obtain ⟨a, ha⟩ := NcValue.exists_bits (l := l.take 128) (by simp [hl])
      obtain ⟨v, hv⟩ := ih (l.drop 128) (by simp [hl]; omega)
      refine ⟨Fin.cons a v, ?_⟩
      rw [List.ofFn_succ, List.flatMap_cons]
      simp only [Fin.cons_zero, Fin.cons_succ]
      rw [ha, hv, List.take_append_drop]
  obtain ⟨v, hv⟩ := hchop 8 l (by rw [h])
  refine ⟨v, ?_⟩
  rw [valueBits, ← hv, List.ofFn_eq_map, List.flatMap_map]

end P4Survey.NetCache
