import P4Survey.Lib.System
import P4Survey.NetCache.Stages

/-! # The cache agrees with the server

The server answers from a fixed store. Packets pass the switch in any order; an
update reply is one the server sent. Then every valid entry of the cache holds
what the store has for its key, so a read that the switch answers gets the
datagram the server would have sent.
-/

namespace P4Survey.NetCache
open Lib

section Server

/-- The items of `kv.txt`: by the first four bytes of the key, the other twelve and the value. -/
abbrev Store := BitVec 32 → Option (BitVec 96 × BitVec 1024)

def clientIp : BitVec 32 := 0x0a000001#32
def controllerIp : BitVec 32 := 0x0a000003#32

/-- The datagram the server sends for a packet it receives, and where it sends it. -/
def serverReply (kv : Store) : List Bool → Option (List Bool × BitVec 32) :=
  take 8 fun op => take 32 fun keyHeader => fun _ =>
    if op = 0#8 ∨ op = 2#8 then
      (kv keyHeader).map fun item =>
        (bits 1#8 ++ (bits keyHeader ++ bits item.1 ++ bits item.2), clientIp)
    else if op = 8#8 then
      (kv keyHeader).map fun item =>
        (bits 9#8 ++ (bits keyHeader ++ bits item.1 ++ bits item.2), controllerIp)
    else none

/-- The datagram of a read as `send.py` makes it. -/
def readRequest (key : BitVec 128) : List Bool := bits 0#8 ++ bits key

/-- The store has the key with the value that the eight stages make up. -/
def Store.Has (kv : Store) (key : BitVec 128) (v : Fin 8 → NcValue) : Prop :=
  ∃ keyHeader item, kv keyHeader = some item ∧ bits keyHeader ++ bits item.1 = bits key ∧
    bits item.2 = valueBits v

theorem Store.Has.serverReply {kv : Store} {key : BitVec 128} {v : Fin 8 → NcValue}
    (h : kv.Has key v) :
    serverReply kv (readRequest key) =
      some (bits 1#8 ++ (bits key ++ valueBits v), clientIp) := by
  obtain ⟨keyHeader, item, hkv, hkey, hval⟩ := h
  rw [NetCache.serverReply, readRequest, ← hkey, take_bits_append, take_bits_append, if_pos (.inl rfl), hkv,
    ← hval]
  rfl

theorem Store.exists_has {kv : Store} {keyHeader : BitVec 32} {item : BitVec 96 × BitVec 1024}
    (h : kv keyHeader = some item) :
    ∃ key v, kv.Has key v ∧
      bits keyHeader ++ bits item.1 ++ bits item.2 = bits key ++ valueBits v := by
  obtain ⟨key, hkey⟩ := exists_bits (w := 128) (l := bits keyHeader ++ bits item.1) (by simp)
  obtain ⟨v, hv⟩ := exists_valueBits (l := bits item.2) (by simp)
  exact ⟨key, v, ⟨keyHeader, item, h, hkey.symm, hv.symm⟩, by rw [hkey, hv]⟩

/-- What the server sends is a reply with an item of its store. -/
theorem serverReply_has {kv : Store} {request payload : List Bool} {dst : BitVec 32}
    (h : serverReply kv request = some (payload, dst)) :
    ∃ op key v, (op = 1#8 ∨ op = 9#8) ∧ kv.Has key v ∧
      payload = bits op ++ (bits key ++ valueBits v) := by
  obtain ⟨⟨op, l⟩, -, h⟩ := Option.bind_eq_some_iff.mp h
  obtain ⟨⟨keyHeader, l'⟩, -, h⟩ := Option.bind_eq_some_iff.mp h
  dsimp only at h
  split_ifs at h with hread hupdate
  · obtain ⟨item, hkv, hitem⟩ := Option.map_eq_some_iff.mp h
    obtain ⟨key, v, hhas, hbits⟩ := Store.exists_has hkv
    rw [hbits] at hitem
    cases hitem
    exact ⟨1#8, key, v, .inl rfl, hhas, rfl⟩
  · obtain ⟨item, hkv, hitem⟩ := Option.map_eq_some_iff.mp h
    obtain ⟨key, v, hhas, hbits⟩ := Store.exists_has hkv
    rw [hbits] at hitem
    cases hitem
    exact ⟨9#8, key, v, .inr rfl, hhas, rfl⟩

end Server

section Wire

/-- The headers of a packet with a NetCache header and no values. -/
def ncHeaders (e : Ethernet) (ip : Ipv4) (u : Udp) (x : NcHdr) : Headers :=
  { baseHeaders e ip u with ncHdrValid := true, ncHdr := x }

/-- The headers of a packet with a NetCache header and all values. -/
def valueHeaders (e : Ethernet) (ip : Ipv4) (u : Udp) (x : NcHdr) (v : Fin 8 → NcValue) :
    Headers :=
  { ncHeaders e ip u x with ncValueValid := fun _ => true, ncValue := v }

theorem parse_read {f : Frame} {key : BitVec 128} (hf : f.payload = readRequest key) :
    parse f.bits = (ncHeaders f.ethernet f.ipv4 f.udp ⟨0#8, key⟩, f.pad) := by
  have hhdr : readRequest key = (NcHdr.mk 0#8 key).bits := rfl
  rw [parse_frame, hf, hhdr, parseNcHdr, NcHdr.extract_bits]
  rfl

theorem parse_reply {f : Frame} {op : BitVec 8} {key : BitVec 128} {v : Fin 8 → NcValue}
    (hop : op = 1#8 ∨ op = 9#8) (hf : f.payload = bits op ++ (bits key ++ valueBits v)) :
    parse f.bits = (valueHeaders f.ethernet f.ipv4 f.udp ⟨op, key⟩ v, f.pad) := by
  have hhdr : bits op ++ bits key = (NcHdr.mk op key).bits := rfl
  rw [parse_frame, hf, ← List.append_assoc, hhdr, List.append_assoc, parseNcHdr,
    NcHdr.extract_bits]
  dsimp only
  rw [if_pos hop, parseValue_bits]
  rfl

theorem computeChecksum_eq (h : Headers) (payload : List Bool) :
    ∃ a b, computeChecksum h payload = { h with
      ipv4 := { h.ipv4 with hdrChecksum := a }, udp := { h.udp with checksum := b } } :=
  ⟨_, _, rfl⟩

theorem deparse_ncHeaders (e : Ethernet) (ip : Ipv4) (u : Udp) (x : NcHdr) (pad : List Bool) :
    deparse (ncHeaders e ip u x) pad = e.bits ++ (ip.bits ++ (u.bits ++ (x.bits ++ pad))) := by
  have hvalues : ((List.finRange 8).flatMap fun i =>
      if (ncHeaders e ip u x).ncValueValid i then ((ncHeaders e ip u x).ncValue i).bits else []) =
      [] := by
    rw [List.flatMap_eq_nil_iff]
    intro i hi
    rfl
  rw [deparse, hvalues]
  rfl

theorem deparse_valueHeaders (e : Ethernet) (ip : Ipv4) (u : Udp) (x : NcHdr)
    (v : Fin 8 → NcValue) (pad : List Bool) :
    deparse (valueHeaders e ip u x v) pad =
      e.bits ++ (ip.bits ++ (u.bits ++ (x.bits ++ (valueBits v ++ pad)))) := by
  have hvalues : ((List.finRange 8).flatMap fun i =>
      if (valueHeaders e ip u x v).ncValueValid i then ((valueHeaders e ip u x v).ncValue i).bits
      else []) = valueBits v := rfl
  rw [deparse, hvalues]
  rfl

theorem hop_packet (t : Tables) (regs : Switch) (x : List Bool) :
    (hop t regs x).packet = deparse (computeChecksum
      (egress t 0#32 (ingress t regs (parse x).1)).hdr (parse x).2) (parse x).2 := rfl

theorem hop_port (t : Tables) (regs : Switch) (x : List Bool) :
    (hop t regs x).port = (egress t 0#32 (ingress t regs (parse x).1)).egressSpec := rfl

theorem valueBits_length (v : Fin 8 → NcValue) : (valueBits v).length = 1024 := by
  have hlen (i : Fin 8) : (v i).bits.length = 128 := by
    simp [NcValue.bits]
  simp [valueBits, List.length_flatMap, hlen]

/-- A datagram that leaves as it came, but for its link, its hop limit and its checksums. -/
structure Frame.ForwardedAs (f g : Frame) : Prop where
  ipv4 : g.ipv4 = { f.ipv4 with ttl := g.ipv4.ttl, hdrChecksum := g.ipv4.hdrChecksum }
  udp : g.udp = { f.udp with checksum := g.udp.checksum }
  payload : g.payload = f.payload
  pad : g.pad = f.pad

variable {t : Tables} {regs : Switch} {f : Frame} {key : BitVec 128}

theorem hop_miss (hf : f.payload = readRequest key) (hmiss : ¬ t.IsValid regs key) :
    ∃ g, f.ForwardedAs g ∧ (hop t regs f.bits).packet = g.bits ∧
      (hop t regs f.bits).port = (t.ipv4Route f.ipv4.dstAddr).getD 0#9 := by
  have hparse := parse_read hf
  obtain ⟨ttl, e, he, hhdr, hspec⟩ := read_miss t regs
    (h := ncHeaders f.ethernet f.ipv4 f.udp ⟨0#8, key⟩) rfl hmiss
  obtain ⟨a, b, hsum⟩ := computeChecksum_eq
    (ncHeaders e { f.ipv4 with ttl := ttl } f.udp ⟨0#8, key⟩) f.pad
  let g : Frame := { f with
    ethernet := e, etherType := he.trans f.etherType
    ipv4 := { f.ipv4 with ttl := ttl, hdrChecksum := a }
    udp := { f.udp with checksum := b } }
  have hhdr' : (egress t 0#32
      (ingress t regs (ncHeaders f.ethernet f.ipv4 f.udp ⟨0#8, key⟩))).hdr =
      ncHeaders e { f.ipv4 with ttl := ttl } f.udp ⟨0#8, key⟩ := hhdr
  have hsum' : computeChecksum (ncHeaders e { f.ipv4 with ttl := ttl } f.udp ⟨0#8, key⟩) f.pad =
      ncHeaders g.ethernet g.ipv4 g.udp ⟨0#8, key⟩ := hsum
  have hbits : g.bits = g.ethernet.bits ++ (g.ipv4.bits ++ (g.udp.bits ++
      ((NcHdr.mk 0#8 key).bits ++ g.pad))) := by
    have hpayload : g.payload = (NcHdr.mk 0#8 key).bits := hf
    rw [Frame.bits, hpayload]
  refine ⟨g, ⟨rfl, rfl, rfl, rfl⟩, ?_, ?_⟩
  · rw [hop_packet, hparse, hhdr', hsum', deparse_ncHeaders, hbits]
  · rw [hop_port, hparse]
    exact hspec

/-- The answer to a read: addresses exchanged, and a datagram of the given value. -/
theorem hop_hit (hf : f.payload = readRequest key) {i : BitVec 14}
    (hi : t.checkCacheExist key = some i) (hvalid : regs.cacheValidReg.read i.toNat = 1#1) :
    ∃ g : Frame, g.ipv4.srcAddr = f.ipv4.dstAddr ∧ g.ipv4.dstAddr = f.ipv4.srcAddr ∧
      g.payload = bits 1#8 ++ (bits key ++
        valueBits fun j => (regs.valueReg j).read i.toNat) ∧
      (hop t regs f.bits).packet = g.bits ∧
      (hop t regs f.bits).port = (t.ipv4Route f.ipv4.srcAddr).getD 0#9 := by
  have hparse := parse_read hf
  set v : Fin 8 → NcValue := fun j => (regs.valueReg j).read i.toNat with hv
  obtain ⟨ttl, e, he, hhdr, hspec⟩ := read_hit t regs
    (h := ncHeaders f.ethernet f.ipv4 f.udp ⟨0#8, key⟩) rfl hi hvalid
  set ip : Ipv4 := { f.ipv4 with
    totalLen := f.ipv4.totalLen + 128#16, ttl := ttl
    srcAddr := f.ipv4.dstAddr, dstAddr := f.ipv4.srcAddr } with hip
  set u : Udp := { f.udp with len := f.udp.len + 128#16 } with hu
  obtain ⟨a, b, hsum⟩ := computeChecksum_eq (valueHeaders e ip u ⟨1#8, key⟩ v) f.pad
  have hlen : (bits 1#8 ++ (bits key ++ valueBits v)).length = 1160 := by
    simp [valueBits_length]
  have hlen' : f.payload.length = 136 := by
    simp [hf, readRequest]
  have htotal : f.ipv4.totalLen + 128#16 =
      BitVec.ofNat 16 (28 + (bits 1#8 ++ (bits key ++ valueBits v)).length / 8) := by
    rw [f.totalLen, hlen, hlen']
    rfl
  have hudp : f.udp.len + 128#16 =
      BitVec.ofNat 16 (8 + (bits 1#8 ++ (bits key ++ valueBits v)).length / 8) := by
    rw [f.len, hlen, hlen']
    rfl
  let g : Frame :=
    { ethernet := e, etherType := he.trans f.etherType
      ipv4 := { ip with hdrChecksum := a }, protocol := f.protocol
      udp := { u with checksum := b }, dstPort := f.dstPort
      payload := bits 1#8 ++ (bits key ++ valueBits v)
      totalLen := htotal, len := hudp, pad := f.pad }
  have hhdr' : (egress t 0#32
      (ingress t regs (ncHeaders f.ethernet f.ipv4 f.udp ⟨0#8, key⟩))).hdr =
      valueHeaders e ip u ⟨1#8, key⟩ v := hhdr
  have hsum' : computeChecksum (valueHeaders e ip u ⟨1#8, key⟩ v) f.pad =
      valueHeaders g.ethernet g.ipv4 g.udp ⟨1#8, key⟩ v := hsum
  have hbits : g.bits = g.ethernet.bits ++ (g.ipv4.bits ++ (g.udp.bits ++
      ((NcHdr.mk 1#8 key).bits ++ (valueBits v ++ g.pad)))) := by
    rw [Frame.bits, NcHdr.bits]
    simp only [g, List.append_assoc]
  refine ⟨g, rfl, rfl, rfl, ?_, ?_⟩
  · rw [hop_packet, hparse, hhdr', hsum', deparse_valueHeaders, hbits]
  · rw [hop_port, hparse]
    exact hspec

end Wire

/-- The tables of the switch and the store of the server. -/
structure Setup where
  tables : Tables
  kv : Store
  injective : ∀ {key key' i}, tables.checkCacheExist key = some i →
    tables.checkCacheExist key' = some i → key = key'
  index_lt : ∀ {key i}, tables.checkCacheExist key = some i → i.toNat < cacheSize

namespace Setup

variable (c : Setup)

/-- A packet that the server sent to answer some datagram. -/
def FromServer (x : List Bool) : Prop :=
  ∃ (f : Frame) (request : List Bool),
    serverReply c.kv request = some (f.payload, f.ipv4.dstAddr) ∧ x = f.bits

/-- Packets pass the switch in any order, from a cache with no valid entry; an update
reply is one of the server. -/
def cache : System Switch (List Bool) where
  init regs := regs.cacheValidReg = .fill cacheSize 0#1
  enabled _ x := (parse x).1.ncHdr.op = 9#8 → c.FromServer x
  next regs x := (hop c.tables regs x).regs

/-- A valid entry holds the value of the store for the key of the entry. -/
def Coherent (regs : Switch) : Prop :=
  ∀ key i, c.tables.checkCacheExist key = some i → regs.cacheValidReg.read i.toNat = 1#1 →
    c.kv.Has key fun j => (regs.valueReg j).read i.toNat

variable {c}

theorem coherent_of_fill {regs : Switch} (hc : c.Coherent regs) {h : Headers}
    (hop : h.ncHdr.op = 9#8) (hhas : c.kv.Has h.ncHdr.key h.ncValue) :
    c.Coherent (egress c.tables 0#32 (ingress c.tables regs h)).regs := by
  cases hi : c.tables.checkCacheExist h.ncHdr.key with
  | none =>
    obtain ⟨hvalid, hvalue⟩ := regs_of_not_fill c.tables regs fun _ => hi
    intro key i hkey hread
    rw [hvalid] at hread
    rw [hvalue]
    exact hc key i hkey hread
  | some i =>
    obtain ⟨hvalid, hvalue⟩ := regs_of_fill c.tables regs hop hi
    intro key i' hkey hread
    simp only [hvalue]
    by_cases he : i'.toNat = i.toNat
    · have hi' : i' = i := BitVec.eq_of_toNat_eq he
      subst hi'
      have hkeys : key = h.ncHdr.key := c.injective hkey hi
      subst hkeys
      simp only [ValueRegs.read_write_self _ (c.index_lt hi)]
      exact hhas
    · rw [hvalid, Register.read_write_of_ne _ (Ne.symm he)] at hread
      simp only [ValueRegs.read_write_of_ne _ (Ne.symm he)]
      exact hc key i' hkey hread

theorem coherent_of_not_fill {regs : Switch} (hc : c.Coherent regs) {h : Headers}
    (hop : h.ncHdr.op ≠ 9#8) :
    c.Coherent (egress c.tables 0#32 (ingress c.tables regs h)).regs := by
  obtain ⟨hvalid, hvalue⟩ := regs_of_not_fill c.tables regs
    fun h9 => absurd h9 hop
  intro key i hkey hread
  rw [hvalid] at hread
  rw [hvalue]
  exact hc key i hkey hread

theorem coherent_of_reachable {regs : Switch} (h : c.cache.Reachable regs) : c.Coherent regs := by
  apply h.invariant
  · intro regs hinit key i hkey hread
    have hzero : regs.cacheValidReg.read i.toNat = 0#1 := by
      rw [hinit]
      exact Register.read_fill_zero _
    rw [hzero] at hread
    exact absurd hread (by decide)
  · intro regs x hr hc henabled
    have hnext : c.cache.next regs x =
        (egress c.tables 0#32 (ingress c.tables regs (parse x).1)).regs := rfl
    rw [hnext]
    by_cases hop : (parse x).1.ncHdr.op = 9#8
    · obtain ⟨f, request, hreply, rfl⟩ := henabled hop
      obtain ⟨op, key, v, hops, hhas, hpayload⟩ := serverReply_has hreply
      have hparse := parse_reply hops hpayload
      rw [hparse] at hop ⊢
      exact coherent_of_fill hc hop hhas
    · exact coherent_of_not_fill hc hop

/-- A read of a valid entry is answered with the datagram of the server, with the
addresses exchanged and the lengths of the server's reply. Any other read goes on to
its destination. No other packet becomes a reply. -/
theorem switch_agrees_with_server {regs : Switch} (hr : c.cache.Reachable regs) {f : Frame}
    {key : BitVec 128} (hf : f.payload = readRequest key) :
    (c.tables.IsValid regs key →
      ∃ (g : Frame) (val : BitVec 1024),
        g.payload = bits 1#8 ++ (bits key ++ bits val) ∧
        serverReply c.kv f.payload = some (g.payload, clientIp) ∧
        g.ipv4.srcAddr = f.ipv4.dstAddr ∧ g.ipv4.dstAddr = f.ipv4.srcAddr ∧
        (∀ s : Frame, serverReply c.kv f.payload = some (s.payload, clientIp) →
          g.ipv4.totalLen = s.ipv4.totalLen ∧ g.udp.len = s.udp.len) ∧
        (hop c.tables regs f.bits).packet = g.bits ∧
        (hop c.tables regs f.bits).port = (c.tables.ipv4Route f.ipv4.srcAddr).getD 0#9) ∧
    (¬ c.tables.IsValid regs key →
      ∃ g, f.ForwardedAs g ∧ (hop c.tables regs f.bits).packet = g.bits ∧
        (hop c.tables regs f.bits).port = (c.tables.ipv4Route f.ipv4.dstAddr).getD 0#9) ∧
    ∀ x, (parse x).1.ncHdr.op ≠ 0#8 →
      (egress c.tables 0#32 (ingress c.tables regs (parse x).1)).hdr.ncHdr =
        (parse x).1.ncHdr := by
  refine ⟨?_, hop_miss hf, fun x => ncHdr_of_not_read⟩
  rintro ⟨i, hi, hvalid⟩
  have hhas := coherent_of_reachable hr key i hi hvalid
  have hreply := hhas.serverReply
  obtain ⟨-, item, -, -, hval⟩ := hhas
  obtain ⟨g, hsrc, hdst, hpayload, hpacket, hport⟩ := hop_hit hf hi hvalid
  refine ⟨g, item.2, by rw [hpayload, hval], by rw [hf, hreply, hpayload], hsrc, hdst, ?_,
    hpacket, hport⟩
  intro s hs
  have hpayloads : s.payload = g.payload := by
    rw [hf, hreply, ← hpayload, Option.some.injEq, Prod.mk.injEq] at hs
    exact hs.1.symm
  exact ⟨by rw [g.totalLen, s.totalLen, hpayloads], by rw [g.len, s.len, hpayloads]⟩

end Setup

section Lab

/-- The entries that `commands.txt` and `cmd_gen_cache.py` add. -/
def labTables : Tables where
  checkCacheExist key :=
    if key.toNat % 2 ^ 96 = 0 ∧ key.toNat / 2 ^ 96 % 2 = 1 ∧ key.toNat / 2 ^ 96 ≤ 100 then
      some (BitVec.ofNat 14 (key.toNat / 2 ^ 96))
    else none
  ipv4Route addr :=
    if addr = 0x0a000001#32 then some 1#9
    else if addr = 0x0a000002#32 then some 2#9
    else if addr = 0x0a000003#32 then some 3#9
    else none
  ethernetSetMac port :=
    if port = 1#9 then some (0xaabbccddee11#48, 0xaabbccddee01#48)
    else if port = 2#9 then some (0xaabbccddee12#48, 0xaabbccddee02#48)
    else if port = 3#9 then some (0xaabbccddee13#48, 0xaabbccddee03#48)
    else none
  crc32 key := (Lib.crc32 (bits key)).toNat
  csum16 key := (Lib.csum16 (bits key)).toNat
  crc16 key := (Lib.crc16 (bits key)).toNat

theorem labTables_eq_some {key : BitVec 128} {i : BitVec 14}
    (h : labTables.checkCacheExist key = some i) :
    key.toNat = i.toNat * 2 ^ 96 ∧ i.toNat ≤ 100 := by
  dsimp only [labTables] at h
  split_ifs at h with hkey
  obtain ⟨hbody, -, hheader⟩ := hkey
  cases h
  rw [BitVec.toNat_ofNat]
  omega

/-- The items that `gen_kv.py` writes: a thousand keys, each with a value of ones. -/
def labStore : Store := fun keyHeader =>
  if 1 ≤ keyHeader.toNat ∧ keyHeader.toNat ≤ 1000 then
    some (0#96, BitVec.ofNat 1024 ((2 ^ 1024 - 1) / 255))
  else none

def lab : Setup where
  tables := labTables
  kv := labStore
  injective := by
    intro key key' i hkey hkey'
    apply BitVec.eq_of_toNat_eq
    rw [(labTables_eq_some hkey).1, (labTables_eq_some hkey').1]
  index_lt := by
    intro key i hkey
    have hle := (labTables_eq_some hkey).2
    rw [cacheSize]
    omega

/-- A datagram as the network stack of a host sends it. -/
def hostFrame (src dst : BitVec 32) (payload : List Bool) : Frame where
  ethernet := ⟨0xaabbccddee11#48, 0xaabbccddee01#48, 0x800#16⟩
  etherType := rfl
  ipv4 := ⟨4#4, 5#4, 0#8, BitVec.ofNat 16 (28 + payload.length / 8), 0#16, 2#3, 0#13, 64#8, 17#8,
    0#16, src, dst⟩
  protocol := rfl
  udp := ⟨40000#16, 8888#16, BitVec.ofNat 16 (8 + payload.length / 8), 0#16⟩
  dstPort := rfl
  payload := payload
  totalLen := rfl
  len := rfl
  pad := []

def emptySwitch : Switch where
  cacheValidReg := .fill cacheSize 0#1
  valueReg := fun _ => ⟨.fill _ 0#32, .fill _ 0#32, .fill _ 0#32, .fill _ 0#32⟩
  hhLoadReg := fun _ => .fill _ 0#32
  hhBfReg := fun _ => .fill _ 0#1

/-- The first key of `hot.txt`. -/
def labKey : BitVec 128 := 0x1000000000000000000000000#128

def labRead : Frame := hostFrame 0x0a000001#32 0x0a000002#32 (readRequest labKey)

/-- The answer of the server to the update request for the first key. -/
def labUpdateReply : Frame := hostFrame 0x0a000002#32 0x0a000003#32
  (bits 9#8 ++ (bits 1#32 ++ bits 0#96 ++ bits (BitVec.ofNat 1024 ((2 ^ 1024 - 1) / 255))))

theorem labUpdateReply_fromServer : lab.FromServer labUpdateReply.bits := by
  refine ⟨labUpdateReply, bits 8#8 ++ (bits 1#32 ++ bits 0#96), ?_, rfl⟩
  rw [serverReply, take_bits_append, take_bits_append]
  rfl

/-- The cache after the update reply. -/
def labSwitch : Switch := lab.cache.next emptySwitch labUpdateReply.bits

theorem emptySwitch_reachable : lab.cache.Reachable emptySwitch := .init rfl

theorem labSwitch_reachable : lab.cache.Reachable labSwitch := by
  rw [labSwitch]
  exact emptySwitch_reachable.step fun _ => labUpdateReply_fromServer

theorem labSwitch_isValid : lab.tables.IsValid labSwitch labKey :=
  ⟨1#14, by decide +kernel, by decide +kernel⟩

theorem emptySwitch_not_isValid : ¬ lab.tables.IsValid emptySwitch labKey := by
  rintro ⟨i, -, hi⟩
  have hzero : emptySwitch.cacheValidReg.read i.toNat = 0#1 := Register.read_fill_zero _
  rw [hzero] at hi
  exact absurd hi (by decide)

theorem switch_agrees_with_server_lab :
    ∃ g : Frame, serverReply lab.kv labRead.payload = some (g.payload, clientIp) ∧
      (hop lab.tables labSwitch labRead.bits).packet = g.bits := by
  obtain ⟨g, val, -, hreply, -, -, -, hpacket, -⟩ :=
    (Setup.switch_agrees_with_server labSwitch_reachable (f := labRead) rfl).1 labSwitch_isValid
  exact ⟨g, hreply, hpacket⟩

/-- A read before the update reply reaches the server with a smaller hop limit. -/
theorem labRead_not_forwarded_unchanged :
    lab.cache.Reachable emptySwitch ∧ labRead.payload = readRequest labKey ∧
      ¬ lab.tables.IsValid emptySwitch labKey ∧
      (parse labRead.bits).1.ipv4.ttl = 64#8 ∧
      (parse (hop lab.tables emptySwitch labRead.bits).packet).1.ipv4.ttl = 63#8 ∧
      (hop lab.tables emptySwitch labRead.bits).packet ≠ labRead.bits := by
  have hbefore : (parse labRead.bits).1.ipv4.ttl = 64#8 := by
    decide +kernel
  have hafter : (parse (hop lab.tables emptySwitch labRead.bits).packet).1.ipv4.ttl = 63#8 := by
    decide +kernel
  refine ⟨emptySwitch_reachable, rfl, emptySwitch_not_isValid, hbefore, hafter, ?_⟩
  intro hsame
  rw [hsame, hbefore] at hafter
  exact absurd hafter (by decide)

end Lab

end P4Survey.NetCache
