import P4Survey.Beamer.Switch

/-! # The encapsulation of Beamer

The packet for a server has two IPv4 headers. Its lengths are set by constants in the two
actions that add the inner one, and what the parser makes of it depends on the protocol of
the outer one only.

`set_dst` counts three words of options where it adds four. `set_dst_mplb_port` adds none,
and the parser takes the first 16 bytes of the inner header for one.
-/

namespace P4Survey.Beamer
open Lib

/-- A TCP packet without options in its IPv4 header. -/
structure Datagram where
  ethernet : Ethernet
  ipv4 : Ipv4
  tcp : Tcp
  payload : List Bool
  etherType : ethernet.etherType = 0x800#16
  ihl : ipv4.ihl = 5#4
  protocol : ipv4.protocol = 6#8

namespace Datagram

variable (d : Datagram)

def bits : List Bool := d.ethernet.bits ++ (d.ipv4.bits ++ (d.tcp.bits ++ d.payload))

/-- The headers that the parser finds. -/
def headers (stale : Headers) : Headers :=
  { stale with
    ethernetValid := true
    ethernet := d.ethernet
    innerIpv4Valid := false
    ipv4Valid := true
    ipv4 := d.ipv4
    mplbIpoptValid := false
    tcpValid := true
    tcp := d.tcp }

/-- The emitted packet is well formed and the parser finds the headers of the original one in
it, but for the checksum. -/
structure Encapsulates (stale h : Headers) (payload : List Bool) : Prop where
  ihl : 8 * (h.ipv4.ihl.toNat * 4) = (outerBits h).length
  totalLen : 8 * h.ipv4.totalLen.toNat = (ipBits h payload).length
  innerIpv4 : (parse stale (deparse h payload)).1.innerIpv4Valid = true ∧
    ∃ c, (parse stale (deparse h payload)).1.innerIpv4 = { d.ipv4 with hdrChecksum := c }
  tcp : (parse stale (deparse h payload)).1.tcpValid = true ∧
    (parse stale (deparse h payload)).1.tcp = d.tcp

/-- Nothing is missing from the packet, and no padding follows it. -/
def Complete : Prop := 8 * d.ipv4.totalLen.toNat = (d.ipv4.bits ++ (d.tcp.bits ++ d.payload)).length

/-- From the destination address on the packet happens to spell its headers once more. -/
def Repeats : Prop :=
  ∃ c rest, Lib.bits d.ipv4.dstAddr ++ (d.tcp.bits ++ d.payload) =
    Ipv4.bits { d.ipv4 with hdrChecksum := c } ++ (d.tcp.bits ++ rest)

/-- What both actions make of the packet. -/
structure Emitted (h : Headers) : Prop where
  ethernet : h.ethernetValid = true ∧ h.ethernet.etherType = 0x800#16
  ipv4Valid : h.ipv4Valid = true
  protocol : h.ipv4.protocol = 4#8
  ihl : h.ipv4.ihl = if d.tcp.dstPort < 1024#16 then 8#4 else 5#4
  totalLen : h.ipv4.totalLen =
    d.ipv4.totalLen + if d.tcp.dstPort < 1024#16 then 36#16 else 20#16
  mplbIpoptValid : h.mplbIpoptValid = decide (d.tcp.dstPort < 1024#16)
  innerIpv4 : h.innerIpv4Valid = true ∧ ∃ c, h.innerIpv4 = { d.ipv4 with hdrChecksum := c }
  tcp : h.tcpValid = true ∧ h.tcp = d.tcp

theorem parse_bits (stale : Headers) : parse stale d.bits = (d.headers stale, d.payload) := by
  have hprotocol : d.ipv4.protocol ≠ 4#8 := by
    rw [d.protocol]
    decide
  simp only [parse, parseEthernet, bits, Ethernet.extract_bits, d.etherType, if_true, parseIpv4,
    Ipv4.extract_bits, if_neg hprotocol, parseTcp, Tcp.extract_bits]
  rfl

end Datagram

/-- The key for the table of servers in the second pass. -/
def Tables.hashModulo (t : Tables) (d : Datagram) : BitVec 32 :=
  let mplbHash := crc32 (bits d.ipv4.srcAddr ++ bits d.tcp.srcPort)
  if t.modulo mplbHash then 0#32 &&& ~~~10#32 ||| mplbHash &&& 10#32 else 0#32

/-- A packet that is recirculated and finds one of the two actions. -/
structure Tables.Reaches (t : Tables) (d : Datagram) : Prop where
  recirc : t.recirc d.ipv4.srcAddr = true
  ttl : 0#8 < d.ipv4.ttl
  entry : if d.tcp.dstPort < 1024#16 then
      ∃ dst pdip ts, t.mplb (t.hashModulo d) = some (.setDst dst pdip ts)
    else ∃ dst, t.mplbPort d.tcp.dstPort = some (.setDstMplbPort dst)

namespace Headers

/-- Equal but for the addresses of Ethernet and the checksums, with the time to live `ttl`. -/
def Rewrites (ttl : BitVec 8) (g h : Headers) : Prop :=
  ∃ (e : Ethernet) (c c' : BitVec 16), e.etherType = g.ethernet.etherType ∧
    h = { g with
      ethernet := e
      ipv4 := { g.ipv4 with ttl := ttl, hdrChecksum := c }
      innerIpv4 := { g.innerIpv4 with hdrChecksum := c' } }

theorem Rewrites.refl (h : Headers) : Rewrites h.ipv4.ttl h h :=
  ⟨h.ethernet, h.ipv4.hdrChecksum, h.innerIpv4.hdrChecksum, rfl, rfl⟩

theorem Rewrites.readdress (h : Headers) {e : Ethernet} (he : e.etherType = h.ethernet.etherType) :
    Rewrites h.ipv4.ttl h { h with ethernet := e } :=
  ⟨e, h.ipv4.hdrChecksum, h.innerIpv4.hdrChecksum, he, rfl⟩

theorem Rewrites.trans {a b : BitVec 8} {f g h : Headers} (hg : Rewrites a f g)
    (hh : Rewrites b g h) : Rewrites b f h := by
  obtain ⟨e, c, c', he, rfl⟩ := hg
  obtain ⟨e', k, k', he', rfl⟩ := hh
  exact ⟨e', k, k', he'.trans he, rfl⟩

theorem Rewrites.ttl {a : BitVec 8} {g h : Headers} (hh : Rewrites a g h) : h.ipv4.ttl = a := by
  obtain ⟨e, c, c', -, rfl⟩ := hh
  rfl

end Headers

namespace Pass

open Headers

variable (t : Tables) (x : Pass)

theorem applyIpv4Lpm_hdr : ∃ ttl, Rewrites ttl x.hdr (x.applyIpv4Lpm t).hdr := by
  unfold applyIpv4Lpm
  split
  · exact ⟨_, x.hdr.ethernet, x.hdr.ipv4.hdrChecksum, x.hdr.innerIpv4.hdrChecksum, rfl, rfl⟩
  · exact ⟨_, .refl x.hdr⟩
  · exact ⟨_, .refl x.hdr⟩

theorem applyForward_hdr : Rewrites x.hdr.ipv4.ttl x.hdr (x.applyForward t).hdr := by
  unfold applyForward
  split
  · exact .readdress x.hdr rfl
  · exact .refl x.hdr
  · exact .refl x.hdr

theorem egress_hdr : Rewrites x.hdr.ipv4.ttl x.hdr (x.egress t).hdr := by
  unfold egress applySendFrame
  split
  · exact .readdress x.hdr rfl
  · exact .refl x.hdr
  · exact .refl x.hdr

theorem egress_frame :
    (x.egress t).hashMetadata = x.hashMetadata ∧ (x.egress t).recirculated = x.recirculated := by
  unfold egress applySendFrame
  split <;> exact ⟨rfl, rfl⟩

theorem computeChecksum_hdr : Rewrites x.hdr.ipv4.ttl x.hdr x.computeChecksum.hdr :=
  ⟨x.hdr.ethernet, _, _, rfl, rfl⟩

/-- What the pipelines add to the tables of ingress. -/
theorem pipeline_eq_some {y : Pass} (h : x.pipeline t = some y) :
    Rewrites (x.ingress t).hdr.ipv4.ttl (x.ingress t).hdr y.hdr ∧
      y.hashMetadata = ⟨crc32 (bits (x.ingress t).hdr.ipv4.srcAddr ++
        bits (x.ingress t).hdr.tcp.srcPort), (x.ingress t).hashMetadata.mplbHashModulo⟩ ∧
      y.recirculated = (x.ingress t).recirculated := by
  unfold pipeline at h
  simp only at h
  split_ifs at h
  obtain rfl := Option.some.inj h
  obtain ⟨z, hz⟩ : ∃ z : Pass, z =
    { x.ingress t with standardMetadata.egressPort := (x.ingress t).standardMetadata.egressSpec } :=
      ⟨_, rfl⟩
  rw [← hz]
  have hzhdr : z.hdr = (x.ingress t).hdr := by rw [hz]
  have hhdr := hzhdr ▸ egress_hdr t z
  have hsum := hhdr.ttl ▸ computeChecksum_hdr (z.egress t)
  have hframe := egress_frame t z
  refine ⟨hhdr.trans hsum, ?_, ?_⟩
  · obtain ⟨e, c, c', -, he⟩ := hhdr
    simp only [computeChecksum]
    rw [he, hframe.1, hz]
  · rw [computeChecksum, hframe.2, hz]

section Balance

variable {t x} {d : Datagram} {stale : Headers}

theorem applyModulo_eq
    (hhash : x.hashMetadata = ⟨crc32 (bits d.ipv4.srcAddr ++ bits d.tcp.srcPort), 0#32⟩) :
    x.applyModulo t = { x with hashMetadata.mplbHashModulo := t.hashModulo d } := by
  unfold applyModulo Tables.hashModulo
  simp only [hhash]
  split_ifs
  · simp only [calcModulo, hhash]
  · rw [← hhash]

theorem applyGen_eq : ∃ gen, x.applyGen t = x.setGen gen := by
  unfold applyGen
  split
  · exact ⟨_, rfl⟩
  · exact ⟨x.hdr.mplbIpopt.gen, rfl⟩

theorem balance_emitted (hhdr : x.hdr = d.headers stale)
    (hhash : x.hashMetadata = ⟨crc32 (bits d.ipv4.srcAddr ++ bits d.tcp.srcPort), 0#32⟩)
    (hr : t.Reaches d) : d.Emitted (x.balance t).hdr := by
  have htcp : x.hdr.tcp = d.tcp := by rw [hhdr]; rfl
  have hentry := hr.entry
  unfold balance
  rw [htcp]
  by_cases hport : d.tcp.dstPort < 1024#16
  · rw [if_pos hport] at hentry ⊢
    obtain ⟨dst, pdip, ts, hdst⟩ := hentry
    rw [applyModulo_eq hhash]
    obtain ⟨gen, hgen⟩ := applyGen_eq (t := t)
      (x := { x with hashMetadata.mplbHashModulo := t.hashModulo d })
    rw [hgen]
    simp only [applyMplb, setGen, hdst, setDst, copyInner, hhdr, Datagram.headers]
    exact ⟨⟨rfl, d.etherType⟩, rfl, rfl, (if_pos hport).symm, by rw [if_pos hport],
      (decide_eq_true hport).symm, ⟨rfl, _, rfl⟩, rfl, rfl⟩
  · rw [if_neg hport] at hentry ⊢
    obtain ⟨dst, hdst⟩ := hentry
    simp only [applyMplbPort, hdst, setDstMplbPort, copyInner, hhdr, Datagram.headers]
    exact ⟨⟨rfl, d.etherType⟩, rfl, rfl, (if_neg hport).symm, by rw [if_neg hport],
      (decide_eq_false hport).symm, ⟨rfl, _, rfl⟩, rfl, rfl⟩

end Balance

end Pass

namespace Datagram

variable {d : Datagram}

theorem Emitted.rewrites {g h : Headers} {ttl : BitVec 8} (hg : d.Emitted g)
    (hh : Headers.Rewrites ttl g h) : d.Emitted h := by
  obtain ⟨e, c, c', he, rfl⟩ := hh
  obtain ⟨k, hk⟩ := hg.innerIpv4.2
  refine ⟨⟨hg.ethernet.1, he.trans hg.ethernet.2⟩, hg.ipv4Valid, hg.protocol, hg.ihl, hg.totalLen,
    hg.mplbIpoptValid, ⟨hg.innerIpv4.1, c', ?_⟩, hg.tcp⟩
  simp only [hk]

/-- A packet that differs from another one in front of its IPv4 header and in its checksum. -/
structure Same (d d' : Datagram) : Prop where
  ipv4 : ∃ c, d'.ipv4 = { d.ipv4 with hdrChecksum := c }
  tcp : d'.tcp = d.tcp
  payload : d'.payload = d.payload

theorem Same.reaches {d' : Datagram} (hs : d.Same d') {t : Tables} (hr : t.Reaches d) :
    t.Reaches d' := by
  obtain ⟨⟨c, hip⟩, htcp, -⟩ := hs
  refine ⟨?_, ?_, ?_⟩
  · rw [hip]
    exact hr.recirc
  · rw [hip]
    exact hr.ttl
  · rw [Tables.hashModulo, hip, htcp]
    exact hr.entry

theorem Same.emitted {d' : Datagram} (hs : d.Same d') {h : Headers} (he : d'.Emitted h) :
    d.Emitted h := by
  obtain ⟨⟨c, hip⟩, htcp, -⟩ := hs
  obtain ⟨heth, hv, hprotocol, hihl, hlen, hopt, hinner, ht⟩ := he
  rw [htcp] at hihl hlen hopt ht
  rw [hip] at hlen hinner
  exact ⟨heth, hv, hprotocol, hihl, hlen, hopt, hinner, ht⟩

/-- The first pass sends a packet like the one that came. -/
theorem exists_same {stale g : Headers}
    (h : Headers.Rewrites d.ipv4.ttl (d.headers stale) g) :
    ∃ d', d.Same d' ∧ deparse g d.payload = d'.bits := by
  obtain ⟨e, c, c', he, rfl⟩ := h
  exact ⟨⟨e, { d.ipv4 with hdrChecksum := c }, d.tcp, d.payload, he.trans d.etherType, d.ihl,
    d.protocol⟩, ⟨⟨c, rfl⟩, rfl, rfl⟩, rfl⟩

end Datagram

section Receive

variable {t : Tables} {d : Datagram} {stale staleRecirc h : Headers} {port : BitVec 9}
  {payload : List Bool}

/-- The first pass takes the hash of the flow and recirculates. -/
theorem Pass.pipeline_first {x y : Pass} (hhdr : x.hdr = d.headers stale)
    (hmod : x.hashMetadata.mplbHashModulo = 0#32)
    (htype : x.standardMetadata.instanceType = 0#32) (hr : t.Reaches d)
    (hy : x.pipeline t = some y) :
    Headers.Rewrites d.ipv4.ttl (d.headers stale) y.hdr ∧
      y.hashMetadata = ⟨crc32 (bits d.ipv4.srcAddr ++ bits d.tcp.srcPort), 0#32⟩ ∧
      y.recirculated = true := by
  have hingress : x.ingress t = x.recirculate := by
    rw [Pass.ingress, if_pos htype, Pass.applyRecirc, hhdr]
    exact if_pos hr.recirc
  obtain ⟨hrw, hhash, hrec⟩ := Pass.pipeline_eq_some t x hy
  rw [hingress] at hrw hhash hrec
  simp only [Pass.recirculate, hhdr, hmod] at hrw hhash hrec
  exact ⟨hrw, hhash, hrec⟩

/-- The second pass. -/
theorem Pass.pipeline_emitted {x y : Pass} (hhdr : x.hdr = d.headers stale)
    (hhash : x.hashMetadata = ⟨crc32 (bits d.ipv4.srcAddr ++ bits d.tcp.srcPort), 0#32⟩)
    (htype : x.standardMetadata.instanceType = recirculatedType) (hr : t.Reaches d)
    (hy : x.pipeline t = some y) : d.Emitted y.hdr := by
  have hingress : x.ingress t = ((x.balance t).applyIpv4Lpm t).applyForward t := by
    have hvalid : x.hdr.ipv4Valid ∧ 0#8 < x.hdr.ipv4.ttl := by
      rw [hhdr]
      exact ⟨rfl, hr.ttl⟩
    rw [Pass.ingress, if_neg (by rw [htype]; decide), if_pos hvalid]
  obtain ⟨ttl, hlpm⟩ := Pass.applyIpv4Lpm_hdr t (x.balance t)
  have hrest := (Pass.pipeline_eq_some t x hy).1
  rw [hingress] at hrest
  exact (((Pass.balance_emitted hhdr hhash hr).rewrites hlpm).rewrites
    (Pass.applyForward_hdr t _)).rewrites hrest

theorem Tables.receive_emitted (hr : t.Reaches d)
    (hl : t.receive stale staleRecirc port d.bits = some (h, payload)) :
    d.Emitted h ∧ payload = d.payload := by
  unfold receive at hl
  rw [d.parse_bits] at hl
  obtain ⟨x, hx, hl⟩ := Option.bind_eq_some_iff.mp hl
  obtain ⟨hhdr, hhash, hrec⟩ := Pass.pipeline_first rfl rfl rfl hr hx
  rw [if_pos hrec] at hl
  obtain ⟨d', hsame, hbits⟩ := Datagram.exists_same hhdr
  rw [hbits, d'.parse_bits, hhash] at hl
  obtain ⟨y, hy, hl⟩ := Option.map_eq_some_iff.mp hl
  obtain ⟨rfl, rfl⟩ := Prod.mk.inj hl
  refine ⟨hsame.emitted (Pass.pipeline_emitted rfl ?_ rfl (hsame.reaches hr) hy), hsame.payload⟩
  obtain ⟨⟨c, hip⟩, htcp, -⟩ := hsame
  rw [hip, htcp]

end Receive

section Reparse

variable {d : Datagram} {stale h : Headers}

/-- Which bits the parser takes for the two given headers. -/
theorem parseInnerIp_iff (hinner : h.innerIpv4Valid = false) (htcp : h.tcpValid = false) {i : Ipv4}
    {x : Tcp} {l : List Bool} :
    (((parseInnerIp h l).1.innerIpv4Valid = true ∧ (parseInnerIp h l).1.innerIpv4 = i) ∧
      (parseInnerIp h l).1.tcpValid = true ∧ (parseInnerIp h l).1.tcp = x) ↔
        ∃ rest, l = i.bits ++ (x.bits ++ rest) := by
  constructor
  · cases hi : Ipv4.extract l with
    | none => simp [parseInnerIp, hi, hinner]
    | some p =>
      obtain ⟨i', l'⟩ := p
      cases ht : Tcp.extract l' with
      | none => simp [parseInnerIp, parseTcp, hi, ht, htcp]
      | some q =>
        obtain ⟨x', rest⟩ := q
        simp only [parseInnerIp, parseTcp, hi, ht]
        rintro ⟨⟨-, rfl⟩, -, rfl⟩
        exact ⟨rest, by rw [Ipv4.extract_eq_some hi, Tcp.extract_eq_some ht]⟩
  · rintro ⟨rest, rfl⟩
    simp only [parseInnerIp, Ipv4.extract_bits, parseTcp, Tcp.extract_bits, and_self]

/-- The first 16 bytes of an IPv4 header pass for an option. -/
theorem exists_mplbIpopt (i : Ipv4) : ∃ m : MplbIpopt, i.bits = m.bits ++ bits i.dstAddr := by
  obtain ⟨m, hm⟩ := MplbIpopt.exists_bits (l := bits i.version ++ (bits i.ihl ++ (bits i.diffserv ++
    (bits i.totalLen ++ (bits i.identification ++ (bits i.flags ++ (bits i.fragOffset ++
      (bits i.ttl ++ (bits i.protocol ++ (bits i.hdrChecksum ++ bits i.srcAddr)))))))))) (by simp)
  refine ⟨m, ?_⟩
  rw [hm]
  simp only [Ipv4.bits, List.append_assoc]

/-- An outer header with protocol 4 is followed by an option and the inner header. -/
theorem exists_parseInnerIp (stale : Headers) {e : Ethernet} {ip : Ipv4}
    (he : e.etherType = 0x800#16) (hp : ip.protocol = 4#8) (m : MplbIpopt) (l : List Bool) :
    ∃ g : Headers, g.innerIpv4Valid = false ∧ g.tcpValid = false ∧
      parse stale (e.bits ++ (ip.bits ++ (m.bits ++ l))) = parseInnerIp g l := by
  simp only [parse, parseEthernet, Ethernet.extract_bits, he, if_true, parseIpv4, Ipv4.extract_bits,
    hp, parseMplbIpopt, MplbIpopt.extract_bits]
  exact ⟨_, rfl, rfl, rfl⟩

/-- Without an option of its own the packet is parsed 16 bytes off. -/
theorem Datagram.Emitted.reparse_iff (he : d.Emitted h) (hport : ¬d.tcp.dstPort < 1024#16) :
    (((parse stale (deparse h d.payload)).1.innerIpv4Valid = true ∧
        ∃ c, (parse stale (deparse h d.payload)).1.innerIpv4 = { d.ipv4 with hdrChecksum := c }) ∧
      (parse stale (deparse h d.payload)).1.tcpValid = true ∧
        (parse stale (deparse h d.payload)).1.tcp = d.tcp) ↔ d.Repeats := by
  obtain ⟨k, hk⟩ := he.innerIpv4.2
  obtain ⟨m, hm⟩ := exists_mplbIpopt h.innerIpv4
  have hopt : h.mplbIpoptValid = false := he.mplbIpoptValid.trans (decide_eq_false hport)
  have hdst : h.innerIpv4.dstAddr = d.ipv4.dstAddr := by rw [hk]
  have hbits : deparse h d.payload = h.ethernet.bits ++ (h.ipv4.bits ++
      (m.bits ++ (Lib.bits d.ipv4.dstAddr ++ (d.tcp.bits ++ d.payload)))) := by
    simp only [deparse, ipBits, outerBits, he.ethernet.1, he.ipv4Valid, hopt, he.innerIpv4.1, he.tcp.1,
      he.tcp.2, hm, hdst, if_true, Bool.false_eq_true, if_false, List.append_nil, List.append_assoc]
  obtain ⟨g, hinner, htcp, hparse⟩ := exists_parseInnerIp stale he.ethernet.2 he.protocol m
    (Lib.bits d.ipv4.dstAddr ++ (d.tcp.bits ++ d.payload))
  rw [hbits, hparse, Repeats]
  constructor
  · rintro ⟨⟨hi, c, hc⟩, ht⟩
    exact ⟨c, (parseInnerIp_iff hinner htcp).mp ⟨⟨hi, hc⟩, ht⟩⟩
  · rintro ⟨c, hrest⟩
    obtain ⟨⟨hi, hc⟩, ht⟩ := (parseInnerIp_iff hinner htcp).mpr hrest
    exact ⟨⟨hi, c, hc⟩, ht⟩

/-- The option has four words and the length of the header counts three. -/
theorem Datagram.Emitted.ihl_short (he : d.Emitted h) (hport : d.tcp.dstPort < 1024#16) :
    8 * (h.ipv4.ihl.toNat * 4) ≠ (outerBits h).length := by
  have hopt : h.mplbIpoptValid = true := he.mplbIpoptValid.trans (decide_eq_true hport)
  rw [he.ihl, if_pos hport, outerBits, he.ipv4Valid, hopt, if_pos rfl, if_pos rfl,
    List.length_append, Ipv4.bits_length, MplbIpopt.bits_length]
  decide

/-- The total length is right if it was, unless it overflows. -/
theorem Datagram.Emitted.totalLen_iff (he : d.Emitted h) (hport : ¬d.tcp.dstPort < 1024#16) :
    8 * h.ipv4.totalLen.toNat = (ipBits h d.payload).length ↔
      d.Complete ∧ d.ipv4.totalLen.toNat + 20 < 2 ^ 16 := by
  have hopt : h.mplbIpoptValid = false := he.mplbIpoptValid.trans (decide_eq_false hport)
  have hlt := d.ipv4.totalLen.isLt
  have hbits : (ipBits h d.payload).length = 160 + (160 + (d.tcp.bits.length + d.payload.length)) := by
    simp only [ipBits, outerBits, he.ipv4Valid, hopt, he.innerIpv4.1, he.tcp.1, he.tcp.2, if_true,
      Bool.false_eq_true, if_false, List.append_nil, List.length_append, Ipv4.bits_length]
  have hsum : h.ipv4.totalLen.toNat = (d.ipv4.totalLen.toNat + 20) % 2 ^ 16 := by
    rw [he.totalLen, if_neg hport, BitVec.toNat_add]
    rfl
  rw [hbits, hsum, Complete, List.length_append, List.length_append, Ipv4.bits_length]
  omega

end Reparse

/-- The packet for a server is well formed, and the parser finds the original headers in it,
exactly if it comes from `set_dst_mplb_port`, its length was right and does not overflow, and
it repeats its headers where the parser looks for them. -/
theorem encapsulates_iff_repeats (t : Tables) (d : Datagram) (hr : t.Reaches d)
    (stale staleRecirc staleAgain : Headers) (port : BitVec 9) (h : Headers) (payload : List Bool)
    (hl : t.receive stale staleRecirc port d.bits = some (h, payload)) :
    d.Encapsulates staleAgain h payload ↔
      1024#16 ≤ d.tcp.dstPort ∧ (d.Complete ∧ d.ipv4.totalLen.toNat + 20 < 2 ^ 16) ∧ d.Repeats := by
  obtain ⟨he, rfl⟩ := t.receive_emitted hr hl
  by_cases hport : d.tcp.dstPort < 1024#16
  · constructor
    · intro henc
      exact absurd henc.ihl (he.ihl_short hport)
    · rintro ⟨hge, -⟩
      exact absurd hport (BitVec.not_lt.mpr hge)
  · have hihl : 8 * (h.ipv4.ihl.toNat * 4) = (outerBits h).length := by
      have hopt : h.mplbIpoptValid = false := he.mplbIpoptValid.trans (decide_eq_false hport)
      rw [he.ihl, if_neg hport, outerBits, he.ipv4Valid, hopt, if_pos rfl, if_neg Bool.false_ne_true,
        List.append_nil, Ipv4.bits_length]
      decide
    constructor
    · intro henc
      exact ⟨BitVec.not_lt.mp hport, (he.totalLen_iff hport).mp henc.totalLen,
        (he.reparse_iff hport).mp ⟨henc.innerIpv4, henc.tcp⟩⟩
    · rintro ⟨-, hlt, hrep⟩
      obtain ⟨hinner, htcp⟩ := (he.reparse_iff hport).mpr hrep
      exact ⟨hihl, (he.totalLen_iff hport).mpr hlt, hinner, htcp⟩

/-- Every flow goes to the same server, for both kinds of ports. -/
def labTables : Tables where
  recirc _ := true
  modulo _ := false
  gen _ := none
  mplb _ := some (.setDst 0x0a000002#32 0x0a000003#32 1#32)
  mplbPort _ := some (.setDstMplbPort 0x0a000002#32)
  ipv4Lpm _ := some (.setNhop 0x0a000001#32 2#9)
  forward _ := some (.setMac 2#48)
  sendFrame _ := none

theorem labTables_reaches (d : Datagram) (h : 0#8 < d.ipv4.ttl) : labTables.Reaches d := by
  refine ⟨rfl, h, ?_⟩
  split_ifs
  · exact ⟨_, _, _, rfl⟩
  · exact ⟨_, rfl⟩

/-- The destination address spells the first four bytes of the packet, and so on. -/
def labRepeating : Datagram where
  ethernet := ⟨2#48, 1#48, 0x800#16⟩
  ipv4 := ⟨4#4, 5#4, 0#8, 56#16, 7#16, 2#3, 0#13, 64#8, 6#8, 0#16, 0x0a000009#32, 0x45000038#32⟩
  tcp := ⟨7#16, 0x4000#16, 0x40060000#32, 0x0a000009#32, 4#4, 20#6, 0#6, 56#16, 7#16, 0x4000#16⟩
  payload := bits 0x40060000#32 ++ (bits 0x0a000009#32 ++ (bits 0x45000038#32 ++ bits 0x00074000#32))
  etherType := rfl
  ihl := rfl
  protocol := rfl

theorem encapsulates_labRepeating :
    ∃ h payload, labTables.receive default default 1#9 labRepeating.bits = some (h, payload) ∧
      labRepeating.Encapsulates default h payload := by
  have hsome : (labTables.receive default default 1#9 labRepeating.bits).isSome := by decide +kernel
  obtain ⟨⟨h, payload⟩, hl⟩ := Option.isSome_iff_exists.mp hsome
  refine ⟨h, payload, hl, (encapsulates_iff_repeats labTables labRepeating
    (labTables_reaches _ (by decide)) _ _ default _ h payload hl).mpr ⟨by decide, ⟨?_, by decide⟩, ?_⟩⟩
  · simp [Datagram.Complete, labRepeating]
  · exact ⟨0#16, [], by decide +kernel⟩

/-- A segment without data. -/
def labSegment (dstPort : BitVec 16) : Datagram where
  ethernet := ⟨2#48, 1#48, 0x800#16⟩
  ipv4 := ⟨4#4, 5#4, 0#8, 40#16, 7#16, 2#3, 0#13, 64#8, 6#8, 0#16, 0x0a000009#32, 0x0a000064#32⟩
  tcp := ⟨5000#16, dstPort, 0#32, 0#32, 5#4, 0#6, 2#6, 1024#16, 0#16, 0#16⟩
  payload := []
  etherType := rfl
  ihl := rfl
  protocol := rfl

theorem Datagram.not_repeats {d : Datagram} (h : d.payload.length < 128) : ¬d.Repeats := by
  rintro ⟨c, rest, heq⟩
  have hlen := congrArg List.length heq
  simp only [List.length_append, Lib.bits_length, Ipv4.bits_length, Tcp.bits_length] at hlen
  omega

/-- A packet for a port on either side: one fails by the length of its header, the other one
is not parsed as it was built. -/
theorem encapsulation_not_wellFormed :
    (labTables.Reaches (labSegment 80#16) ∧ ∃ h,
        labTables.receive default default 1#9 (labSegment 80#16).bits = some (h, []) ∧
          ¬(labSegment 80#16).Encapsulates default h []) ∧
      labTables.Reaches (labSegment 8080#16) ∧ ∃ h,
        labTables.receive default default 1#9 (labSegment 8080#16).bits = some (h, []) ∧
          ¬(labSegment 8080#16).Encapsulates default h [] := by
  have hreach (dstPort : BitVec 16) : labTables.Reaches (labSegment dstPort) :=
    labTables_reaches _ (show 0#8 < 64#8 by decide)
  constructor
  · have hsome : (labTables.receive default default 1#9 (labSegment 80#16).bits).isSome := by
      decide +kernel
    obtain ⟨⟨h, payload⟩, hl⟩ := Option.isSome_iff_exists.mp hsome
    obtain ⟨he, rfl⟩ := Tables.receive_emitted (hreach _) hl
    exact ⟨hreach _, h, hl, fun henc => he.ihl_short (by decide) henc.ihl⟩
  · have hsome : (labTables.receive default default 1#9 (labSegment 8080#16).bits).isSome := by
      decide +kernel
    obtain ⟨⟨h, payload⟩, hl⟩ := Option.isSome_iff_exists.mp hsome
    obtain ⟨he, rfl⟩ := Tables.receive_emitted (hreach _) hl
    refine ⟨hreach _, h, hl, fun henc => ?_⟩
    have hrep := (he.reparse_iff (by decide)).mp ⟨henc.innerIpv4, henc.tcp⟩
    exact Datagram.not_repeats (d := labSegment 8080#16) (by decide) hrep

end P4Survey.Beamer
