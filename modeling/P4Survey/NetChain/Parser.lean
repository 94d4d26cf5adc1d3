import P4Survey.NetChain.Ingress

/-! # Parser and deparser of NetChain

Packets as bit strings. When the packet is too short for the next header, or
the overlay stack is full, the parser stops: the headers extracted so far are
valid and the rest of the packet is payload. The deparser writes the valid
headers in front of the payload.
-/

namespace P4Survey.NetChain
open Lib

/-- The capacity of the header stack `overlay`. -/
abbrev overlaySize : ℕ := 10

namespace NcHdr

def bits (h : NcHdr) : List Bool :=
  Lib.bits h.op ++ (Lib.bits h.sc ++ (Lib.bits h.seq ++ (Lib.bits h.key ++ (Lib.bits h.value ++
    Lib.bits h.vgroup))))

def extract : List Bool → Option (NcHdr × List Bool) :=
  take 8 fun op => take 8 fun sc => take 16 fun seq => take 128 fun key => take 128 fun value =>
    take 16 fun vgroup =>
    fun l => some (⟨op, sc, seq, key, value, vgroup⟩, l)

@[simp] theorem extract_bits (h : NcHdr) (rest : List Bool) :
    extract (h.bits ++ rest) = some (h, rest) := by
  simp only [extract, bits, List.append_assoc, take_bits_append]

end NcHdr

def parseNcHdr (h : Headers) (l : List Bool) : Headers × List Bool :=
  match NcHdr.extract l with
  | none => (h, l)
  | some (x, l) => ({ h with ncHdrValid := true, ncHdr := x }, l)

/-- One element of the stack after the other, up to the first that is zero. -/
def parseOverlay : ℕ → Headers → List Bool → Headers × List Bool
  | 0, h, l => (h, l)
  | room + 1, h, l =>
    match field 32 l with
    | none => (h, l)
    | some (swip, l) =>
      let h := { h with overlay := h.overlay ++ [swip] }
      if swip = 0#32 then parseNcHdr h l else parseOverlay room h l

def parseTcp (h : Headers) (l : List Bool) : Headers × List Bool :=
  match Tcp.extract l with
  | none => (h, l)
  | some (x, l) => ({ h with tcpValid := true, tcp := x }, l)

def parseUdp (h : Headers) (l : List Bool) : Headers × List Bool :=
  match Udp.extract l with
  | none => (h, l)
  | some (x, l) =>
    let h := { h with udpValid := true, udp := x }
    if x.dstPort = 8888#16 ∨ x.dstPort = 8889#16 then parseOverlay overlaySize h l else (h, l)

def parseIpv4 (h : Headers) (l : List Bool) : Headers × List Bool :=
  match Ipv4.extract l with
  | none => (h, l)
  | some (x, l) =>
    let h := { h with ipv4Valid := true, ipv4 := x }
    if x.protocol = 6#8 then parseTcp h l
    else if x.protocol = 17#8 then parseUdp h l
    else (h, l)

def parseEthernet (l : List Bool) : Headers × List Bool :=
  match Ethernet.extract l with
  | none => (default, l)
  | some (x, l) =>
    let h := { (default : Headers) with ethernetValid := true, ethernet := x }
    if x.etherType = 0x800#16 then parseIpv4 h l else (h, l)

/-- The headers of a packet and its payload. -/
def parse (l : List Bool) : Headers × List Bool := parseEthernet l

def overlayBits (l : List (BitVec 32)) : List Bool := l.flatMap fun x => bits x

def deparse (h : Headers) (payload : List Bool) : List Bool :=
  (if h.ethernetValid then h.ethernet.bits else []) ++
    ((if h.ipv4Valid then h.ipv4.bits else []) ++
      ((if h.udpValid then h.udp.bits else []) ++
        (overlayBits h.overlay ++
          ((if h.ncHdrValid then h.ncHdr.bits else []) ++
            ((if h.tcpValid then h.tcp.bits else []) ++ payload)))))

/-- The IPv4 checksum first, then the UDP checksum over the payload. -/
def computeChecksum (h : Headers) (payload : List Bool) : Headers :=
  let ip := h.ipv4
  let udp := h.udp
  { h with
    ipv4 := { ip with hdrChecksum := csum16 (bits ip.version ++ bits ip.ihl ++ bits ip.diffserv ++
      bits ip.totalLen ++ bits ip.identification ++ bits ip.flags ++ bits ip.fragOffset ++
      bits ip.ttl ++ bits ip.protocol ++ bits ip.srcAddr ++ bits ip.dstAddr) }
    udp := { udp with checksum := csum16 (bits ip.srcAddr ++ bits ip.dstAddr ++ bits 0#8 ++
      bits ip.protocol ++ bits udp.len ++ bits udp.srcPort ++ bits udp.dstPort ++ bits udp.len ++
      payload) } }

/-- What a switch makes of a packet: the headers it deparses and the payload behind
them, unless the packet is dropped. -/
def hop (t : Tables) (regs : Switch) (x : List Bool) : Option (Headers × List Bool) :=
  (emit t regs (parse x).1).map fun h => (computeChecksum h (parse x).2, (parse x).2)

/-- An overlay list as the parser recognises it. -/
def Terminated (l : List (BitVec 32)) : Prop :=
  ∃ hops : List (BitVec 32), l = hops ++ [0#32] ∧ (∀ x ∈ hops, x ≠ 0#32) ∧
    hops.length < overlaySize

/-- The headers of a NetChain packet, whatever its overlay list. -/
structure Framed (h : Headers) : Prop where
  ethernet : h.ethernetValid = true ∧ h.ethernet.etherType = 0x800#16
  ipv4 : h.ipv4Valid = true ∧ h.ipv4.protocol = 17#8
  udp : h.udpValid = true ∧ (h.udp.dstPort = 8888#16 ∨ h.udp.dstPort = 8889#16)
  tcp : h.tcpValid = false ∧ h.tcp = default
  ncHdr : h.ncHdrValid = true

theorem parseOverlay_bits (h : Headers) {hops : List (BitVec 32)} (hne : ∀ x ∈ hops, x ≠ 0#32)
    {room : ℕ} (hroom : hops.length < room) (rest : List Bool) :
    parseOverlay room h (overlayBits (hops ++ [0#32]) ++ rest) =
      parseNcHdr { h with overlay := h.overlay ++ (hops ++ [0#32]) } rest := by
  induction hops generalizing h room with
  | nil =>
    cases room with
    | zero => exact absurd hroom (Nat.not_lt_zero _)
    | succ room => simp [parseOverlay, overlayBits]
  | cons x hops ih =>
    cases room with
    | zero => exact absurd hroom (Nat.not_lt_zero _)
    | succ room =>
      have hx : x ≠ 0#32 := hne x List.mem_cons_self
      have hlen : hops.length < room := by simpa using hroom
      have ih' := ih { h with overlay := h.overlay ++ [x] }
        (fun y hy => hne y (List.mem_cons_of_mem _ hy)) hlen
      simp only [overlayBits, List.cons_append, List.flatMap_cons, List.append_assoc] at ih' ⊢
      rw [parseOverlay, field_bits_append]
      dsimp only
      rw [if_neg hx, ih']
      rfl

/-- Parsing undoes deparsing where the overlay list is terminated. -/
theorem parse_deparse {h : Headers} (hf : Framed h) (ho : Terminated h.overlay)
    (payload : List Bool) : parse (deparse h payload) = (h, payload) := by
  obtain ⟨⟨hev, het⟩, ⟨hiv, hip⟩, ⟨huv, hport⟩, ⟨htv, htcp⟩, hnv⟩ := hf
  obtain ⟨hops, hov, hne, hlen⟩ := ho
  have hproto : ¬ h.ipv4.protocol = 6#8 := by
    rw [hip]
    decide
  simp only [deparse, hev, hiv, huv, htv, hnv, if_true, Bool.false_eq_true, if_false,
    List.nil_append]
  rw [parse, parseEthernet, Ethernet.extract_bits]
  dsimp only
  rw [if_pos het, parseIpv4, Ipv4.extract_bits]
  dsimp only
  rw [if_neg hproto, if_pos hip, parseUdp, Udp.extract_bits]
  dsimp only
  rw [if_pos hport, hov, parseOverlay_bits _ hne hlen, parseNcHdr, NcHdr.extract_bits]
  dsimp only
  rcases h with ⟨ev, e, iv, ip, uv, u, tv, tcp, overlay, nv, nc⟩
  dsimp only at hev hiv huv htv htcp hov hnv
  subst ev iv uv tv tcp overlay nv
  rfl

theorem parseOverlay_ncHdr {h : Headers} (hnv : h.ncHdrValid = false)
    (hne : ∀ x ∈ h.overlay, x ≠ 0#32) {room : ℕ}
    (hroom : h.overlay.length + room ≤ overlaySize) {l : List Bool}
    (hv : (parseOverlay room h l).1.ncHdrValid = true) :
    Terminated (parseOverlay room h l).1.overlay := by
  induction room generalizing h l with
  | zero => simp [parseOverlay, hnv] at hv
  | succ room ih =>
    unfold parseOverlay at hv ⊢
    cases hf : field 32 l with
    | none => simp [hf, hnv] at hv
    | some p =>
      simp only [hf] at hv ⊢
      by_cases h0 : p.1 = 0#32
      · rw [if_pos h0] at hv ⊢
        have hover : (parseNcHdr { h with overlay := h.overlay ++ [p.1] } p.2).1.overlay =
            h.overlay ++ [p.1] := by
          unfold parseNcHdr
          split <;> rfl
        exact ⟨h.overlay, by rw [hover, h0], hne, by omega⟩
      · rw [if_neg h0] at hv ⊢
        apply ih (h := { h with overlay := h.overlay ++ [p.1] }) hnv ?_ ?_ hv
        · intro x hx
          rcases List.mem_append.mp hx with hx | hx
          · exact hne x hx
          · rw [List.mem_singleton.mp hx]
            exact h0
        · simp only [List.length_append, List.length_singleton]
          omega

theorem parseUdp_ncHdr {h : Headers} (hnv : h.ncHdrValid = false) (ho : h.overlay = [])
    {l : List Bool} (hv : (parseUdp h l).1.ncHdrValid = true) :
    Terminated (parseUdp h l).1.overlay := by
  unfold parseUdp at hv ⊢
  cases hx : Udp.extract l with
  | none => simp [hx, hnv] at hv
  | some p =>
    simp only [hx] at hv ⊢
    by_cases hport : p.1.dstPort = 8888#16 ∨ p.1.dstPort = 8889#16
    · rw [if_pos hport] at hv ⊢
      apply parseOverlay_ncHdr (h := { h with udpValid := true, udp := p.1 }) hnv ?_ ?_ hv
      · simp [ho]
      · simp [ho]
    · simp [hport, hnv] at hv

theorem parseTcp_ncHdr (h : Headers) (l : List Bool) :
    (parseTcp h l).1.ncHdrValid = h.ncHdrValid := by
  unfold parseTcp
  split <;> rfl

theorem parseIpv4_ncHdr {h : Headers} (hnv : h.ncHdrValid = false) (ho : h.overlay = [])
    {l : List Bool} (hv : (parseIpv4 h l).1.ncHdrValid = true) :
    Terminated (parseIpv4 h l).1.overlay := by
  unfold parseIpv4 at hv ⊢
  cases hx : Ipv4.extract l with
  | none => simp [hx, hnv] at hv
  | some p =>
    simp only [hx] at hv ⊢
    split_ifs at hv ⊢
    · simp [parseTcp_ncHdr, hnv] at hv
    · exact parseUdp_ncHdr (h := { h with ipv4Valid := true, ipv4 := p.1 }) hnv ho hv
    · simp [hnv] at hv

/-- The parser finds a NetChain header only behind a terminated overlay list. -/
theorem terminated_of_parse {l : List Bool} (hv : (parse l).1.ncHdrValid = true) :
    Terminated (parse l).1.overlay := by
  have hd : (default : Headers).ncHdrValid = false ∧ (default : Headers).overlay = [] := ⟨rfl, rfl⟩
  unfold parse parseEthernet at hv ⊢
  cases hx : Ethernet.extract l with
  | none => simp [hx, hd.1] at hv
  | some p =>
    simp only [hx] at hv ⊢
    split_ifs at hv ⊢
    · exact parseIpv4_ncHdr (h := { (default : Headers) with ethernetValid := true, ethernet := p.1 })
        hd.1 hd.2 hv
    · simp [hd.1] at hv

/-- Of a NetChain packet, exactly a terminated overlay list survives the wire. -/
theorem parse_deparse_iff {h : Headers} (hf : Framed h) (payload : List Bool) :
    parse (deparse h payload) = (h, payload) ↔ Terminated h.overlay := by
  constructor
  · intro he
    have hv : (parse (deparse h payload)).1.ncHdrValid = true := by
      rw [he]
      exact hf.ncHdr
    have ht := terminated_of_parse hv
    rwa [he] at ht
  · intro ho
    exact parse_deparse hf ho payload

end P4Survey.NetChain
