import P4Survey.NetCache.HeavyHitter

/-! # Packets that are not NetCache packets

The controls test the operation of the NetCache header but not whether there is
one. A packet without it is taken for a read of key zero: it is counted, and after
a while reported, unless key zero is in the cache, and it gets an answer if the
entry of key zero is valid.
-/

namespace P4Survey.NetCache
open Lib

/-- No header of NetCache was extracted. -/
structure Headers.IsForeign (h : Headers) : Prop where
  ncHdrValid : h.ncHdrValid = false
  ncHdr : h.ncHdr = default
  ncLoadValid : h.ncLoadValid = false
  ncValueValid : ∀ i, h.ncValueValid i = false

section Parser

variable {h : Headers} {l : List Bool}

theorem parseNcValues_ncHdrValid (is : List (Fin 8)) (h : Headers) (l : List Bool) :
    (parseNcValues is h l).1.ncHdrValid = h.ncHdrValid := by
  induction is generalizing h l with
  | nil => rfl
  | cons i is ih =>
    rw [parseNcValues]
    cases NcValue.extract l with
    | none => rfl
    | some x => exact ih _ _

theorem parseNcLoad_ncHdrValid (h : Headers) (l : List Bool) :
    (parseNcLoad h l).1.ncHdrValid = h.ncHdrValid := by
  rw [parseNcLoad]
  cases NcLoad.extract l <;> rfl

theorem parseNcHdr_isForeign (hf : h.IsForeign) (hv : (parseNcHdr h l).1.ncHdrValid = false) :
    (parseNcHdr h l).1.IsForeign := by
  rw [parseNcHdr] at hv ⊢
  cases hx : NcHdr.extract l with
  | none => exact hf
  | some x =>
    rw [hx] at hv
    dsimp only at hv
    split_ifs at hv
    · rw [parseValue, parseNcValues_ncHdrValid] at hv
      cases hv
    · rw [parseNcLoad_ncHdrValid] at hv
      cases hv

theorem parseTcp_isForeign (hf : h.IsForeign) : (parseTcp h l).1.IsForeign := by
  rw [parseTcp]
  cases Tcp.extract l with
  | none => exact hf
  | some x => exact ⟨hf.ncHdrValid, hf.ncHdr, hf.ncLoadValid, hf.ncValueValid⟩

theorem parseUdp_isForeign (hf : h.IsForeign) (hv : (parseUdp h l).1.ncHdrValid = false) :
    (parseUdp h l).1.IsForeign := by
  rw [parseUdp] at hv ⊢
  cases hx : Udp.extract l with
  | none => exact hf
  | some x =>
    have hu : { h with udpValid := true, udp := x.1 }.IsForeign :=
      ⟨hf.ncHdrValid, hf.ncHdr, hf.ncLoadValid, hf.ncValueValid⟩
    rw [hx] at hv
    dsimp only at hv ⊢
    split_ifs at hv ⊢
    · exact parseNcHdr_isForeign hu hv
    · exact hu

theorem parseIpv4_isForeign (hf : h.IsForeign) (hv : (parseIpv4 h l).1.ncHdrValid = false) :
    (parseIpv4 h l).1.IsForeign := by
  rw [parseIpv4] at hv ⊢
  cases hx : Ipv4.extract l with
  | none => exact hf
  | some x =>
    have hi : { h with ipv4Valid := true, ipv4 := x.1 }.IsForeign :=
      ⟨hf.ncHdrValid, hf.ncHdr, hf.ncLoadValid, hf.ncValueValid⟩
    rw [hx] at hv
    dsimp only at hv ⊢
    split_ifs at hv ⊢
    · exact parseTcp_isForeign hi
    · exact parseUdp_isForeign hi hv
    · exact hi

theorem parse_isForeign {x : List Bool} (hv : (parse x).1.ncHdrValid = false) :
    (parse x).1.IsForeign := by
  have hd : (default : Headers).IsForeign := ⟨rfl, rfl, rfl, fun _ => rfl⟩
  rw [parse, parseEthernet] at hv ⊢
  cases hx : Ethernet.extract x with
  | none => exact hd
  | some y =>
    have he : { (default : Headers) with ethernetValid := true, ethernet := y.1 }.IsForeign :=
      ⟨rfl, rfl, rfl, fun _ => rfl⟩
    rw [hx] at hv
    dsimp only at hv ⊢
    split_ifs at hv ⊢
    · exact parseIpv4_isForeign he hv
    · exact he

end Parser

/-- What the deparser emits behind the Ethernet, IPv4 and UDP headers. -/
def Headers.behind (h : Headers) (payload : List Bool) : List Bool :=
  (if h.ncHdrValid then h.ncHdr.bits else []) ++
    ((if h.ncLoadValid then h.ncLoad.bits else []) ++
      (((List.finRange 8).flatMap fun i =>
          if h.ncValueValid i then (h.ncValue i).bits else []) ++
        ((if h.tcpValid then h.tcp.bits else []) ++ payload)))

/-- No register changes, the packet is not cloned, and what stands behind its link,
network and UDP headers stays. -/
structure Inert (t : Tables) (s : Switch) (x : List Bool) : Prop where
  regs : (hop t s x).regs = s
  clone : (egress t 0#32 (ingress t s (parse x).1)).clone = false
  behind : (computeChecksum (egress t 0#32 (ingress t s (parse x).1)).hdr (parse x).2).behind
    (parse x).2 = (parse x).1.behind (parse x).2

section Foreign

variable {t : Tables} {s : Switch} {h : Headers}

theorem behind_computeChecksum (h : Headers) (payload : List Bool) :
    (computeChecksum h payload).behind payload = h.behind payload := by
  obtain ⟨a, b, hsum⟩ := computeChecksum_eq h payload
  rw [hsum]
  rfl

/-- A packet without a NetCache header is a read of key zero. -/
theorem Headers.IsForeign.op_key (hf : h.IsForeign) : h.ncHdr.op = 0#8 ∧ h.ncHdr.key = 0#128 := by
  rw [hf.ncHdr]
  exact ⟨rfl, rfl⟩

theorem behind_replyHeaders (hf : h.IsForeign) (i : BitVec 14) (ttl : BitVec 8) (e : Ethernet)
    (payload : List Bool) :
    (replyHeaders s i h ttl e).behind payload ≠ h.behind payload := by
  intro hsame
  have hlen := congrArg List.length hsame
  have hvalues : ((List.finRange 8).flatMap fun j =>
      if (replyHeaders s i h ttl e).ncValueValid j
      then ((replyHeaders s i h ttl e).ncValue j).bits else []).length = 1024 :=
    valueBits_length fun j => (s.valueReg j).read i.toNat
  have hnone : ((List.finRange 8).flatMap fun j =>
      if h.ncValueValid j then (h.ncValue j).bits else []).length = 0 := by
    simp [hf.ncValueValid]
  have hrest : (replyHeaders s i h ttl e).ncHdrValid = h.ncHdrValid ∧
      (replyHeaders s i h ttl e).ncLoadValid = h.ncLoadValid ∧
      (replyHeaders s i h ttl e).ncLoad = h.ncLoad ∧
      (replyHeaders s i h ttl e).tcpValid = h.tcpValid ∧
      (replyHeaders s i h ttl e).tcp = h.tcp := ⟨rfl, rfl, rfl, rfl, rfl⟩
  rw [Headers.behind, Headers.behind, hrest.1, hrest.2.1, hrest.2.2.1, hrest.2.2.2.1,
    hrest.2.2.2.2, hf.ncHdrValid] at hlen
  simp only [List.length_append, hvalues, hnone] at hlen
  simp at hlen

/-- A read whose entry is in the cache but not valid leaves every register alone. -/
theorem read_invalid (hop : h.ncHdr.op = 0#8) {i : BitVec 14}
    (hi : t.checkCacheExist h.ncHdr.key = some i) (hv : s.cacheValidReg.read i.toNat ≠ 1#1) :
    (egress t 0#32 (ingress t s h)).regs = s ∧
      (egress t 0#32 (ingress t s h)).clone = false := by
  set p : Pipe := { Pipe.start s h with
    cacheExist := true, cacheIndex := i, cacheValid := s.cacheValidReg.read i.toNat }
  have hcache : (Pipe.start s h).processCache t = p := processCache_read_some hop hi
  have hhit : ¬ p.IsHit := fun hh => hv hh.2
  have hfill : ¬ (p.hdr.ncHdr.op = 9#8 ∧ p.cacheExist = true) := by
    rintro ⟨h9, -⟩
    have h0 : p.hdr.ncHdr.op = 0#8 := hop
    rw [h0] at h9
    exact absurd h9 (by decide)
  have hstages : p.processStages = p := by
    rw [Pipe.processStages_eq, Pipe.foldl_other hhit hfill]
  have hvalue : p.processValue = p := by
    rw [Pipe.processValue_of_not_hit (by rwa [hstages]), hstages]
  obtain ⟨ttl, hroute⟩ := Pipe.ipv4Route_eq t p
  have hegress (q : Pipe) (hq : q.cacheExist = true) : (egress t 0#32 q).regs = q.regs ∧
      (egress t 0#32 q).clone = q.clone := by
    obtain ⟨e, -, hmac⟩ := Pipe.ethernetSetMac_eq t q
    have hnot : ¬ (q.hdr.ncHdr.op = 0#8 ∧ q.cacheExist = false) := by
      simp [hq]
    rw [egress, if_neg hnot, hmac]
    exact ⟨rfl, rfl⟩
  rw [ingress, hcache, hvalue, hroute]
  exact hegress _ rfl

theorem counted_of_uncached {x : List Bool} (hu : t.IsUncachedRead (parse x).1) :
    (hop t s x).regs.hhLoadReg 0 ≠ s.hhLoadReg 0 := by
  have hload : (hop t s x).regs.hhLoadReg 0 = _ := (egress_of_uncached s hu).hhLoadReg 0
  intro hsame
  rw [hsame] at hload
  have hread := congrArg (Register.read · (t.detector.count 0 (parse x).1.ncHdr.key)) hload
  dsimp only [Pipe.start] at hread
  rw [Register.read_write_self _ (detector_count_lt t 0 _)] at hread
  exact absurd hread (by simp)

theorem inert_of_invalid {x : List Bool} (hf : (parse x).1.IsForeign) {i : BitVec 14}
    (hi : t.checkCacheExist 0#128 = some i) (hv : s.cacheValidReg.read i.toNat ≠ 1#1) :
    Inert t s x := by
  obtain ⟨hop, hkey⟩ := hf.op_key
  rw [← hkey] at hi
  obtain ⟨hregs, hclone⟩ := read_invalid (s := s) hop hi hv
  have hmiss : ¬ t.IsValid s (parse x).1.ncHdr.key := by
    rintro ⟨i', hi', hv'⟩
    rw [hi] at hi'
    cases hi'
    exact hv hv'
  obtain ⟨ttl, e, -, hhdr, -⟩ := read_miss t s hop hmiss
  refine ⟨hregs, hclone, ?_⟩
  rw [behind_computeChecksum, hhdr]
  rfl

/-- Traffic other than that of NetCache leaves the switch alone exactly if key zero has
an entry in the cache that is not valid. -/
theorem foreign_inert_iff (t : Tables) (s : Switch) {x : List Bool}
    (hx : (parse x).1.ncHdrValid = false) :
    Inert t s x ↔
      ∃ i, t.checkCacheExist 0#128 = some i ∧ s.cacheValidReg.read i.toNat ≠ 1#1 := by
  have hf := parse_isForeign hx
  obtain ⟨hop, hkey⟩ := hf.op_key
  constructor
  · intro hinert
    cases hi : t.checkCacheExist 0#128 with
    | none =>
      have hu : t.IsUncachedRead (parse x).1 := ⟨hop, by rw [hkey, hi]⟩
      exact absurd (by rw [hinert.regs]) (counted_of_uncached (s := s) hu)
    | some i =>
      refine ⟨i, rfl, fun hv => ?_⟩
      rw [← hkey] at hi
      obtain ⟨ttl, e, -, hhdr, -⟩ := read_hit t s hop hi hv
      have hbehind := hinert.behind
      rw [behind_computeChecksum, hhdr] at hbehind
      exact behind_replyHeaders hf i ttl e _ hbehind
  · rintro ⟨i, hi, hv⟩
    exact inert_of_invalid hf hi hv

end Foreign

section Lab

/-- An ARP request. -/
def labArp : List Bool :=
  (Ethernet.mk 0xffffffffffff#48 0xaabbccddee01#48 0x806#16).bits ++ bits 0x0001080006040001#64

theorem parse_labArp : (parse labArp).1.ncHdrValid = false := by decide +kernel

/-- The tables of the lab with an entry for key zero. -/
def zeroTables : Tables :=
  { labTables with checkCacheExist := fun key => if key = 0#128 then some 0#14 else none }

theorem foreign_inert_zero :
    (parse labArp).1.ncHdrValid = false ∧ Inert zeroTables emptySwitch labArp := by
  refine ⟨parse_labArp, (foreign_inert_iff zeroTables emptySwitch parse_labArp).mpr ?_⟩
  exact ⟨0#14, rfl, by decide⟩

/-- In the lab an ARP request counts as a read of key zero. -/
theorem labArp_counted :
    (parse labArp).1.ncHdrValid = false ∧
      (hop labTables emptySwitch labArp).regs.hhLoadReg 0 ≠ emptySwitch.hhLoadReg 0 := by
  obtain ⟨hop, hkey⟩ := (parse_isForeign parse_labArp).op_key
  exact ⟨parse_labArp, counted_of_uncached ⟨hop, by rw [hkey]; decide⟩⟩

end Lab

end P4Survey.NetCache
