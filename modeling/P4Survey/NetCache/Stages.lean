import P4Survey.NetCache.Parser

/-! # What the stages do to a packet

A read of a valid entry leaves the eight stages with the values of its entry, an
update reply leaves its values in the registers of its entry, and any other packet
passes them as it is.
-/

namespace P4Survey.NetCache
open Lib

namespace Pipe

theorem checkCacheExist_some {t : Tables} {p : Pipe} {i : BitVec 14}
    (hi : t.checkCacheExist p.hdr.ncHdr.key = some i) :
    p.checkCacheExist t = { p with cacheExist := true, cacheIndex := i } := by
  rw [checkCacheExist, hi]

theorem checkCacheExist_none {t : Tables} {p : Pipe}
    (hi : t.checkCacheExist p.hdr.ncHdr.key = none) :
    p.checkCacheExist t = p := by
  rw [checkCacheExist, hi]

theorem processStages_eq (p : Pipe) :
    p.processStages = (List.finRange 8).foldl (fun p i => p.processStage i) p := by
  have hrange : List.finRange 8 = [0, 1, 2, 3, 4, 5, 6, 7] := by decide
  rw [hrange]
  simp only [processStages, processValue1, processValue2, processValue3, processValue4,
    processValue5, processValue6, processValue7, processValue8, List.foldl_cons, List.foldl_nil]

/-- The headers with the values of the stages in the list. -/
def answered (is : List (Fin 8)) (p : Pipe) : Headers :=
  { p.hdr with
    ipv4 := { p.hdr.ipv4 with
      totalLen := p.hdr.ipv4.totalLen + BitVec.ofNat 16 (16 * is.length) }
    udp := { p.hdr.udp with len := p.hdr.udp.len + BitVec.ofNat 16 (16 * is.length) }
    ncValueValid := fun i => if i ∈ is then true else p.hdr.ncValueValid i
    ncValue := fun i =>
      if i ∈ is then (p.regs.valueReg i).read p.cacheIndex.toNat else p.hdr.ncValue i }

/-- The registers with the values of the packet for the stages in the list. -/
def filled (is : List (Fin 8)) (p : Pipe) : Fin 8 → ValueRegs := fun i =>
  if i ∈ is then (p.regs.valueReg i).write p.cacheIndex.toNat (p.hdr.ncValue i)
  else p.regs.valueReg i

theorem len_succ (x : BitVec 16) (n : ℕ) :
    x + 16#16 + BitVec.ofNat 16 (16 * n) = x + BitVec.ofNat 16 (16 * (n + 1)) := by
  rw [BitVec.add_assoc, ← BitVec.ofNat_add, Nat.mul_succ, Nat.add_comm]

theorem foldl_hit {is : List (Fin 8)} {p : Pipe} (hp : p.IsHit) :
    is.foldl (fun p i => p.processStage i) p = { p with hdr := p.answered is } := by
  induction is generalizing p with
  | nil =>
    have hnil : p.answered [] = p.hdr := by
      simp [answered]
    rw [List.foldl_nil, hnil]
  | cons i is ih =>
    have hstage : p.processStage i = (p.addValueHeaderAct i).readValueAct i := if_pos hp
    have hp' : ((p.addValueHeaderAct i).readValueAct i).IsHit := hp
    have hanswered : ((p.addValueHeaderAct i).readValueAct i).answered is =
        p.answered (i :: is) := by
      simp only [answered, readValueAct, addValueHeaderAct, len_succ, List.length_cons]
      congr 1
      · ext j
        by_cases hj : j = i <;> simp [hj]
      · ext1 j
        by_cases hj : j = i
        · subst hj
          simp
        · simp [hj]
    rw [List.foldl_cons, hstage, ih hp', hanswered]
    rfl

theorem foldl_fill {is : List (Fin 8)} (hn : is.Nodup) {p : Pipe} (hop : p.hdr.ncHdr.op = 9#8)
    (he : p.cacheExist = true) :
    (is.foldl (fun p i => p.processStage i) p).regs = { p.regs with valueReg := p.filled is } ∧
      (is.foldl (fun p i => p.processStage i) p).hdr.ncHdr = p.hdr.ncHdr := by
  induction is generalizing p with
  | nil => exact ⟨rfl, rfl⟩
  | cons i is ih =>
    obtain ⟨hi, hn⟩ := List.nodup_cons.mp hn
    have hhit : ¬ p.IsHit := by
      rintro ⟨h0, -⟩
      rw [hop] at h0
      exact absurd h0 (by decide)
    have hstage : p.processStage i = (p.writeValueAct i).removeValueHeaderAct i := by
      rw [processStage, if_neg hhit, if_pos ⟨hop, he⟩]
    rw [List.foldl_cons, hstage]
    obtain ⟨hregs, hhdr⟩ := @ih hn ((p.writeValueAct i).removeValueHeaderAct i) hop he
    have hfilled : ((p.writeValueAct i).removeValueHeaderAct i).filled is =
        p.filled (i :: is) := by
      ext1 j
      simp only [filled, removeValueHeaderAct, writeValueAct, List.mem_cons]
      by_cases hj : j = i
      · subst hj
        simp [hi]
      · simp [hj]
    refine ⟨?_, hhdr⟩
    rw [hregs, hfilled]
    rfl

theorem foldl_other {is : List (Fin 8)} {p : Pipe} (hhit : ¬ p.IsHit)
    (hfill : ¬ (p.hdr.ncHdr.op = 9#8 ∧ p.cacheExist = true)) :
    is.foldl (fun p i => p.processStage i) p = p := by
  induction is with
  | nil => rfl
  | cons i is ih =>
    have hstage : p.processStage i = p := by
      rw [processStage, if_neg hhit, if_neg hfill]
    rw [List.foldl_cons, hstage, ih]

theorem processValue_of_not_hit {p : Pipe} (hp : ¬ p.processStages.IsHit) :
    p.processValue = p.processStages := by
  have hreply (q : Pipe) (info : BitVec 32 × BitVec 32) (hq : ¬ q.IsHit) :
      (if q.IsHit then q.replyReadHitAfterAct info.1 info.2 else q) = q := if_neg hq
  rw [processValue]
  exact hreply _ _ hp

theorem ipv4Route_eq (t : Tables) (p : Pipe) :
    ∃ ttl, p.ipv4Route t = { p with
      egressSpec := (t.ipv4Route p.hdr.ipv4.dstAddr).getD p.egressSpec
      hdr := { p.hdr with ipv4 := { p.hdr.ipv4 with ttl := ttl } } } := by
  unfold ipv4Route
  cases t.ipv4Route p.hdr.ipv4.dstAddr with
  | none => exact ⟨p.hdr.ipv4.ttl, rfl⟩
  | some spec => exact ⟨p.hdr.ipv4.ttl + 255#8, rfl⟩

theorem ethernetSetMac_eq (t : Tables) (p : Pipe) :
    ∃ e : Ethernet, e.etherType = p.hdr.ethernet.etherType ∧
      p.ethernetSetMac t = { p with hdr := { p.hdr with ethernet := e } } := by
  unfold ethernetSetMac
  cases t.ethernetSetMac p.egressSpec with
  | none => exact ⟨p.hdr.ethernet, rfl, rfl⟩
  | some m => exact ⟨{ p.hdr.ethernet with srcAddr := m.1, dstAddr := m.2 }, rfl, rfl⟩

/-- The packet, its port and the cache are the same. -/
structure SameCache (p q : Pipe) : Prop where
  hdr : q.hdr = p.hdr
  egressSpec : q.egressSpec = p.egressSpec
  cacheValidReg : q.regs.cacheValidReg = p.regs.cacheValidReg
  valueReg : q.regs.valueReg = p.regs.valueReg

theorem SameCache.trans {p q r : Pipe} (h : SameCache p q) (h' : SameCache q r) : SameCache p r :=
  ⟨h'.hdr.trans h.hdr, h'.egressSpec.trans h.egressSpec, h'.cacheValidReg.trans h.cacheValidReg,
    h'.valueReg.trans h.valueReg⟩

theorem hhLoadCountAct_same (j : Fin 4) (hash : BitVec 128 → ℕ) (p : Pipe) :
    SameCache p (p.hhLoadCountAct j hash) := ⟨rfl, rfl, rfl, rfl⟩

theorem hhBfAct_same (j : Fin 3) (hash : BitVec 128 → ℕ) (p : Pipe) :
    SameCache p (p.hhBfAct j hash) := ⟨rfl, rfl, rfl, rfl⟩

theorem countMin_same (t : Tables) (p : Pipe) : SameCache p (p.countMin t) :=
  (((hhLoadCountAct_same 0 t.crc32 p).trans (hhLoadCountAct_same 1 t.csum16 _)).trans
    (hhLoadCountAct_same 2 t.crc16 _)).trans (hhLoadCountAct_same 3 t.crc32 _)

theorem bloomFilter_same (t : Tables) (p : Pipe) : SameCache p (p.bloomFilter t) :=
  ((hhBfAct_same 0 t.crc32 p).trans (hhBfAct_same 1 t.csum16 _)).trans (hhBfAct_same 2 t.crc16 _)

theorem cloneToControllerAct_same (p : Pipe) : SameCache p p.cloneToControllerAct :=
  ⟨rfl, rfl, rfl, rfl⟩

/-- Counting a packet leaves the packet and the cache alone. -/
theorem heavyHitter_same (t : Tables) (p : Pipe) : SameCache p (p.heavyHitter t 0#32) := by
  have hreport (q : Pipe) : SameCache q
      (if 128#32 < q.load 0 ∧ 128#32 < q.load 1 ∧ 128#32 < q.load 2 ∧ 128#32 < q.load 3 then
        (if (q.bloomFilter t).bf 0 = 0#1 ∨ (q.bloomFilter t).bf 1 = 0#1 ∨ (q.bloomFilter t).bf 2 = 0#1
          then (q.bloomFilter t).cloneToControllerAct else q.bloomFilter t)
      else q) := by
    split_ifs
    · exact (bloomFilter_same t q).trans (cloneToControllerAct_same _)
    · exact bloomFilter_same t q
    · exact ⟨rfl, rfl, rfl, rfl⟩
  rw [heavyHitter, if_pos rfl]
  exact (countMin_same t p).trans (hreport _)

end Pipe

theorem egress_eq (t : Tables) (p : Pipe) :
    ∃ e : Ethernet, e.etherType = p.hdr.ethernet.etherType ∧
      (egress t 0#32 p).hdr = { p.hdr with ethernet := e } ∧
      (egress t 0#32 p).egressSpec = p.egressSpec ∧
      (egress t 0#32 p).regs.cacheValidReg = p.regs.cacheValidReg ∧
      (egress t 0#32 p).regs.valueReg = p.regs.valueReg := by
  unfold egress
  split_ifs
  · obtain ⟨e, he, hmac⟩ := Pipe.ethernetSetMac_eq t (p.heavyHitter t 0#32)
    obtain ⟨hhdr, hspec, hvalid, hvalue⟩ := Pipe.heavyHitter_same t p
    rw [hhdr] at he
    refine ⟨e, he, ?_⟩
    rw [hmac]
    dsimp only
    rw [hhdr]
    exact ⟨rfl, hspec, hvalid, hvalue⟩
  · obtain ⟨e, he, hmac⟩ := Pipe.ethernetSetMac_eq t p
    exact ⟨e, he, by rw [hmac], by rw [hmac], by rw [hmac], by rw [hmac]⟩

/-- The entry of the key is in the cache and valid. -/
def Tables.IsValid (t : Tables) (regs : Switch) (key : BitVec 128) : Prop :=
  ∃ i, t.checkCacheExist key = some i ∧ regs.cacheValidReg.read i.toNat = 1#1

section Read

variable {t : Tables} {regs : Switch} {h : Headers}

theorem processCache_read_some (hop : h.ncHdr.op = 0#8) {i : BitVec 14}
    (hi : t.checkCacheExist h.ncHdr.key = some i) :
    (Pipe.start regs h).processCache t = { Pipe.start regs h with
      cacheExist := true, cacheIndex := i, cacheValid := regs.cacheValidReg.read i.toNat } := by
  have hi' : t.checkCacheExist (Pipe.start regs h).hdr.ncHdr.key = some i := hi
  rw [Pipe.processCache, Pipe.checkCacheExist_some hi']
  dsimp only
  rw [if_pos rfl, if_pos (show (Pipe.start regs h).hdr.ncHdr.op = 0#8 from hop)]
  rfl

theorem processCache_none (hi : t.checkCacheExist h.ncHdr.key = none) :
    (Pipe.start regs h).processCache t = Pipe.start regs h := by
  have hi' : t.checkCacheExist (Pipe.start regs h).hdr.ncHdr.key = none := hi
  rw [Pipe.processCache, Pipe.checkCacheExist_none hi']
  rfl

/-- The headers of the answer to a read of a valid entry at index `i`. -/
def replyHeaders (regs : Switch) (i : BitVec 14) (h : Headers) (ttl : BitVec 8) (e : Ethernet) :
    Headers :=
  { h with
    ethernet := e
    ipv4 := { h.ipv4 with
      totalLen := h.ipv4.totalLen + 128#16
      ttl := ttl
      srcAddr := h.ipv4.dstAddr
      dstAddr := h.ipv4.srcAddr }
    udp := { h.udp with len := h.udp.len + 128#16 }
    ncHdr := { h.ncHdr with op := 1#8 }
    ncValueValid := fun _ => true
    ncValue := fun j => (regs.valueReg j).read i.toNat }

theorem read_hit (t : Tables) (regs : Switch) (hop : h.ncHdr.op = 0#8) {i : BitVec 14}
    (hi : t.checkCacheExist h.ncHdr.key = some i)
    (hvalid : regs.cacheValidReg.read i.toNat = 1#1) :
    ∃ ttl e, e.etherType = h.ethernet.etherType ∧
      (egress t 0#32 (ingress t regs h)).hdr = replyHeaders regs i h ttl e ∧
      (egress t 0#32 (ingress t regs h)).egressSpec =
        (t.ipv4Route h.ipv4.srcAddr).getD 0#9 := by
  set p : Pipe := { Pipe.start regs h with
    cacheExist := true, cacheIndex := i, cacheValid := regs.cacheValidReg.read i.toNat }
  have hcache : (Pipe.start regs h).processCache t = p := processCache_read_some hop hi
  have hhit : p.IsHit := ⟨hop, hvalid⟩
  have hstages : p.processStages = { p with hdr := p.answered (List.finRange 8) } := by
    rw [Pipe.processStages_eq, Pipe.foldl_hit hhit]
  have hhit' : p.processStages.IsHit := by
    rw [hstages]
    exact hhit
  have hvalue : p.processValue =
      p.processStages.replyReadHitAfterAct h.ipv4.srcAddr h.ipv4.dstAddr := by
    rw [Pipe.processValue, if_pos hhit', if_pos hhit]
    rfl
  obtain ⟨ttl, hroute⟩ := Pipe.ipv4Route_eq t p.processValue
  have hingress : ingress t regs h = p.processValue.ipv4Route t := by
    rw [ingress, hcache]
  obtain ⟨e, he, hhdr, hspec, -, -⟩ := egress_eq t (ingress t regs h)
  rw [hingress, hroute, hvalue, hstages] at he hhdr hspec
  rw [hingress, hroute, hvalue, hstages]
  refine ⟨ttl, e, he, hhdr.trans ?_, hspec⟩
  simp [replyHeaders, Pipe.replyReadHitAfterAct, Pipe.answered, p, Pipe.start]

theorem read_miss (t : Tables) (regs : Switch) (hop : h.ncHdr.op = 0#8)
    (hmiss : ¬ t.IsValid regs h.ncHdr.key) :
    ∃ ttl e, e.etherType = h.ethernet.etherType ∧
      (egress t 0#32 (ingress t regs h)).hdr =
        { h with ethernet := e, ipv4 := { h.ipv4 with ttl := ttl } } ∧
      (egress t 0#32 (ingress t regs h)).egressSpec =
        (t.ipv4Route h.ipv4.dstAddr).getD 0#9 := by
  obtain ⟨p, hcache, hhdr, hspec, hvalid⟩ : ∃ p : Pipe, (Pipe.start regs h).processCache t = p ∧
      p.hdr = h ∧ p.egressSpec = 0#9 ∧ p.cacheValid ≠ 1#1 := by
    cases hi : t.checkCacheExist h.ncHdr.key with
    | none => exact ⟨_, processCache_none hi, rfl, rfl, by simp [Pipe.start]⟩
    | some i =>
      exact ⟨_, processCache_read_some hop hi, rfl, rfl, fun hv => hmiss ⟨i, hi, hv⟩⟩
  have hhit : ¬ p.IsHit := fun hh => hvalid hh.2
  have hfill : ¬ (p.hdr.ncHdr.op = 9#8 ∧ p.cacheExist = true) := by
    rintro ⟨h9, -⟩
    rw [hhdr, hop] at h9
    exact absurd h9 (by decide)
  have hstages : p.processStages = p := by
    rw [Pipe.processStages_eq, Pipe.foldl_other hhit hfill]
  have hvalue : p.processValue = p := by
    rw [Pipe.processValue, hstages, if_neg hhit]
  obtain ⟨ttl, hroute⟩ := Pipe.ipv4Route_eq t p
  have hingress : ingress t regs h = p.ipv4Route t := by
    rw [ingress, hcache, hvalue]
  obtain ⟨e, he, hhdr', hspec', -, -⟩ := egress_eq t (ingress t regs h)
  rw [hingress, hroute, hhdr] at he hhdr' hspec'
  rw [hingress, hroute, hhdr]
  exact ⟨ttl, e, he, hhdr', hspec'.trans (by rw [hspec])⟩

end Read

section Registers

variable {t : Tables} {regs : Switch} {h : Headers}

namespace Pipe

variable {p : Pipe} {i : BitVec 14}

theorem processCache_fill (hop : p.hdr.ncHdr.op = 9#8)
    (hi : t.checkCacheExist p.hdr.ncHdr.key = some i) :
    p.processCache t = { p with cacheExist := true, cacheIndex := i }.setCacheValidAct := by
  have h0 : ¬ p.hdr.ncHdr.op = 0#8 := by
    rw [hop]
    decide
  rw [processCache, checkCacheExist_some hi]
  dsimp only
  rw [if_pos rfl, if_neg h0, if_pos hop]

theorem processCache_regs (hop : p.hdr.ncHdr.op ≠ 9#8) : (p.processCache t).regs = p.regs := by
  cases hi : t.checkCacheExist p.hdr.ncHdr.key with
  | none =>
    rw [processCache, checkCacheExist_none hi, if_neg hop]
    split_ifs <;> rfl
  | some i =>
    rw [processCache, checkCacheExist_some hi]
    dsimp only
    rw [if_neg hop]
    split_ifs <;> rfl

theorem processCache_op (p : Pipe) : (p.processCache t).hdr.ncHdr = p.hdr.ncHdr := by
  have hexist : (p.checkCacheExist t).hdr.ncHdr = p.hdr.ncHdr := by
    unfold checkCacheExist
    cases t.checkCacheExist p.hdr.ncHdr.key <;> rfl
  rw [processCache]
  split_ifs <;> exact hexist

theorem processValue_regs (p : Pipe) : p.processValue.regs = p.processStages.regs := by
  have hreply (q : Pipe) (info : BitVec 32 × BitVec 32) :
      (if q.IsHit then q.replyReadHitAfterAct info.1 info.2 else q).regs = q.regs := by
    split_ifs <;> rfl
  rw [processValue]
  exact hreply _ _

theorem ipv4Route_regs (p : Pipe) : (p.ipv4Route t).regs = p.regs := by
  unfold ipv4Route
  cases t.ipv4Route p.hdr.ipv4.dstAddr <;> rfl

theorem processStages_regs (hfill : ¬ (p.hdr.ncHdr.op = 9#8 ∧ p.cacheExist = true)) :
    p.processStages.regs = p.regs := by
  rw [processStages_eq]
  by_cases hhit : p.IsHit
  · rw [foldl_hit hhit]
  · rw [foldl_other hhit hfill]

end Pipe

/-- After ingress the cache is as the value stages leave it. -/
theorem regs_eq (t : Tables) (regs : Switch) (h : Headers) :
    (egress t 0#32 (ingress t regs h)).regs.cacheValidReg =
        ((Pipe.start regs h).processCache t).processStages.regs.cacheValidReg ∧
      (egress t 0#32 (ingress t regs h)).regs.valueReg =
        ((Pipe.start regs h).processCache t).processStages.regs.valueReg := by
  obtain ⟨e, -, -, -, hvalid, hvalue⟩ := egress_eq t (ingress t regs h)
  have hingress : (ingress t regs h).regs =
      ((Pipe.start regs h).processCache t).processStages.regs := by
    rw [ingress, Pipe.ipv4Route_regs, Pipe.processValue_regs]
  rw [hvalid, hvalue, hingress]
  exact ⟨rfl, rfl⟩

theorem regs_of_fill (t : Tables) (regs : Switch) (hop : h.ncHdr.op = 9#8) {i : BitVec 14}
    (hi : t.checkCacheExist h.ncHdr.key = some i) :
    (egress t 0#32 (ingress t regs h)).regs.cacheValidReg =
        regs.cacheValidReg.write i.toNat 1#1 ∧
      ∀ j, (egress t 0#32 (ingress t regs h)).regs.valueReg j =
        (regs.valueReg j).write i.toNat (h.ncValue j) := by
  have hcache : (Pipe.start regs h).processCache t =
      { Pipe.start regs h with cacheExist := true, cacheIndex := i }.setCacheValidAct :=
    Pipe.processCache_fill hop hi
  obtain ⟨hvalid, hvalue⟩ := regs_eq t regs h
  obtain ⟨hfill, -⟩ := Pipe.foldl_fill (List.nodup_finRange 8)
    (p := { Pipe.start regs h with cacheExist := true, cacheIndex := i }.setCacheValidAct) hop rfl
  rw [← Pipe.processStages_eq] at hfill
  rw [hvalid, hvalue, hcache, hfill]
  refine ⟨rfl, fun j => ?_⟩
  simp [Pipe.filled, Pipe.start, Pipe.setCacheValidAct]

theorem regs_of_not_fill (t : Tables) (regs : Switch)
    (hno : h.ncHdr.op = 9#8 → t.checkCacheExist h.ncHdr.key = none) :
    (egress t 0#32 (ingress t regs h)).regs.cacheValidReg = regs.cacheValidReg ∧
      (egress t 0#32 (ingress t regs h)).regs.valueReg = regs.valueReg := by
  obtain ⟨hvalid, hvalue⟩ := regs_eq t regs h
  have hstages : ((Pipe.start regs h).processCache t).processStages.regs = regs := by
    by_cases hop : h.ncHdr.op = 9#8
    · rw [processCache_none (hno hop), Pipe.processStages_regs (fun hf => by cases hf.2)]
      rfl
    · have hstart : (Pipe.start regs h).hdr.ncHdr.op ≠ 9#8 := hop
      rw [Pipe.processStages_regs, Pipe.processCache_regs hstart]
      · rfl
      · rw [Pipe.processCache_op]
        exact fun hf => hop hf.1
  rw [hvalid, hvalue, hstages]
  exact ⟨rfl, rfl⟩

end Registers

section NotRead

variable {t : Tables}

theorem Pipe.processValue_ncHdr {p : Pipe} (hop : p.hdr.ncHdr.op ≠ 0#8) :
    p.processValue.hdr.ncHdr = p.hdr.ncHdr := by
  have hhit : ¬ p.IsHit := fun hh => hop hh.1
  have hstages : p.processStages.hdr.ncHdr = p.hdr.ncHdr := by
    rw [processStages_eq]
    by_cases hfill : p.hdr.ncHdr.op = 9#8 ∧ p.cacheExist = true
    · exact (foldl_fill (List.nodup_finRange 8) hfill.1 hfill.2).2
    · rw [foldl_other hhit hfill]
  have hhit' : ¬ p.processStages.IsHit := by
    rintro ⟨h0, -⟩
    rw [hstages] at h0
    exact hop h0
  rw [processValue_of_not_hit hhit', hstages]

theorem Pipe.ipv4Route_ncHdr (p : Pipe) : (p.ipv4Route t).hdr.ncHdr = p.hdr.ncHdr := by
  unfold ipv4Route
  cases t.ipv4Route p.hdr.ipv4.dstAddr <;> rfl

theorem egress_ncHdr (p : Pipe) : (egress t 0#32 p).hdr.ncHdr = p.hdr.ncHdr := by
  obtain ⟨e, -, hhdr, -⟩ := egress_eq t p
  rw [hhdr]

/-- Only a read can leave with another operation or key than it came with. -/
theorem ncHdr_of_not_read {regs : Switch} {h : Headers} (hop : h.ncHdr.op ≠ 0#8) :
    (egress t 0#32 (ingress t regs h)).hdr.ncHdr = h.ncHdr := by
  have hcache : ((Pipe.start regs h).processCache t).hdr.ncHdr = h.ncHdr :=
    Pipe.processCache_op (Pipe.start regs h)
  have hop' : ((Pipe.start regs h).processCache t).hdr.ncHdr.op ≠ 0#8 := by
    rw [hcache]
    exact hop
  rw [egress_ncHdr, ingress, Pipe.ipv4Route_ncHdr, Pipe.processValue_ncHdr hop', hcache]

end NotRead

end P4Survey.NetCache
