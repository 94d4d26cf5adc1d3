import P4Survey.Lib.Sketch
import P4Survey.NetCache.Coherence

/-! # Detection of hot keys

The four load registers are a sketch of the reads that miss the cache and the
three Bloom registers a filter of the keys that were cloned to the controller, so
the switch runs a detector with threshold 128.
-/

namespace P4Survey.NetCache
open Lib

namespace Tables

variable (t : Tables)

/-- The algorithm of row `j` of the sketch. -/
def loadHash : Fin 4 → BitVec 128 → ℕ
  | 0 => t.crc32
  | 1 => t.csum16
  | 2 => t.crc16
  | 3 => t.crc32

/-- The algorithm of row `j` of the filter. -/
def bfHash : Fin 3 → BitVec 128 → ℕ
  | 0 => t.crc32
  | 1 => t.csum16
  | 2 => t.crc16

/-- The detector the switch is meant to be. -/
def detector : Detector (BitVec 128) (Fin 4) (Fin 3) ℕ ℕ where
  count j key := t.loadHash j key % 256
  filter j key := t.bfHash j key % 512
  threshold := 128

def IsUncachedRead (h : Headers) : Prop :=
  h.ncHdr.op = 0#8 ∧ t.checkCacheExist h.ncHdr.key = none

end Tables

namespace Pipe

variable (t : Tables) (p : Pipe)

/-- The copy that `clone_to_controller_act` makes: metadata is reset but for the loads. -/
def clonePacket (port : BitVec 9) : Pipe :=
  { start p.regs p.hdr with load := p.load, egressSpec := port }

theorem hhLoadCountAct_load (j k : Fin 4) (hash : BitVec 128 → ℕ) :
    (p.hhLoadCountAct j hash).load k =
      if k = j then (p.regs.hhLoadReg j).read (hash p.hdr.ncHdr.key % 256) else p.load k := by
  simp [hhLoadCountAct, Function.update_apply]

theorem hhLoadCountAct_hhLoadReg (j k : Fin 4) (hash : BitVec 128 → ℕ) :
    (p.hhLoadCountAct j hash).regs.hhLoadReg k =
      if k = j then (p.regs.hhLoadReg j).write (hash p.hdr.ncHdr.key % 256)
        ((p.regs.hhLoadReg j).read (hash p.hdr.ncHdr.key % 256) + 1#32)
      else p.regs.hhLoadReg k := by
  simp [hhLoadCountAct, Function.update_apply]

theorem hhLoadCountAct_hdr (j : Fin 4) (hash : BitVec 128 → ℕ) :
    (p.hhLoadCountAct j hash).hdr = p.hdr := rfl

theorem countMin_load (j : Fin 4) :
    (p.countMin t).load j =
      (p.regs.hhLoadReg j).read (t.detector.count j p.hdr.ncHdr.key) := by
  fin_cases j <;>
    simp [countMin, hhLoadCountAct_load, hhLoadCountAct_hhLoadReg, hhLoadCountAct_hdr,
      Tables.detector, Tables.loadHash]

theorem countMin_hhLoadReg (j : Fin 4) :
    (p.countMin t).regs.hhLoadReg j =
      (p.regs.hhLoadReg j).write (t.detector.count j p.hdr.ncHdr.key)
        ((p.regs.hhLoadReg j).read (t.detector.count j p.hdr.ncHdr.key) + 1#32) := by
  fin_cases j <;>
    simp [countMin, hhLoadCountAct_hhLoadReg, hhLoadCountAct_hdr, Tables.detector, Tables.loadHash]

theorem countMin_rest : (p.countMin t).regs.hhBfReg = p.regs.hhBfReg ∧
    (p.countMin t).hdr = p.hdr ∧ (p.countMin t).clone = p.clone := ⟨rfl, rfl, rfl⟩

theorem hhBfAct_bf (j k : Fin 3) (hash : BitVec 128 → ℕ) :
    (p.hhBfAct j hash).bf k =
      if k = j then (p.regs.hhBfReg j).read (hash p.hdr.ncHdr.key % 512) else p.bf k := by
  simp [hhBfAct, Function.update_apply]

theorem hhBfAct_hhBfReg (j k : Fin 3) (hash : BitVec 128 → ℕ) :
    (p.hhBfAct j hash).regs.hhBfReg k =
      if k = j then (p.regs.hhBfReg j).write (hash p.hdr.ncHdr.key % 512) 1#1
      else p.regs.hhBfReg k := by
  simp [hhBfAct, Function.update_apply]

theorem hhBfAct_hdr (j : Fin 3) (hash : BitVec 128 → ℕ) : (p.hhBfAct j hash).hdr = p.hdr := rfl

theorem bloomFilter_bf (j : Fin 3) :
    (p.bloomFilter t).bf j = (p.regs.hhBfReg j).read (t.detector.filter j p.hdr.ncHdr.key) := by
  fin_cases j <;>
    simp [bloomFilter, hhBfAct_bf, hhBfAct_hhBfReg, hhBfAct_hdr, Tables.detector, Tables.bfHash]

theorem bloomFilter_hhBfReg (j : Fin 3) :
    (p.bloomFilter t).regs.hhBfReg j =
      (p.regs.hhBfReg j).write (t.detector.filter j p.hdr.ncHdr.key) 1#1 := by
  fin_cases j <;>
    simp [bloomFilter, hhBfAct_hhBfReg, hhBfAct_hdr, Tables.detector, Tables.bfHash]

theorem bloomFilter_rest : (p.bloomFilter t).regs.hhLoadReg = p.regs.hhLoadReg ∧
    (p.bloomFilter t).clone = p.clone := ⟨rfl, rfl⟩

/-- All cells of the packet's key are above the threshold. -/
def IsHot : Prop :=
  ∀ j, 128#32 < (p.regs.hhLoadReg j).read (t.detector.count j p.hdr.ncHdr.key)

/-- Some bit of the packet's key is not set. -/
def IsFresh : Prop :=
  ∃ j, (p.regs.hhBfReg j).read (t.detector.filter j p.hdr.ncHdr.key) = 0#1

instance : Decidable (p.IsHot t) := inferInstanceAs (Decidable (∀ _, _))
instance : Decidable (p.IsFresh t) := inferInstanceAs (Decidable (∃ _, _))

theorem isHot_iff : (128#32 < (p.countMin t).load 0 ∧ 128#32 < (p.countMin t).load 1 ∧
    128#32 < (p.countMin t).load 2 ∧ 128#32 < (p.countMin t).load 3) ↔ p.IsHot t := by
  simp only [countMin_load]
  constructor
  · rintro ⟨h0, h1, h2, h3⟩ j
    fin_cases j
    · exact h0
    · exact h1
    · exact h2
    · exact h3
  · exact fun h => ⟨h 0, h 1, h 2, h 3⟩

theorem isFresh_iff : ((p.bloomFilter t).bf 0 = 0#1 ∨ (p.bloomFilter t).bf 1 = 0#1 ∨
    (p.bloomFilter t).bf 2 = 0#1) ↔ p.IsFresh t := by
  simp only [bloomFilter_bf]
  constructor
  · rintro (h | h | h)
    · exact ⟨0, h⟩
    · exact ⟨1, h⟩
    · exact ⟨2, h⟩
  · rintro ⟨j, h⟩
    fin_cases j
    · exact .inl h
    · exact .inr (.inl h)
    · exact .inr (.inr h)

/-- What is left of a packet for the detector: its registers and whether it was cloned. -/
structure Watched (q : Pipe) : Prop where
  hhLoadReg : ∀ j, q.regs.hhLoadReg j =
    (p.regs.hhLoadReg j).write (t.detector.count j p.hdr.ncHdr.key)
      ((p.regs.hhLoadReg j).read (t.detector.count j p.hdr.ncHdr.key) + 1#32)
  hhBfReg : ∀ j, q.regs.hhBfReg j =
    if p.IsHot t then (p.regs.hhBfReg j).write (t.detector.filter j p.hdr.ncHdr.key) 1#1
    else p.regs.hhBfReg j
  clone : q.clone = true ↔ p.clone = true ∨ p.IsHot t ∧ p.IsFresh t

variable {t p} in
theorem Watched.congr {p' q q' : Pipe} (h : p'.Watched t q) (hregs : p'.regs = p.regs)
    (hkey : p'.hdr.ncHdr = p.hdr.ncHdr) (hclone : p'.clone = p.clone)
    (hregs' : q'.regs = q.regs) (hclone' : q'.clone = q.clone) : p.Watched t q' := by
  have hhot : p'.IsHot t ↔ p.IsHot t := by
    rw [IsHot, IsHot, hregs, hkey]
  have hfresh : p'.IsFresh t ↔ p.IsFresh t := by
    rw [IsFresh, IsFresh, hregs, hkey]
  obtain ⟨hload, hbf, hc⟩ := h
  rw [hregs, hkey] at hload hbf
  rw [hclone, hhot, hfresh] at hc
  simp only [hhot] at hbf
  exact ⟨by rwa [hregs'], by rwa [hregs'], by rwa [hclone']⟩

theorem heavyHitter_watched : p.Watched t (p.heavyHitter t 0#32) := by
  obtain ⟨hbf, hhdr, hclone⟩ := countMin_rest t p
  obtain ⟨hload, hclone'⟩ := bloomFilter_rest t (p.countMin t)
  have hfresh : (p.countMin t).IsFresh t ↔ p.IsFresh t := by
    rw [IsFresh, IsFresh, hbf, hhdr]
  have hbits (j : Fin 3) : ((p.countMin t).bloomFilter t).regs.hhBfReg j =
      (p.regs.hhBfReg j).write (t.detector.filter j p.hdr.ncHdr.key) 1#1 := by
    rw [bloomFilter_hhBfReg, hbf, hhdr]
  have hloads (j : Fin 4) := countMin_hhLoadReg t p j
  rw [heavyHitter, if_pos rfl]
  dsimp only
  rw [if_congr (isHot_iff t p) rfl rfl, if_congr (isFresh_iff t (p.countMin t)) rfl rfl]
  generalize (p.countMin t).bloomFilter t = r at *
  generalize p.countMin t = q at *
  split_ifs with hhot hf
  · rw [hfresh] at hf
    refine ⟨fun j => ?_, fun j => ?_, ?_⟩
    · rw [cloneToControllerAct, hload, hloads]
    · rw [if_pos hhot, cloneToControllerAct, hbits]
    · simp [cloneToControllerAct, hhot, hf]
  · rw [hfresh] at hf
    refine ⟨fun j => ?_, fun j => ?_, ?_⟩
    · rw [hload, hloads]
    · rw [if_pos hhot, hbits]
    · simp [hclone', hclone, hf]
  · refine ⟨hloads, fun j => ?_, ?_⟩
    · rw [if_neg hhot, hbf]
    · simp [hclone, hhot]

end Pipe

theorem ingress_of_uncached {t : Tables} {regs : Switch} {h : Headers} (hu : t.IsUncachedRead h) :
    ingress t regs h = (Pipe.start regs h).ipv4Route t := by
  have hcache : (Pipe.start regs h).processCache t = Pipe.start regs h := processCache_none hu.2
  have hhit : ¬ (Pipe.start regs h).IsHit := fun hh => absurd hh.2 (by simp [Pipe.start])
  have hfill : ¬ ((Pipe.start regs h).hdr.ncHdr.op = 9#8 ∧
      (Pipe.start regs h).cacheExist = true) := fun hf => by cases hf.2
  have hstages : (Pipe.start regs h).processStages = Pipe.start regs h := by
    rw [Pipe.processStages_eq, Pipe.foldl_other hhit hfill]
  have hvalue : (Pipe.start regs h).processValue = Pipe.start regs h := by
    rw [Pipe.processValue_of_not_hit (by rwa [hstages]), hstages]
  rw [ingress, hcache, hvalue]

theorem egress_of_uncached {t : Tables} (regs : Switch) {h : Headers} (hu : t.IsUncachedRead h) :
    (Pipe.start regs h).Watched t (egress t 0#32 (ingress t regs h)) := by
  have hroute : ((Pipe.start regs h).ipv4Route t).hdr.ncHdr = h.ncHdr :=
    Pipe.ipv4Route_ncHdr (Pipe.start regs h)
  have hregs : ((Pipe.start regs h).ipv4Route t).regs = regs :=
    Pipe.ipv4Route_regs (Pipe.start regs h)
  have hrest : ((Pipe.start regs h).ipv4Route t).clone = false ∧
      ((Pipe.start regs h).ipv4Route t).cacheExist = false := by
    unfold Pipe.ipv4Route
    cases t.ipv4Route (Pipe.start regs h).hdr.ipv4.dstAddr <;> exact ⟨rfl, rfl⟩
  rw [ingress_of_uncached hu]
  generalize (Pipe.start regs h).ipv4Route t = p at *
  have hop : p.hdr.ncHdr.op = 0#8 ∧ p.cacheExist = false := ⟨by rw [hroute]; exact hu.1, hrest.2⟩
  obtain ⟨e, -, hmac⟩ := Pipe.ethernetSetMac_eq t (p.heavyHitter t 0#32)
  have hegress : egress t 0#32 p = (p.heavyHitter t 0#32).ethernetSetMac t := by
    rw [egress, if_pos hop]
  rw [hegress]
  exact (p.heavyHitter_watched t).congr hregs hroute hrest.1 (by rw [hmac]) (by rw [hmac])

/-- The report that the clone becomes changes no register. -/
theorem egress_clone_regs {t : Tables} {instanceType : BitVec 32} (hi : instanceType ≠ 0#32)
    (p : Pipe) : (egress t instanceType p).regs = p.regs := by
  have hmac (q : Pipe) : (q.ethernetSetMac t).regs = q.regs := by
    obtain ⟨e, -, hq⟩ := Pipe.ethernetSetMac_eq t q
    rw [hq]
  rw [egress]
  split_ifs
  · rw [hmac, Pipe.heavyHitter, if_neg hi]
    rfl
  · rw [hmac]

section Watch

/-- The registers, and the keys read and reported so far. -/
structure Watch where
  regs : Switch
  reads : List (BitVec 128)
  reports : List (BitVec 128)

/-- Fewer than `2 ^ 32` reads that miss the cache, from registers that are zero. A clone
leaves by the port of mirror session 3. -/
def watch (t : Tables) : System Watch Headers where
  init s := (∀ j, s.regs.hhLoadReg j = .fill 256 0#32) ∧ (∀ j, s.regs.hhBfReg j = .fill 512 0#1) ∧
    s.reads = [] ∧ s.reports = []
  enabled s h := t.IsUncachedRead h ∧ s.reads.length + 1 < 2 ^ 32
  next s h :=
    let p := egress t 0#32 (ingress t s.regs h)
    { regs := if p.clone then (egress t 2#32 (p.clonePacket 3#9)).regs else p.regs
      reads := h.ncHdr.key :: s.reads
      reports := if p.clone then h.ncHdr.key :: s.reports else s.reports }

/-- The registers hold the sketch of the reads and the filter of the reports. -/
structure Represents (t : Tables) (s : Watch) : Prop where
  bound : s.reads.length < 2 ^ 32
  load : ∀ j i, i < 256 →
    ((s.regs.hhLoadReg j).read i).toNat = Lib.load t.detector.count s.reads j i
  filter : ∀ j i, i < 512 →
    ((s.regs.hhBfReg j).read i = 1#1 ↔ Marked t.detector.filter s.reports j i)
  run : t.detector.Run s.reads s.reports

theorem detector_count_lt (t : Tables) (j : Fin 4) (key : BitVec 128) :
    t.detector.count j key < 256 := Nat.mod_lt _ (by decide)

theorem detector_filter_lt (t : Tables) (j : Fin 3) (key : BitVec 128) :
    t.detector.filter j key < 512 := Nat.mod_lt _ (by decide)

theorem next_regs (t : Tables) (s : Watch) (h : Headers) :
    ((watch t).next s h).regs = (egress t 0#32 (ingress t s.regs h)).regs := by
  dsimp only [watch]
  split_ifs
  · rw [egress_clone_regs (by decide)]
    rfl
  · rfl

namespace Represents

variable {t : Tables} {s : Watch} {h : Headers}

theorem isHot_iff (hr : Represents t s) :
    (Pipe.start s.regs h).IsHot t ↔ t.detector.Over s.reads h.ncHdr.key := by
  apply forall_congr'
  intro j
  rw [BitVec.lt_def]
  dsimp only [Pipe.start]
  rw [hr.load j _ (detector_count_lt t j _)]
  rfl

theorem isFresh_iff (hr : Represents t s) :
    (Pipe.start s.regs h).IsFresh t ↔ ¬ t.detector.Known s.reports h.ncHdr.key := by
  rw [Pipe.IsFresh, Detector.Known, not_forall]
  apply exists_congr
  intro j
  rw [← hr.filter j _ (detector_filter_lt t j _)]
  dsimp only [Pipe.start]
  generalize (s.regs.hhBfReg j).read (t.detector.filter j h.ncHdr.key) = b
  revert b
  decide

theorem load_next (hr : Represents t s) (he : (watch t).enabled s h) (j : Fin 4) {i : ℕ}
    (hi : i < 256) : ((((watch t).next s h).regs.hhLoadReg j).read i).toNat =
      Lib.load t.detector.count (h.ncHdr.key :: s.reads) j i := by
  obtain ⟨hu, hlen⟩ := he
  have hbefore := hr.load j i hi
  have hle := load_le_length t.detector.count s.reads j i
  rw [next_regs, (egress_of_uncached s.regs hu).hhLoadReg j, load_cons]
  dsimp only [Pipe.start]
  split_ifs with hc
  · subst hc
    have hone : (1#32).toNat = 1 := rfl
    rw [Register.read_write_self _ hi, BitVec.toNat_add, hbefore, hone]
    omega
  · rw [Register.read_write_of_ne _ hc, hbefore, Nat.add_zero]

theorem filter_next (hr : Represents t s) (hu : t.IsUncachedRead h) (j : Fin 3) {i : ℕ}
    (hi : i < 512) : (((watch t).next s h).regs.hhBfReg j).read i = 1#1 ↔
      (t.detector.Over s.reads h.ncHdr.key ∧ t.detector.filter j h.ncHdr.key = i) ∨
        Marked t.detector.filter s.reports j i := by
  have hbefore := hr.filter j i hi
  rw [next_regs, (egress_of_uncached s.regs hu).hhBfReg j]
  split_ifs with hover
  all_goals
    rw [hr.isHot_iff] at hover
    dsimp only [Pipe.start]
  · by_cases hc : t.detector.filter j h.ncHdr.key = i
    · subst hc
      simp [Register.read_write_self _ hi, hover]
    · rw [Register.read_write_of_ne _ hc, hbefore]
      simp [hc]
  · simp [hover, hbefore]

/-- One more read that misses the cache. -/
theorem next (hr : Represents t s) (he : (watch t).enabled s h) :
    Represents t ((watch t).next s h) := by
  obtain ⟨hu, hlen⟩ := he
  have hclone := (egress_of_uncached s.regs hu).clone
  rw [hr.isHot_iff, hr.isFresh_iff] at hclone
  have hload := fun j i hi => hr.load_next ⟨hu, hlen⟩ j (i := i) hi
  have hfilter := fun j i hi => hr.filter_next hu j (i := i) hi
  have hreports : ((watch t).next s h).reports =
      if (egress t 0#32 (ingress t s.regs h)).clone then h.ncHdr.key :: s.reports
      else s.reports := rfl
  by_cases hc : (egress t 0#32 (ingress t s.regs h)).clone = true
  · rw [if_pos hc] at hreports
    obtain ⟨hover, hknown⟩ := (hclone.mp hc).resolve_left (by simp [Pipe.start])
    refine ⟨hlen, hload, fun j i hi => ?_, ?_⟩
    · rw [hfilter j i hi, hreports, marked_cons]
      simp [hover]
    · rw [hreports]
      exact .report hr.run hover hknown
  · rw [if_neg hc] at hreports
    have hquiet : t.detector.Over s.reads h.ncHdr.key →
        t.detector.Known s.reports h.ncHdr.key := by
      intro hover
      by_contra hknown
      exact hc (hclone.mpr (.inr ⟨hover, hknown⟩))
    refine ⟨hlen, hload, fun j i hi => ?_, ?_⟩
    · rw [hfilter j i hi, hreports]
      constructor
      · rintro (⟨hover, rfl⟩ | hm)
        · exact hquiet hover j
        · exact hm
      · exact .inr
    · rw [hreports]
      exact .quiet hr.run hquiet

end Represents

theorem represents_of_reachable {t : Tables} {s : Watch} (h : (watch t).Reachable s) :
    Represents t s := by
  apply h.invariant
  · rintro s ⟨hload, hbf, hreads, hreports⟩
    refine ⟨?_, fun j i hi => ?_, fun j i hi => ?_, ?_⟩
    · simp [hreads]
    · rw [hload, Register.read_fill_zero, hreads]
      rfl
    · rw [hbf, Register.read_fill_zero, hreports]
      simp [not_marked_nil]
    · rw [hreads, hreports]
      exact .start
  · exact fun s h _ hr he => hr.next he

/-- The cells of a key never fall short of its reads, no key is cloned twice, and a key
read 130 times has its bits set, by its own report or by those of others. -/
theorem heavyHitter_detects {t : Tables} {s : Watch} (h : (watch t).Reachable s)
    (key : BitVec 128) :
    (∀ j, s.reads.count key ≤ ((s.regs.hhLoadReg j).read (t.detector.count j key)).toNat) ∧
      s.reports.count key ≤ 1 ∧
      (130 ≤ s.reads.count key →
        (∀ j, (s.regs.hhBfReg j).read (t.detector.filter j key) = 1#1) ∧
        (key ∈ s.reports ∨ ∀ j, ∃ key' ∈ s.reports, key' ≠ key ∧
          t.detector.filter j key' = t.detector.filter j key)) := by
  obtain ⟨-, hload, hfilter, hrun⟩ := represents_of_reachable h
  refine ⟨fun j => ?_, List.nodup_iff_count_le_one.mp hrun.nodup key, fun hcount => ?_⟩
  · rw [hload j _ (detector_count_lt t j key)]
    exact count_le_load t.detector.count s.reads j key
  · have hknown : t.detector.Known s.reports key := hrun.known hcount
    refine ⟨fun j => ?_, hknown.reported_or_hidden⟩
    rw [hfilter j _ (detector_filter_lt t j key)]
    exact hknown j

theorem allowed_reads {t : Tables} {h : Headers} (hu : t.IsUncachedRead h) (n : ℕ) (s : Watch)
    (hn : s.reads.length + n < 2 ^ 32) :
    (watch t).Allowed s (List.replicate n h) ∧
      ((watch t).run s (List.replicate n h)).reads =
        List.replicate n h.ncHdr.key ++ s.reads := by
  induction n generalizing s with
  | zero => exact ⟨trivial, rfl⟩
  | succ n ih =>
    have hreads : ((watch t).next s h).reads = h.ncHdr.key :: s.reads := rfl
    obtain ⟨hallowed, hrun⟩ := ih ((watch t).next s h) (by rw [hreads, List.length_cons]; omega)
    refine ⟨⟨⟨hu, by omega⟩, hallowed⟩, ?_⟩
    rw [List.replicate_succ, System.run, hrun, hreads, List.replicate_succ' (n := n),
      List.append_assoc, List.singleton_append]

/-- A read of the second key, which is not in the cache of the lab. -/
def labMiss : Headers :=
  ncHeaders default default default ⟨0#8, 0x2000000000000000000000000#128⟩

theorem labMiss_isUncachedRead : labTables.IsUncachedRead labMiss := ⟨rfl, by decide⟩

theorem heavyHitter_detects_lab :
    ∃ s, (watch labTables).Reachable s ∧ 130 ≤ s.reads.count labMiss.ncHdr.key ∧
      ∀ j, (s.regs.hhBfReg j).read (labTables.detector.filter j labMiss.ncHdr.key) = 1#1 := by
  have hinit : (watch labTables).Reachable ⟨emptySwitch, [], []⟩ :=
    .init ⟨fun _ => rfl, fun _ => rfl, rfl, rfl⟩
  obtain ⟨s, hs, hreads⟩ : ∃ s, (watch labTables).Reachable s ∧
      s.reads = List.replicate 130 labMiss.ncHdr.key ++ [] := by
    obtain ⟨hallowed, hreads⟩ :=
      allowed_reads labMiss_isUncachedRead 130 ⟨emptySwitch, [], []⟩ (by decide)
    exact ⟨_, hinit.run hallowed, hreads⟩
  have hcount : 130 ≤ s.reads.count labMiss.ncHdr.key := by
    rw [hreads, List.append_nil, List.count_replicate_self]
  exact ⟨s, hs, hcount, ((heavyHitter_detects hs labMiss.ncHdr.key).2.2 hcount).1⟩

end Watch

end P4Survey.NetCache
