import P4Survey.Lib.Counts
import P4Survey.Lib.System
import P4Survey.LinearRoad.Ingress

/-! # The volume of the segments

The registers beside the reports that each vehicle has sent. A vehicle leaves the
count of its segment only when the number of the segment changes, so it must not
change its expressway or its direction within segments of one number.
-/

namespace P4Survey.LinearRoad
open Lib

/-- The reports of a vehicle are listed from the last one on. -/
structure Roads where
  regs : Regs
  trips : ℕ → List PosReport

def Roads.start : Roads := ⟨.zero, fun _ => []⟩

def Roads.report (s : Roads) (r : PosReport) : Roads :=
  ⟨s.regs.process r, Function.update s.trips r.vid.toNat (r :: s.trips r.vid.toNat)⟩

theorem Roads.trips_report_self (s : Roads) (r : PosReport) :
    (s.report r).trips r.vid.toNat = r :: s.trips r.vid.toNat := Function.update_self ..

theorem Roads.trips_report_of_ne (s : Roads) {r : PosReport} {v : ℕ} (h : r.vid.toNat ≠ v) :
    (s.report r).trips v = s.trips v := Function.update_of_ne (Ne.symm h) ..

/-- What holds of all trips holds of them after a report if it holds of the trip that grew. -/
theorem Roads.forall_trips_report {s : Roads} {r : PosReport} {P : List PosReport → Prop}
    (hold : ∀ v, P (s.trips v)) (hnew : P (r :: s.trips r.vid.toNat)) (v : ℕ) :
    P ((s.report r).trips v) := by
  by_cases h : r.vid.toNat = v
  · subst v
    rw [s.trips_report_self]
    exact hnew
  · rw [s.trips_report_of_ne h]
    exact hold v

/-- The vehicles that have registers. -/
def vehicles : Finset ℕ := Finset.range 512

structure PosReport.Valid (r : PosReport) : Prop where
  vid : r.vid.toNat < 512
  xway : r.xway.toNat < 2
  seg : r.seg.toNat < 100
  dir : r.dir.toNat < 2

instance (r : PosReport) : Decidable r.Valid :=
  decidable_of_iff (r.vid.toNat < 512 ∧ r.xway.toNat < 2 ∧ r.seg.toNat < 100 ∧ r.dir.toNat < 2)
    ⟨fun ⟨h, h', h'', h'''⟩ => ⟨h, h', h'', h'''⟩, fun h => ⟨h.vid, h.xway, h.seg, h.dir⟩⟩

def roads : System Roads PosReport where
  init s := s = .start
  enabled _ r := r.Valid
  next := Roads.report

instance (s : Roads) (r : PosReport) : Decidable (roads.enabled s r) :=
  inferInstanceAs (Decidable r.Valid)

/-- The last report of a vehicle is from this segment and direction. -/
def LastAt (xway seg dir : BitVec 8) : List PosReport → Prop
  | [] => False
  | r :: _ => r.xway = xway ∧ r.seg = seg ∧ r.dir = dir

instance (xway seg dir : BitVec 8) : DecidablePred (LastAt xway seg dir)
  | [] => inferInstanceAs (Decidable False)
  | _ :: _ => inferInstanceAs (Decidable (_ ∧ _))

/-- The number of vehicles in a segment and direction. -/
def Roads.occupancy (s : Roads) (xway seg dir : BitVec 8) : ℕ :=
  census vehicles s.trips (LastAt xway seg dir)

section Index

variable {xway seg xway' seg' : BitVec 8} {dir dir' : BitVec 8}

theorem dirsegIdx_eq (hxway : xway.toNat < 2) (hseg : seg.toNat < 100) (hdir : dir.toNat < 2) :
    dirsegIdx xway seg dir = xway.toNat * 200 + seg.toNat * 2 + dir.toNat := by
  simp only [dirsegIdx, BitVec.toNat_add, BitVec.toNat_mul, BitVec.toNat_setWidth,
    BitVec.toNat_ofNat]
  omega

/-- The direction is kept in one bit. -/
theorem setWidth_dir (hdir : dir.toNat < 2) : (dir.setWidth 1).setWidth 8 = dir := by
  apply BitVec.eq_of_toNat_eq
  simp only [BitVec.toNat_setWidth]
  omega

theorem dirsegIdx_setWidth (xway seg : BitVec 8) (hdir : dir.toNat < 2) :
    dirsegIdx xway seg (dir.setWidth 1) = dirsegIdx xway seg dir := by
  have hwide : (dir.setWidth 1).setWidth 16 = dir.setWidth 16 := by
    apply BitVec.eq_of_toNat_eq
    simp only [BitVec.toNat_setWidth]
    omega
  rw [dirsegIdx, hwide]
  rfl

theorem dirsegIdx_inj (hxway : xway.toNat < 2) (hseg : seg.toNat < 100) (hdir : dir.toNat < 2)
    (hxway' : xway'.toNat < 2) (hseg' : seg'.toNat < 100) (hdir' : dir'.toNat < 2)
    (h : dirsegIdx xway seg dir = dirsegIdx xway' seg' dir') :
    xway = xway' ∧ seg = seg' ∧ dir = dir' := by
  rw [dirsegIdx_eq hxway hseg hdir, dirsegIdx_eq hxway' hseg' hdir'] at h
  exact ⟨BitVec.eq_of_toNat_eq (by omega), BitVec.eq_of_toNat_eq (by omega),
    BitVec.eq_of_toNat_eq (by omega)⟩

end Index

section Counters

variable {size : ℕ} (r : OpenRegister 8 size) {i j : ℕ}

theorem read_incAt_self (h : i < size) : (incAt r i).read i = r.read i + 1#8 :=
  OpenRegister.read_write_self _ h _

theorem read_incAt_of_ne (h : i ≠ j) : (incAt r i).read j = r.read j :=
  OpenRegister.read_write_of_ne _ h _

theorem read_decAt_self (h : i < size) : (decAt r i).read i = r.read i - 1#8 :=
  OpenRegister.read_write_self _ h _

theorem read_decAt_of_ne (h : i ≠ j) : (decAt r i).read j = r.read j :=
  OpenRegister.read_write_of_ne _ h _

/-- The cell of a counter that is incremented for those with a property. -/
theorem read_incAt_count {before after : ℕ} {p : Prop} [Decidable p] (hj : j < size)
    (hread : r.read j = .ofNat 8 before) (hcell : i = j ↔ p)
    (hcount : after = before + if p then 1 else 0) : (incAt r i).read j = .ofNat 8 after := by
  by_cases h : p
  · rw [if_pos h] at hcount
    rw [hcell.mpr h, read_incAt_self _ hj, hread, hcount, BitVec.ofNat_add]
  · rw [if_neg h, Nat.add_zero] at hcount
    rw [read_incAt_of_ne _ fun hi => h (hcell.mp hi), hread, hcount]

theorem read_decAt_count {before after : ℕ} {p : Prop} [Decidable p] (hj : j < size)
    (hread : r.read j = .ofNat 8 before) (hcell : i = j ↔ p)
    (hcount : after + (if p then 1 else 0) = before) : (decAt r i).read j = .ofNat 8 after := by
  by_cases h : p
  · rw [if_pos h] at hcount
    rw [hcell.mpr h, read_decAt_self _ hj, hread, ← hcount, BitVec.ofNat_add,
      BitVec.add_sub_cancel]
  · rw [if_neg h, Nat.add_zero] at hcount
    rw [read_decAt_of_ne _ fun hi => h (hcell.mp hi), hread, hcount]

end Counters

/-- What the registers have of a vehicle. They are zero until its first report. -/
def Regs.Holds (regs : Regs) (v : ℕ) : List PosReport → Prop
  | [] => regs.vValid.read v = 0#1 ∧ regs.vXway.read v = 0#8 ∧ regs.vSeg.read v = 0#8 ∧
      regs.vDir.read v = 0#1 ∧ regs.vLane.read v = 0#3
  | r :: _ => regs.vValid.read v = 1#1 ∧ regs.vXway.read v = r.xway ∧ regs.vSeg.read v = r.seg ∧
      regs.vDir.read v = r.dir.setWidth 1 ∧ regs.vLane.read v = r.lane.setWidth 3

/-- The registers have the last positions, and all reports are valid. -/
structure Placed (s : Roads) : Prop where
  holds : ∀ v < 512, s.regs.Holds v (s.trips v)
  valid : ∀ v, ∀ r ∈ s.trips v, r.Valid

theorem Placed.start : Placed .start where
  holds v _ := ⟨OpenRegister.read_fill_zero _, OpenRegister.read_fill_zero _, OpenRegister.read_fill_zero _,
    OpenRegister.read_fill_zero _, OpenRegister.read_fill_zero _⟩
  valid v r hr := by cases hr

theorem Placed.report {s : Roads} (hs : Placed s) {r : PosReport} (hr : r.Valid) :
    Placed (s.report r) := by
  obtain ⟨hvalid, hxway, hlane, hseg, hdir⟩ := process_position s.regs r
  have hv := hr.vid
  constructor
  · intro v hlt
    by_cases h : r.vid.toNat = v
    · subst v
      rw [s.trips_report_self]
      change (s.regs.process r).Holds _ _
      refine ⟨?_, ?_, ?_, ?_, ?_⟩
      · rw [hvalid, OpenRegister.read_write_self _ hv]
      · rw [hxway, OpenRegister.read_write_self _ hv]
      · rw [hseg, OpenRegister.read_write_self _ hv]
      · rw [hdir, OpenRegister.read_write_self _ hv]
      · rw [hlane, OpenRegister.read_write_self _ hv]
    · have hold := hs.holds v hlt
      rw [s.trips_report_of_ne h]
      change (s.regs.process r).Holds _ _
      unfold Regs.Holds at hold ⊢
      rw [hvalid, hxway, hlane, hseg, hdir, OpenRegister.read_write_of_ne _ h,
        OpenRegister.read_write_of_ne _ h, OpenRegister.read_write_of_ne _ h, OpenRegister.read_write_of_ne _ h,
        OpenRegister.read_write_of_ne _ h]
      exact hold
  · apply Roads.forall_trips_report (P := fun t => ∀ r ∈ t, r.Valid) hs.valid
    exact List.forall_mem_cons.mpr ⟨hr, hs.valid _⟩

/-- No segment and direction has more than 255 vehicles after the report. -/
def Roomy (s : Roads) (r : PosReport) : Prop :=
  ∀ xway seg dir, (s.report r).occupancy xway seg dir ≤ 255

/-- A vehicle that gives the segment of its last report has not changed its expressway or its
direction. -/
def KeepsRoad (s : Roads) (r : PosReport) : Prop :=
  ∀ r₀ ∈ (s.trips r.vid.toNat).head?, r₀.seg = r.seg → r₀.xway = r.xway ∧ r₀.dir = r.dir

instance (s : Roads) (r : PosReport) : Decidable (KeepsRoad s r) :=
  inferInstanceAs (Decidable (∀ r₀ ∈ (s.trips r.vid.toNat).head?, _))

/-- The registers count the vehicles of each segment. -/
structure Counted (s : Roads) : Prop extends Placed s where
  volume : ∀ xway seg dir : BitVec 8, xway.toNat < 2 → seg.toNat < 100 → dir.toNat < 2 →
    s.regs.segVol.read (dirsegIdx xway seg dir) = .ofNat 8 (s.occupancy xway seg dir)

theorem Counted.start : Counted .start where
  toPlaced := .start
  volume xway seg dir _ _ _ := by
    rw [Roads.occupancy, census_eq_zero fun _ _ h => h]
    exact OpenRegister.read_fill_zero _

theorem Counted.report {s : Roads} (hs : Counted s) {r : PosReport} (hr : r.Valid)
    (hkeeps : KeepsRoad s r) : Counted (s.report r) := by
  refine ⟨hs.toPlaced.report hr, ?_⟩
  intro xway seg dir hxway hseg hdir
  have hmem : r.vid.toNat ∈ vehicles := Finset.mem_range.mpr hr.vid
  have hvolume := hs.volume xway seg dir hxway hseg hdir
  have hcensus : (s.report r).occupancy xway seg dir +
      (if LastAt xway seg dir (s.trips r.vid.toNat) then 1 else 0) =
      s.occupancy xway seg dir +
        if LastAt xway seg dir (r :: s.trips r.vid.toNat) then 1 else 0 := census_update hmem _
  have hlt : dirsegIdx xway seg dir < 400 := by
    rw [dirsegIdx_eq hxway hseg hdir]
    omega
  have hcell {r' : PosReport} (hr' : r'.Valid) (rest : List PosReport) :
      dirsegIdx r'.xway r'.seg r'.dir = dirsegIdx xway seg dir ↔
        LastAt xway seg dir (r' :: rest) := by
    constructor
    · exact dirsegIdx_inj hr'.xway hr'.seg hr'.dir hxway hseg hdir
    · rintro ⟨rfl, rfl, rfl⟩
      rfl
  have hsegVol := process_segVol s.regs r
  dsimp only at hsegVol
  change (s.regs.process r).segVol.read _ = _
  have hholds := hs.holds _ hr.vid
  cases htrips : s.trips r.vid.toNat with
  | nil =>
    rw [htrips] at hholds hcensus
    rw [if_pos hholds.1] at hsegVol
    rw [if_neg (show ¬LastAt xway seg dir [] from id), Nat.add_zero] at hcensus
    rw [hsegVol]
    exact read_incAt_count _ hlt hvolume (hcell hr []) hcensus
  | cons r₀ rest =>
    rw [htrips] at hholds hcensus
    obtain ⟨hvalid, hx₀, hs₀, hd₀, -⟩ := hholds
    have hr₀ : r₀.Valid := hs.valid r.vid.toNat r₀ (by rw [htrips]; exact List.mem_cons_self)
    rw [hx₀, hs₀, hd₀, dirsegIdx_setWidth _ _ hr₀.dir, if_neg (by rw [hvalid]; decide)] at hsegVol
    by_cases hsame : r₀.seg = r.seg
    · obtain ⟨hx, hd⟩ := hkeeps r₀ (by rw [htrips]; rfl) hsame
      have hiff : LastAt xway seg dir (r₀ :: rest) ↔ LastAt xway seg dir (r :: r₀ :: rest) := by
        simp only [LastAt, hx, hd, hsame]
      simp only [hiff] at hcensus
      have hno : (s.report r).occupancy xway seg dir = s.occupancy xway seg dir := by omega
      rw [hsegVol, if_neg (not_not.mpr hsame), hvolume, hno]
    · -- the vehicle is counted where it is before the count where it was goes down
      rw [hsegVol, if_pos hsame]
      have hinc := read_incAt_count _ hlt hvolume (hcell hr (r₀ :: rest)) rfl
      exact read_decAt_count _ hlt hinc (hcell hr₀ rest) hcensus

/-- The vehicles of a run in which no segment has more than 255, and no vehicle changes its
expressway or its direction only, are counted in their segments. -/
theorem segment_volume {s : Roads} (h : ((roads.restrict Roomy).restrict KeepsRoad).Reachable s)
    {xway seg dir : BitVec 8} (hxway : xway.toNat < 2) (hseg : seg.toNat < 100)
    (hdir : dir.toNat < 2) :
    (s.regs.segVol.read (dirsegIdx xway seg dir)).toNat = s.occupancy xway seg dir := by
  have hinv : Counted s ∧ s.occupancy xway seg dir ≤ 255 := by
    induction h with
    | init h =>
      rw [show _ = Roads.start from h]
      refine ⟨.start, ?_⟩
      rw [Roads.occupancy, census_eq_zero fun _ _ h => h]
      exact Nat.zero_le _
    | step _ hstep ih =>
      obtain ⟨⟨hvalid, hroomy⟩, hkeeps⟩ := hstep
      exact ⟨ih.1.report hvalid hkeeps, hroomy _ _ _⟩
  rw [hinv.1.volume xway seg dir hxway hseg hdir, BitVec.toNat_ofNat]
  exact Nat.mod_eq_of_lt (Nat.lt_succ_of_le hinv.2)

/-- There are no more vehicles anywhere than have sent a report. -/
theorem roomy_of_few {s : Roads} {r : PosReport}
    (h : census vehicles (s.report r).trips (fun t => t ≠ []) ≤ 255) : Roomy s r := by
  intro xway seg dir
  refine (census_mono ?_).trans h
  intro v _ hlast hnil
  rw [hnil] at hlast
  exact hlast

/-- A report of vehicle `vid` from lane one of the first expressway. -/
def labReport (vid : BitVec 32) (seg dir : BitVec 8) : PosReport := ⟨0#16, vid, 10#8, 0#8, 1#8, dir, seg⟩

theorem segment_volume_lab :
    ∃ s : Roads, ((roads.restrict Roomy).restrict KeepsRoad).Reachable s ∧
      s.occupancy 0#8 8#8 0#8 = 1 ∧ s.occupancy 0#8 9#8 0#8 = 1 ∧
      (s.regs.segVol.read (dirsegIdx 0#8 8#8 0#8)).toNat = s.occupancy 0#8 8#8 0#8 ∧
      (s.regs.segVol.read (dirsegIdx 0#8 9#8 0#8)).toNat = s.occupancy 0#8 9#8 0#8 := by
  have hstart : ((roads.restrict Roomy).restrict KeepsRoad).Reachable .start := .init rfl
  have hr := hstart.run (l := [labReport 1#32 8#8 0#8, labReport 2#32 8#8 0#8,
    labReport 1#32 9#8 0#8]) (by
      refine ⟨⟨⟨by decide, roomy_of_few ?_⟩, ?_⟩, ⟨⟨by decide, roomy_of_few ?_⟩, ?_⟩,
        ⟨⟨by decide, roomy_of_few ?_⟩, ?_⟩, trivial⟩ <;> decide +kernel)
  exact ⟨_, hr, by decide +kernel, by decide +kernel,
    segment_volume hr (by decide) (by decide) (by decide),
    segment_volume hr (by decide) (by decide) (by decide)⟩

/-- A vehicle turns round in its segment and is still counted in the old direction. -/
theorem turned_vehicle_counted :
    ¬∀ s, (roads.restrict Roomy).Reachable s → ∀ xway seg dir : BitVec 8, xway.toNat < 2 →
      seg.toNat < 100 → dir.toNat < 2 →
      (s.regs.segVol.read (dirsegIdx xway seg dir)).toNat = s.occupancy xway seg dir := by
  intro h
  have hstart : (roads.restrict Roomy).Reachable .start := .init rfl
  have hr := hstart.run (l := [labReport 1#32 8#8 0#8, labReport 1#32 8#8 1#8]) (by
    refine ⟨⟨by decide, roomy_of_few ?_⟩, ⟨by decide, roomy_of_few ?_⟩, trivial⟩ <;> decide +kernel)
  have hvolume := h _ hr 0#8 8#8 0#8 (by decide) (by decide) (by decide)
  revert hvolume
  decide +kernel

end P4Survey.LinearRoad
