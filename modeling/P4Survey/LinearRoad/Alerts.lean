import P4Survey.LinearRoad.Stopped

/-! # Accident alerts

A report is answered with an alert when two vehicles have stopped in one lane of
the next five segments. The cells of these segments are found by counting on from
the segment of the report, past the last one: the reports from the last segments
of the first expressway look into the first segments of the second one, and those
of the second one look behind the last cell, where a read may return anything. The
last lane of the second expressway is already there.
-/

namespace P4Survey.LinearRoad
open Lib

/-- A report from one of the roads and lanes. -/
structure OnRoad (r : PosReport) : Prop where
  xway : r.xway.toNat < 2
  seg : r.seg.toNat < 100
  dir : r.dir.toNat < 2
  lane : 1 ≤ r.lane.toNat ∧ r.lane.toNat ≤ 3

instance (r : PosReport) : Decidable (OnRoad r) :=
  decidable_of_iff (r.xway.toNat < 2 ∧ r.seg.toNat < 100 ∧ r.dir.toNat < 2 ∧
      1 ≤ r.lane.toNat ∧ r.lane.toNat ≤ 3)
    ⟨fun ⟨h, h', h'', h'''⟩ => ⟨h, h', h'', h'''⟩, fun h => ⟨h.xway, h.seg, h.dir, h.lane⟩⟩

/-- All cells are zero. What the reads outside of the arrays return is left open. -/
structure Regs.Blank (regs : Regs) : Prop where
  segEwmaSpd : regs.segEwmaSpd.toRegister = .fill _ 0#16
  segVol : regs.segVol.toRegister = .fill _ 0#8
  stoppedCnt : regs.stoppedCnt.toRegister = .fill _ 0#8
  vAccntBal : regs.vAccntBal.toRegister = .fill _ 0#32
  vDir : regs.vDir.toRegister = .fill _ 0#1
  vLane : regs.vLane.toRegister = .fill _ 0#3
  vNomoveCnt : regs.vNomoveCnt.toRegister = .fill _ 0#3
  vSeg : regs.vSeg.toRegister = .fill _ 0#8
  vSpd : regs.vSpd.toRegister = .fill _ 0#8
  vValid : regs.vValid.toRegister = .fill _ 0#1
  vXway : regs.vXway.toRegister = .fill _ 0#8

theorem blank_zero : Regs.zero.Blank := ⟨rfl, rfl, rfl, rfl, rfl, rfl, rfl, rfl, rfl, rfl, rfl⟩

/-- The registers under reports of any vehicles, also of those that have no registers. -/
def traffic : System Regs PosReport where
  init := Regs.Blank
  enabled _ r := OnRoad r
  next := Regs.process

instance (regs : Regs) (r : PosReport) : Decidable (traffic.enabled regs r) :=
  inferInstanceAs (Decidable (OnRoad r))

/-- The read of some lane of the segment returns two or more. -/
def Regs.Blocked (regs : Regs) (xway dir seg : BitVec 8) : Prop :=
  ∃ lane : BitVec 8, (1 ≤ lane.toNat ∧ lane.toNat ≤ 3) ∧
    2#8 ≤ regs.stoppedCnt.read (Loc.cell ⟨xway, seg, dir, lane⟩)

/-- Two vehicles have stopped in a lane of the segment, as the cell of the lane has it. -/
def Regs.Accident (regs : Regs) (xway dir seg : BitVec 8) : Prop :=
  ∃ lane : BitVec 8, (1 ≤ lane.toNat ∧ lane.toNat ≤ 3) ∧ Loc.cell ⟨xway, seg, dir, lane⟩ < 1200 ∧
    2#8 ≤ regs.stoppedCnt.read (Loc.cell ⟨xway, seg, dir, lane⟩)

theorem Regs.Accident.blocked {regs : Regs} {xway dir seg : BitVec 8}
    (h : regs.Accident xway dir seg) : regs.Blocked xway dir seg := by
  obtain ⟨lane, hlane, -, hread⟩ := h
  exact ⟨lane, hlane, hread⟩

/-- The segment is one of the next five. -/
def PosReport.Ahead (r : PosReport) (seg : BitVec 8) : Prop :=
  r.seg.toNat ≤ seg.toNat ∧ seg.toNat ≤ min (r.seg.toNat + 4) 99

/-- The next five segments are on the road, and all their lanes have cells: the cell of the last
lane would be number 1200. -/
def PosReport.HasCells (r : PosReport) : Prop :=
  r.seg.toNat ≤ 95 ∧ ¬(r.xway = 1#8 ∧ r.dir = 1#8 ∧ r.seg = 95#8)

/-- What the alert of a report says, beside the cells at the time it is decided. -/
structure Pass.AlertsReal (y : Pass) : Prop where
  iff : y.accidentMeta.hasAccidentAhead = 1#1 ↔
    ∃ seg, y.report.Ahead seg ∧ y.regs.Accident y.report.xway y.report.dir seg
  seg : y.accidentMeta.hasAccidentAhead = 1#1 → y.report.Ahead y.accidentMeta.accidentSeg ∧
    y.regs.Accident y.report.xway y.report.dir y.accidentMeta.accidentSeg

section Tables

/-- The tables before that of the accidents leave the report and the flag alone. -/
structure Silent (x y : Pass) : Prop where
  report : y.report = x.report
  flag : y.accidentMeta.hasAccidentAhead = x.accidentMeta.hasAccidentAhead

theorem Silent.trans {x y z : Pass} (h : Silent x y) (h' : Silent y z) : Silent x z :=
  ⟨h'.report.trans h.report, h'.flag.trans h.flag⟩

namespace Pass

variable (x : Pass)

theorem updateNewSeg_silent : Silent x x.updateNewSeg := by
  unfold updateNewSeg
  split_ifs <;> exact ⟨rfl, rfl⟩

theorem updateVolState_silent : Silent x x.updateVolState := by
  unfold updateVolState
  split_ifs <;> exact ⟨rfl, rfl⟩

theorem updateEwmaSpd_silent : Silent x x.updateEwmaSpd := by
  unfold updateEwmaSpd
  split_ifs <;> exact ⟨rfl, rfl⟩

theorem updateLoc_silent : Silent x x.updateLoc := by
  unfold updateLoc
  split_ifs <;> exact ⟨rfl, rfl⟩

theorem decPrevStopped_silent : Silent x x.decPrevStopped := by
  unfold decPrevStopped
  split_ifs <;> exact ⟨rfl, rfl⟩

theorem incStopped_silent : Silent x x.incStopped := by
  unfold incStopped
  split_ifs <;> exact ⟨rfl, rfl⟩

/-- The cells of a segment at a distance, combined as the program does. -/
def ordAt (regs : Regs) (r : PosReport) (k : ℕ) : BitVec 8 :=
  let cell (lane : ℕ) := regs.stoppedCnt.read
    (stoppedIdx r.xway (r.seg + .ofNat 8 k) r.dir (BitVec.ofNat 16 lane))
  cell 1 ||| cell 2 ||| cell 3

theorem checkAccidents_cases (hflag : x.accidentMeta.hasAccidentAhead = 0#1) :
    x.doLoadStoppedAhead.checkAccidents.report = x.report ∧
      x.doLoadStoppedAhead.checkAccidents.regs = x.regs ∧
      ((∃ k < 5, 2#8 ≤ ordAt x.regs x.report k ∧ (∀ j < k, ¬2#8 ≤ ordAt x.regs x.report j) ∧
          x.doLoadStoppedAhead.checkAccidents.accidentMeta.hasAccidentAhead = 1#1 ∧
          x.doLoadStoppedAhead.checkAccidents.accidentMeta.accidentSeg =
            x.report.seg + .ofNat 8 k) ∨
        ((∀ k < 5, ¬2#8 ≤ ordAt x.regs x.report k) ∧
          x.doLoadStoppedAhead.checkAccidents.accidentMeta.hasAccidentAhead = 0#1)) := by
  unfold checkAccidents
  split
  · next k hk =>
    rw [List.find?_range_eq_some] at hk
    refine ⟨rfl, rfl, .inl ⟨k, List.mem_range.mp hk.2.1, of_decide_eq_true hk.1, ?_, rfl, rfl⟩⟩
    intro j hj hord
    have hfalse := hk.2.2 j hj
    simp only [Bool.not_eq_eq_eq_not, Bool.not_true, decide_eq_false_iff_not] at hfalse
    exact hfalse hord
  · next hnone =>
    refine ⟨rfl, rfl, .inr ⟨?_, hflag⟩⟩
    intro k hk hord
    exact (List.find?_eq_none.mp hnone k (List.mem_range.mpr hk)) (decide_eq_true hord)

end Pass

end Tables

section Cells

/-- A disjunction of counts reaches two exactly if one of them does. -/
theorem two_le_or {a b : BitVec 8} : 2#8 ≤ a ||| b ↔ 2#8 ≤ a ∨ 2#8 ≤ b := by
  simp only [BitVec.le_def, BitVec.toNat_or, BitVec.toNat_ofNat]
  constructor
  · intro h
    by_contra hlt
    have ha : a.toNat < 2 ^ 1 := by omega
    have hb : b.toNat < 2 ^ 1 := by omega
    have := Nat.or_lt_two_pow ha hb
    omega
  · rintro (h | h)
    · exact h.trans Nat.left_le_or
    · exact h.trans Nat.right_le_or

theorem ordAt_iff (regs : Regs) (r : PosReport) (k : ℕ) :
    2#8 ≤ Pass.ordAt regs r k ↔ regs.Blocked r.xway r.dir (r.seg + .ofNat 8 k) := by
  rw [Pass.ordAt, two_le_or, two_le_or]
  constructor
  · rintro ((h | h) | h)
    · exact ⟨1#8, by decide, h⟩
    · exact ⟨2#8, by decide, h⟩
    · exact ⟨3#8, by decide, h⟩
  · rintro ⟨lane, ⟨hpos, hle⟩, h⟩
    have hlane : lane = 1#8 ∨ lane = 2#8 ∨ lane = 3#8 := by
      rw [← BitVec.toNat_inj, ← BitVec.toNat_inj, ← BitVec.toNat_inj]
      simp only [BitVec.toNat_ofNat]
      omega
    rcases hlane with rfl | rfl | rfl
    · exact .inl (.inl h)
    · exact .inl (.inr h)
    · exact .inr h

theorem toNat_seg_add {seg : BitVec 8} (hseg : seg.toNat < 100) {k : ℕ} (hk : k < 5) :
    (seg + .ofNat 8 k).toNat = seg.toNat + k := by
  rw [BitVec.toNat_add, BitVec.toNat_ofNat]
  omega

theorem PosReport.HasCells.cell_lt {r : PosReport} (h : r.HasCells) (hr : OnRoad r) {k : ℕ} (hk : k < 5)
    {lane : BitVec 8} (hlane : lane.toNat ≤ 3) :
    Loc.cell ⟨r.xway, r.seg + .ofNat 8 k, r.dir, lane⟩ < 1200 := by
  have hxway := hr.xway
  have hdir := hr.dir
  have hseg := toNat_seg_add hr.seg hk
  have hle := h.1
  rw [Loc.cell_of_lt hxway (by rw [hseg]; omega) hdir hlane]
  dsimp only
  rw [hseg]
  by_contra hge
  apply h.2
  rw [← BitVec.toNat_inj, ← BitVec.toNat_inj, ← BitVec.toNat_inj]
  simp only [BitVec.toNat_ofNat]
  omega

end Cells

section Alerts

variable {regs : Regs} {r : PosReport}

/-- The report, the registers and the flag when the accidents are looked for. -/
theorem before_accidents (regs : Regs) (r : PosReport) :
    ∃ x : Pass, x.report = r ∧ x.accidentMeta.hasAccidentAhead = 0#1 ∧
      (r.arrive regs).ingress = x.doLoadStoppedAhead.checkAccidents.checkToll := by
  have hsilent : Silent (r.arrive regs)
      (Pass.located regs r).updateVolState.updateEwmaSpd.updateLoc.decPrevStopped.incStopped :=
    Silent.trans (y := (r.arrive regs).doUpdatePosState) ⟨rfl, rfl⟩
      ((Pass.updateNewSeg_silent _).trans ((Pass.updateVolState_silent _).trans
        ((Pass.updateEwmaSpd_silent _).trans ((Pass.updateLoc_silent _).trans
          ((Pass.decPrevStopped_silent _).trans (Pass.incStopped_silent _))))))
  exact ⟨_, hsilent.report, hsilent.flag, rfl⟩

theorem checkToll_same (x : Pass) : x.checkToll.report = x.report ∧
    x.checkToll.accidentMeta = x.accidentMeta ∧ x.checkToll.regs.stoppedCnt = x.regs.stoppedCnt := by
  unfold Pass.checkToll
  split_ifs <;> exact ⟨rfl, rfl, rfl⟩

/-- The nearest of the next five segments that looks blocked, the ones behind the end of the
expressway included. -/
theorem alert_cases (regs : Regs) (r : PosReport) :
    let y := (r.arrive regs).ingress
    y.report = r ∧ ((∃ k < 5, y.regs.Blocked r.xway r.dir (r.seg + .ofNat 8 k) ∧
        (∀ j < k, ¬y.regs.Blocked r.xway r.dir (r.seg + .ofNat 8 j)) ∧
        y.accidentMeta.hasAccidentAhead = 1#1 ∧
        y.accidentMeta.accidentSeg = r.seg + .ofNat 8 k) ∨
      ((∀ k < 5, ¬y.regs.Blocked r.xway r.dir (r.seg + .ofNat 8 k)) ∧
        y.accidentMeta.hasAccidentAhead = 0#1)) := by
  obtain ⟨x, rfl, hflag, hrun⟩ := before_accidents regs r
  obtain ⟨hreport, hregs, hcases⟩ := x.checkAccidents_cases hflag
  obtain ⟨hreport', hmeta, hstopped⟩ := checkToll_same x.doLoadStoppedAhead.checkAccidents
  have hblocked (seg : BitVec 8) : x.doLoadStoppedAhead.checkAccidents.checkToll.regs.Blocked
      x.report.xway x.report.dir seg ↔ x.regs.Blocked x.report.xway x.report.dir seg := by
    rw [Regs.Blocked, Regs.Blocked, hstopped, hregs]
  simp only [ordAt_iff] at hcases
  rw [hrun]
  dsimp only
  rw [hreport', hreport, hmeta]
  simp only [hblocked]
  exact ⟨trivial, hcases⟩

/-- Where all lanes ahead have cells on the road, the alert is real. -/
theorem alertsReal_of_hasCells (hr : OnRoad r) (hc : r.HasCells) (regs : Regs) :
    (r.arrive regs).ingress.AlertsReal := by
  obtain ⟨hreport, hcases⟩ := alert_cases regs r
  have hahead (k : ℕ) (hk : k < 5)
      (h : (r.arrive regs).ingress.regs.Blocked r.xway r.dir (r.seg + .ofNat 8 k)) :
      r.Ahead (r.seg + .ofNat 8 k) ∧
        (r.arrive regs).ingress.regs.Accident r.xway r.dir (r.seg + .ofNat 8 k) := by
    obtain ⟨lane, hlane, hread⟩ := h
    refine ⟨?_, lane, hlane, hc.cell_lt hr hk hlane.2, hread⟩
    have := hc.1
    rw [PosReport.Ahead, toNat_seg_add hr.seg hk]
    omega
  constructor
  · rw [hreport]
    constructor
    · intro hflag
      rcases hcases with ⟨k, hk, hblocked, -, -, -⟩ | ⟨-, hzero⟩
      · exact ⟨_, hahead k hk hblocked⟩
      · rw [hzero] at hflag
        exact absurd hflag (by decide)
    · rintro ⟨seg, ⟨hge, hle⟩, hacc⟩
      rcases hcases with ⟨k, hk, -, -, hflag, -⟩ | ⟨hnone, -⟩
      · exact hflag
      · have hk : seg.toNat - r.seg.toNat < 5 := by omega
        have hseg : r.seg + .ofNat 8 (seg.toNat - r.seg.toNat) = seg := by
          apply BitVec.eq_of_toNat_eq
          rw [toNat_seg_add hr.seg hk]
          omega
        have hno := hnone _ hk
        rw [hseg] at hno
        exact absurd hacc.blocked hno
  · intro hflag
    rw [hreport]
    rcases hcases with ⟨k, hk, hblocked, -, -, hseg⟩ | ⟨-, hzero⟩
    · rw [hseg]
      exact hahead k hk hblocked
    · rw [hzero] at hflag
      exact absurd hflag (by decide)

/-- With a lane that looks blocked and no accident in any cell of the road, it is not. -/
theorem not_alertsReal {k : ℕ} (hk : k < 5)
    (hblocked : (r.arrive regs).ingress.regs.Blocked r.xway r.dir (r.seg + .ofNat 8 k))
    (hnone : ∀ seg, seg.toNat ≤ 99 → ¬(r.arrive regs).ingress.regs.Accident r.xway r.dir seg) :
    ¬(r.arrive regs).ingress.AlertsReal := by
  intro hreal
  obtain ⟨hreport, hcases⟩ := alert_cases regs r
  have hflag : (r.arrive regs).ingress.accidentMeta.hasAccidentAhead = 1#1 := by
    rcases hcases with ⟨k, -, -, -, hflag, -⟩ | ⟨hfree, -⟩
    · exact hflag
    · exact absurd hblocked (hfree k hk)
  obtain ⟨seg, ⟨-, hle⟩, hacc⟩ := hreal.iff.mp hflag
  rw [hreport] at hacc
  exact hnone seg (hle.trans (min_le_right _ _)) hacc

end Alerts

section Parked

/-- The registers of a vehicle are those it had before reports of others. -/
theorem run_untouched {u : ℕ} {l : List PosReport} (h : ∀ r ∈ l, r.vid.toNat ≠ u) (regs : Regs) :
    (traffic.run regs l).vNomoveCnt.read u = regs.vNomoveCnt.read u ∧
      (traffic.run regs l).vLane.read u = regs.vLane.read u := by
  induction l generalizing regs with
  | nil => exact ⟨rfl, rfl⟩
  | cons r l ih =>
    obtain ⟨hr, hl⟩ := List.forall_mem_cons.mp h
    obtain ⟨hcnt, hlane⟩ := ih hl (regs.process r)
    rw [System.run]
    refine ⟨hcnt.trans ?_, hlane.trans ?_⟩
    · rw [(process_stops regs r).1, OpenRegister.read_write_of_ne _ hr]
    · rw [(process_position regs r).2.2.1, OpenRegister.read_write_of_ne _ hr]

/-- Reports from one location count vehicles in its cell only. -/
theorem run_elsewhere {here : Loc} {l : List PosReport}
    (hl : ∀ r ∈ l, r.Valid ∧ r.lane.toNat ≤ 3 ∧ r.loc = here) {s : Roads} (hs : Watched s)
    (htrips : ∀ v, ∀ r ∈ s.trips v, r.loc = here) {c : ℕ} (hc : c < 1200) (hne : here.cell ≠ c) :
    (traffic.run s.regs l).stoppedCnt.read c = 0#8 := by
  induction l generalizing s with
  | nil =>
    have hnone : census vehicles s.trips (StoppedIn c) = 0 := by
      apply census_eq_zero
      rintro v - ⟨hstreak, hcell⟩
      cases ht : s.trips v with
      | nil =>
        rw [ht] at hstreak
        cases hstreak
      | cons r rest =>
        rw [ht, LinearRoad.here, htrips v r (by rw [ht]; exact List.mem_cons_self)] at hcell
        exact hne hcell
    rw [System.run, hs.stopped c hc, hnone]
  | cons r l ih =>
    obtain ⟨⟨hvalid, hlane, hloc⟩, hl⟩ := List.forall_mem_cons.mp hl
    refine ih hl (hs.report hvalid hlane) ?_
    apply Roads.forall_trips_report (P := fun t => ∀ r ∈ t, r.loc = here) htrips
    exact List.forall_mem_cons.mpr ⟨hloc, htrips _⟩

/-- The report of a vehicle that has sent none before leaves the cells as they are. -/
theorem process_first {regs : Regs} {r : PosReport} (hlane : 1 ≤ r.lane.toNat)
    (hcnt : regs.vNomoveCnt.read r.vid.toNat = 0#3) (hreg : regs.vLane.read r.vid.toNat = 0#3) :
    (regs.process r).stoppedCnt = regs.stoppedCnt := by
  have hmoves : ¬regs.Stays r := by
    rintro ⟨-, -, -, h⟩
    rw [hreg] at h
    rw [h] at hlane
    exact absurd hlane (by decide)
  have hnomove : regs.nomove r = 0#3 := if_neg hmoves
  have hrun := (process_stops regs r).2
  rw [hcnt, hnomove] at hrun
  rw [hrun, if_neg (by decide), if_neg (by decide)]

/-- A report from the first segment of the second expressway. -/
def parked (vid : BitVec 32) (dir : BitVec 8) : PosReport := ⟨0#16, vid, 0#8, 1#8, 1#8, dir, 0#8⟩

/-- Two vehicles stop there. -/
def wreck (v w : BitVec 32) (dir : BitVec 8) : List PosReport :=
  List.replicate 4 (parked v dir) ++ List.replicate 4 (parked w dir)

/-- The two vehicles have registers, and any third one is neither of them. -/
structure Pair (v w : BitVec 32) (u : BitVec 32) : Prop where
  vids : (v = 1#32 ∧ w = 2#32) ∨ (v = 3#32 ∧ w = 4#32)
  ne : u ≠ v ∧ u ≠ w

theorem exists_pair (u : BitVec 32) : ∃ v w, Pair v w u := by
  by_cases h : u = 1#32 ∨ u = 2#32
  · refine ⟨3#32, 4#32, .inr ⟨rfl, rfl⟩, ?_⟩
    rcases h with rfl | rfl <;> decide
  · exact ⟨1#32, 2#32, .inl ⟨rfl, rfl⟩, not_or.mp h⟩

section Wreck

variable {v w u : BitVec 32} {dir : BitVec 8}

theorem mem_wreck {r : PosReport} (h : r ∈ wreck v w dir) :
    r = parked v dir ∨ r = parked w dir := by
  rcases List.mem_append.mp h with h | h
  · exact .inl (List.eq_of_mem_replicate h)
  · exact .inr (List.eq_of_mem_replicate h)

theorem wreck_read (h : Pair v w u) (hdir : dir.toNat < 2) :
    (traffic.run .zero (wreck v w dir)).stoppedCnt.read (Loc.cell ⟨1#8, 0#8, dir, 1#8⟩) = 2#8 := by
  have hcases : dir = 0#8 ∨ dir = 1#8 := by
    rw [← BitVec.toNat_inj, ← BitVec.toNat_inj]
    simp only [BitVec.toNat_ofNat]
    omega
  obtain ⟨hvw, -⟩ := h
  rcases hcases with rfl | rfl <;> rcases hvw with ⟨rfl, rfl⟩ | ⟨rfl, rfl⟩ <;> decide +kernel

theorem cell_parked (hdir : dir.toNat < 2) :
    Loc.cell ⟨1#8, 0#8, dir, 1#8⟩ = 601 + dir.toNat * 3 := by
  rw [Loc.cell_of_lt (show (1#8).toNat < 2 by decide) (show (0#8).toNat < 128 by decide) hdir
    (show (1#8).toNat ≤ 3 by decide)]
  simp only [BitVec.toNat_ofNat]
  omega

/-- Segment 100 of the first expressway has the cells of segment 0 of the second one. -/
theorem cell_alias (hdir : dir.toNat < 2) :
    Loc.cell ⟨0#8, 100#8, dir, 1#8⟩ = Loc.cell ⟨1#8, 0#8, dir, 1#8⟩ := by
  rw [cell_parked hdir, Loc.cell_of_lt (show (0#8).toNat < 2 by decide)
    (show (100#8).toNat < 128 by decide) hdir (show (1#8).toNat ≤ 3 by decide)]
  simp only [BitVec.toNat_ofNat]
  omega

theorem parked_valid (hv : v.toNat < 512) (hdir : dir.toNat < 2) :
    (parked v dir).Valid ∧ (parked v dir).lane.toNat ≤ 3 ∧
      (parked v dir).loc = ⟨1#8, 0#8, dir, 1#8⟩ := by
  refine ⟨⟨hv, ?_, ?_, hdir⟩, ?_, rfl⟩
  · exact show (1#8).toNat < 2 by decide
  · exact show (0#8).toNat < 100 by decide
  · exact show (1#8).toNat ≤ 3 by decide

theorem wreck_allowed (hdir : dir.toNat < 2) : traffic.Allowed .zero (wreck v w dir) := by
  have hparked (v : BitVec 32) : OnRoad (parked v dir) := by
    refine ⟨?_, ?_, hdir, ?_⟩
    · exact show (1#8).toNat < 2 by decide
    · exact show (0#8).toNat < 100 by decide
    · exact show 1 ≤ (1#8).toNat ∧ (1#8).toNat ≤ 3 by decide
  rw [wreck, System.allowed_append]
  exact ⟨System.allowed_replicate (fun _ => hparked v) 4 _,
    System.allowed_replicate (fun _ => hparked w) 4 _⟩

/-- No vehicle has stopped on the first expressway. -/
theorem wreck_elsewhere (h : Pair v w u) (hdir : dir.toNat < 2) {c : ℕ} (hc : c ≤ 600) :
    (traffic.run .zero (wreck v w dir)).stoppedCnt.read c = 0#8 := by
  have hvid : v.toNat < 512 ∧ w.toNat < 512 := by
    obtain ⟨hvw, -⟩ := h
    rcases hvw with ⟨rfl, rfl⟩ | ⟨rfl, rfl⟩ <;> decide
  have hcell := cell_parked hdir
  have hall : ∀ r ∈ wreck v w dir, r.Valid ∧ r.lane.toNat ≤ 3 ∧ r.loc = ⟨1#8, 0#8, dir, 1#8⟩ := by
    intro r hr
    rcases mem_wreck hr with rfl | rfl
    · exact parked_valid hvid.1 hdir
    · exact parked_valid hvid.2 hdir
  exact run_elsewhere hall Watched.start (fun v r hr => by cases hr) (by omega) (by omega)

theorem wreck_process (h : Pair v w u) (dir : BitVec 8) {r : PosReport} (hu : r.vid = u)
    (hlane : 1 ≤ r.lane.toNat) :
    (r.arrive (traffic.run .zero (wreck v w dir))).ingress.regs.stoppedCnt =
      (traffic.run .zero (wreck v w dir)).stoppedCnt := by
  have hother : ∀ r' ∈ wreck v w dir, r'.vid.toNat ≠ r.vid.toNat := by
    intro r' hr' he
    have hvid : r.vid = r'.vid := BitVec.eq_of_toNat_eq he.symm
    rcases mem_wreck hr' with rfl | rfl
    · exact h.ne.1 (hu.symm.trans hvid)
    · exact h.ne.2 (hu.symm.trans hvid)
  obtain ⟨hcnt, hreg⟩ := run_untouched hother .zero
  exact process_first hlane (hcnt.trans (OpenRegister.read_fill_zero _))
    (hreg.trans (OpenRegister.read_fill_zero _))

/-- After the wreck a vehicle at the end of the first expressway is told of an accident in a
segment that the road does not have. -/
theorem wreck_alert {r : PosReport} (hr : OnRoad r) (hxway : r.xway = 0#8) (hseg : 96 ≤ r.seg.toNat)
    (h : Pair v w r.vid) :
    ¬(r.arrive (traffic.run .zero (wreck v w r.dir))).ingress.AlertsReal := by
  have hlt := hr.seg
  have hsame := wreck_process h r.dir rfl hr.lane.1
  have hread := wreck_read h hr.dir
  have hzero := fun c (hc : c ≤ 600) => wreck_elsewhere h hr.dir hc
  generalize traffic.run .zero (wreck v w r.dir) = regs at hsame hread hzero ⊢
  have hk : 100 - r.seg.toNat < 5 := by omega
  apply not_alertsReal hk
  · have hnext : r.seg + .ofNat 8 (100 - r.seg.toNat) = 100#8 := by
      apply BitVec.eq_of_toNat_eq
      rw [toNat_seg_add hlt hk, BitVec.toNat_ofNat]
      omega
    rw [hnext, hxway]
    refine ⟨1#8, by decide, ?_⟩
    rw [hsame, cell_alias hr.dir, hread]
    exact BitVec.le_refl _
  · rintro seg hle ⟨lane, ⟨-, hlane⟩, -, htwo⟩
    rw [hsame, hzero] at htwo
    · exact absurd htwo (by decide)
    · rw [Loc.cell_of_lt hr.xway (show seg.toNat < 128 by omega) hr.dir hlane, hxway]
      have hdir := hr.dir
      simp only [BitVec.toNat_ofNat]
      omega

end Wreck

end Parked

section Behind

/-- Blank registers of a switch that returns two from behind the stopped counts. -/
def Regs.haunted : Regs := { Regs.zero with stoppedCnt := ⟨.fill _ 0#8, fun _ => 2#8⟩ }

theorem blank_haunted : Regs.haunted.Blank :=
  ⟨rfl, rfl, rfl, rfl, rfl, rfl, rfl, rfl, rfl, rfl, rfl⟩

/-- The third lane of the last segment that a report looks at has no cell. -/
theorem haunted_alert {r : PosReport} (hr : OnRoad r) (hxway : r.xway = 1#8)
    (hbehind : 96 ≤ r.seg.toNat ∨ r.seg.toNat = 95 ∧ r.dir = 1#8) :
    ¬(r.arrive .haunted).ingress.AlertsReal := by
  have hsame : (r.arrive .haunted).ingress.regs.stoppedCnt = Regs.haunted.stoppedCnt :=
    process_first hr.lane.1 (OpenRegister.read_fill_zero _) (OpenRegister.read_fill_zero _)
  have hseg := toNat_seg_add hr.seg (show 4 < 5 by decide)
  apply not_alertsReal (show 4 < 5 by decide)
  · have hcell : 1200 ≤ Loc.cell ⟨r.xway, r.seg + .ofNat 8 4, r.dir, 3#8⟩ := by
      have hlt := hr.seg
      rw [Loc.cell_of_lt hr.xway (by rw [hseg]; omega) hr.dir (show (3#8).toNat ≤ 3 by decide), hxway]
      dsimp only
      rw [hseg]
      rcases hbehind with hge | ⟨heq, hdir⟩
      · simp only [BitVec.toNat_ofNat]
        omega
      · rw [hdir, heq]
        decide
    refine ⟨3#8, by decide, ?_⟩
    rw [hsame, OpenRegister.read_of_size_le _ hcell]
    exact BitVec.le_refl _
  · rintro seg - ⟨lane, -, hlt, htwo⟩
    rw [hsame, OpenRegister.read_of_lt _ hlt] at htwo
    have hzero : Regs.haunted.stoppedCnt.toRegister.read
        (Loc.cell ⟨r.xway, seg, r.dir, lane⟩) = 0#8 := Register.read_fill_zero _
    rw [hzero] at htwo
    exact absurd htwo (by decide)

end Behind

/-- The alerts of a report are real in every run before it, if and only if the five segments ahead
of it end on the road and have cells for all their lanes. -/
theorem alerts_real_iff {r : PosReport} (hr : OnRoad r) :
    (∀ regs, traffic.Reachable regs → (r.arrive regs).ingress.AlertsReal) ↔
      r.seg.toNat ≤ 95 ∧ ¬(r.xway = 1#8 ∧ r.dir = 1#8 ∧ r.seg = 95#8) := by
  refine ⟨fun h => ?_, fun hcells regs _ => alertsReal_of_hasCells hr hcells regs⟩
  by_cases hxway : r.xway = 1#8
  · have hnot := mt (haunted_alert hr hxway) (not_not.mpr (h _ (.init blank_haunted)))
    obtain ⟨hlt, hlast⟩ := not_or.mp hnot
    exact ⟨by omega, fun hc => hlast ⟨by rw [hc.2.2]; rfl, hc.2.1⟩⟩
  · have hx : r.xway = 0#8 := by
      have hlt := hr.xway
      have hne : r.xway.toNat ≠ 1 := fun he => hxway (BitVec.eq_of_toNat_eq he)
      apply BitVec.eq_of_toNat_eq
      rw [BitVec.toNat_ofNat]
      omega
    refine ⟨?_, fun hc => hxway hc.1⟩
    by_contra hseg
    obtain ⟨v, w, hpair⟩ := exists_pair r.vid
    have hstart : traffic.Reachable .zero := .init blank_zero
    exact wreck_alert hr hx (by omega) hpair (h _ (hstart.run (wreck_allowed hr.dir)))

/-- A third vehicle at the wreck gets an alert. -/
theorem alerts_real_wreck :
    ∃ regs, traffic.Reachable regs ∧
      (PosReport.arrive ⟨0#16, 3#32, 0#8, 1#8, 2#8, 0#8, 0#8⟩ regs).ingress.AlertsReal ∧
      (PosReport.arrive ⟨0#16, 3#32, 0#8, 1#8, 2#8, 0#8, 0#8⟩
        regs).ingress.accidentMeta.hasAccidentAhead = 1#1 := by
  have hstart : traffic.Reachable .zero := .init blank_zero
  have hr := hstart.run (l := wreck 1#32 2#32 0#8) (by decide)
  exact ⟨_, hr, (alerts_real_iff (by decide)).mpr (by decide) _ hr, by decide +kernel⟩

/-- A vehicle in segment 96 of the first expressway is sent to segment 100. -/
theorem alert_beyond_road :
    ¬∀ regs, traffic.Reachable regs → ∀ r, OnRoad r → (r.arrive regs).ingress.AlertsReal := by
  intro h
  have hstart : traffic.Reachable .zero := .init blank_zero
  have hr : OnRoad ⟨0#16, 9#32, 0#8, 0#8, 1#8, 0#8, 96#8⟩ := by decide
  obtain ⟨v, w, hpair⟩ := exists_pair 9#32
  exact wreck_alert hr rfl (by decide) hpair (h _ (hstart.run (wreck_allowed (by decide))) _ hr)

end P4Survey.LinearRoad
