import P4Survey.LinearRoad.Volume

/-! # Stopped vehicles

A vehicle has stopped when its last four reports give the same location. The
registers are zero before the first report, which looks like a report from
location zero, and lanes zero and three share their cells with the neighboring
direction or segment.
-/

namespace P4Survey.LinearRoad
open Lib

structure Loc where
  xway : BitVec 8
  seg : BitVec 8
  dir : BitVec 8
  lane : BitVec 8
  deriving DecidableEq

def PosReport.loc (r : PosReport) : Loc := ⟨r.xway, r.seg, r.dir, r.lane⟩

namespace Loc

def zero : Loc := ⟨0#8, 0#8, 0#8, 0#8⟩

structure Valid (l : Loc) : Prop where
  xway : l.xway.toNat < 2
  seg : l.seg.toNat < 100
  dir : l.dir.toNat < 2
  lane : l.lane.toNat ≤ 3

def cell (l : Loc) : ℕ := stoppedIdx l.xway l.seg l.dir l.lane

/-- The doubled segment does not overflow up to segment 127, past the last one. -/
theorem cell_of_lt {l : Loc} (hxway : l.xway.toNat < 2) (hseg : l.seg.toNat < 128)
    (hdir : l.dir.toNat < 2) (hlane : l.lane.toNat ≤ 3) :
    l.cell = l.xway.toNat * 600 + l.seg.toNat * 6 + l.dir.toNat * 3 + l.lane.toNat := by
  have h₁ : (l.xway.setWidth 16 * 600#16).toNat = l.xway.toNat * 600 := by
    simp only [BitVec.toNat_mul, BitVec.toNat_setWidth, BitVec.toNat_ofNat]
    omega
  have hdouble : (l.seg * 2#8).toNat = l.seg.toNat * 2 := by
    simp only [BitVec.toNat_mul, BitVec.toNat_ofNat]
    omega
  have h₂ : ((l.seg * 2#8).setWidth 16 * 3#16).toNat = l.seg.toNat * 6 := by
    rw [BitVec.toNat_mul, BitVec.toNat_setWidth, hdouble, BitVec.toNat_ofNat]
    omega
  have h₃ : (l.dir.setWidth 16 * 3#16).toNat = l.dir.toNat * 3 := by
    simp only [BitVec.toNat_mul, BitVec.toNat_setWidth, BitVec.toNat_ofNat]
    omega
  have h₄ : (l.lane.setWidth 16).toNat = l.lane.toNat := by
    simp only [BitVec.toNat_setWidth]
    omega
  rw [cell, stoppedIdx, BitVec.toNat_add, BitVec.toNat_add, BitVec.toNat_add, h₁, h₂, h₃, h₄]
  omega

theorem cell_eq {l : Loc} (h : l.Valid) :
    l.cell = l.xway.toNat * 600 + l.seg.toNat * 6 + l.dir.toNat * 3 + l.lane.toNat :=
  cell_of_lt h.xway (h.seg.trans (by decide)) h.dir h.lane

/-- The locations that share their cell with no other one. -/
def OwnCell (l : Loc) : Prop := l.lane = 1#8 ∨ l.lane = 2#8 ∨ l = zero

instance (l : Loc) : Decidable l.OwnCell := inferInstanceAs (Decidable (_ ∨ _))

theorem zero_valid : zero.Valid := ⟨by decide, by decide, by decide, by decide⟩

theorem OwnCell.cell_lt {l : Loc} (hown : l.OwnCell) (h : l.Valid) : l.cell < 1200 := by
  have hxway := h.xway
  have hseg := h.seg
  have hdir := h.dir
  rw [cell_eq h]
  rcases hown with hl | hl | rfl
  · rw [hl, BitVec.toNat_ofNat]
    omega
  · rw [hl, BitVec.toNat_ofNat]
    omega
  · decide

theorem OwnCell.inj {l l' : Loc} (hown : l.OwnCell) (h : l.Valid) (h' : l'.Valid)
    (hcell : l.cell = l'.cell) : l = l' := by
  have hlane := h'.lane
  have hdir := h.dir
  have hdir' := h'.dir
  have hseg := h.seg
  have hseg' := h'.seg
  rw [cell_eq h, cell_eq h'] at hcell
  obtain ⟨x, s, d, ln⟩ := l
  obtain ⟨x', s', d', ln'⟩ := l'
  dsimp only at *
  have hall : x.toNat = x'.toNat ∧ s.toNat = s'.toNat ∧ d.toNat = d'.toNat ∧
      ln.toNat = ln'.toNat := by
    rcases hown with hl | hl | hl
    · simp only at hl
      rw [hl, BitVec.toNat_ofNat] at hcell ⊢
      omega
    · simp only at hl
      rw [hl, BitVec.toNat_ofNat] at hcell ⊢
      omega
    · simp only [zero, mk.injEq] at hl
      obtain ⟨rfl, rfl, rfl, rfl⟩ := hl
      simp only [BitVec.toNat_ofNat] at hcell ⊢
      omega
  obtain ⟨hx, hs, hd, hln⟩ := hall
  rw [BitVec.eq_of_toNat_eq hx, BitVec.eq_of_toNat_eq hs, BitVec.eq_of_toNat_eq hd,
    BitVec.eq_of_toNat_eq hln]

end Loc

/-- The location that the registers of a vehicle have. -/
def here : List PosReport → Loc
  | [] => .zero
  | r :: _ => r.loc

/-- The counter of reports without a move. -/
def streak : List PosReport → ℕ
  | [] => 0
  | r :: rest => if r.loc = here rest then min 3 (streak rest + 1) else 0

/-- The last four reports are from this location. -/
def Halted (l : Loc) (t : List PosReport) : Prop := (t.take 4).map PosReport.loc = List.replicate 4 l

instance (l : Loc) : DecidablePred (Halted l) := fun _ => inferInstanceAs (Decidable (_ = _))

/-- The vehicle is counted in the cell. -/
def StoppedIn (c : ℕ) (t : List PosReport) : Prop := streak t = 3 ∧ (here t).cell = c

instance (c : ℕ) : DecidablePred (StoppedIn c) := fun _ => inferInstanceAs (Decidable (_ ∧ _))

section Streaks

theorem streak_le (t : List PosReport) : streak t ≤ 3 := by
  cases t with
  | nil => exact Nat.zero_le _
  | cons r rest =>
    rw [streak]
    split_ifs
    · exact min_le_left _ _
    · exact Nat.zero_le _

/-- A counter above zero is one of a vehicle that has not moved. -/
theorem loc_eq_here (r : PosReport) (rest : List PosReport) (h : 0 < streak (r :: rest)) :
    r.loc = here rest := by
  by_contra hne
  rw [streak, if_neg hne] at h
  exact absurd h (lt_irrefl 0)

theorem Halted.streak {l : Loc} {t : List PosReport} (h : Halted l t) :
    streak t = 3 ∧ here t = l := by
  match t, h with
  | r₁ :: r₂ :: r₃ :: r₄ :: rest, h =>
    simp only [Halted, List.take_succ_cons, List.take_zero, List.map_cons, List.map_nil,
      List.replicate_succ, List.replicate_zero, List.cons.injEq, and_true] at h
    obtain ⟨h₁, h₂, h₃, h₄⟩ := h
    refine ⟨?_, h₁⟩
    simp only [LinearRoad.streak, here, h₁, h₂, h₃, h₄, if_true]
    omega
  | [], h => simp [Halted] at h
  | [_], h => simp [Halted, List.replicate_succ] at h
  | [_, _], h => simp [Halted, List.replicate_succ] at h
  | [_, _, _], h => simp [Halted, List.replicate_succ] at h

end Streaks

section Registers

variable {s : Roads} {r : PosReport}

/-- The reports give lanes up to three. -/
def lanes : System Roads PosReport := roads.restrict fun _ r => r.lane.toNat ≤ 3

theorem here_valid {s : Roads} (hs : Placed s) (hlane : ∀ v, ∀ r ∈ s.trips v, r.lane.toNat ≤ 3)
    (v : ℕ) : (here (s.trips v)).Valid := by
  cases htrips : s.trips v with
  | nil => exact Loc.zero_valid
  | cons r rest =>
    have hmem : r ∈ s.trips v := by
      rw [htrips]
      exact List.mem_cons_self
    have hvalid := hs.valid v r hmem
    exact ⟨hvalid.xway, hvalid.seg, hvalid.dir, hlane v r hmem⟩

/-- The registers of a vehicle have its location, with the direction in one bit and the lane in
three. -/
theorem Regs.Holds.here {regs : Regs} {v : ℕ} {t : List PosReport} (h : regs.Holds v t) :
    regs.vXway.read v = (here t).xway ∧ regs.vSeg.read v = (here t).seg ∧
      regs.vDir.read v = (here t).dir.setWidth 1 ∧ regs.vLane.read v = (here t).lane.setWidth 3 := by
  cases t with
  | nil => exact ⟨h.2.1, h.2.2.1, h.2.2.2.1, h.2.2.2.2⟩
  | cons r rest => exact ⟨h.2.1, h.2.2.1, h.2.2.2.1, h.2.2.2.2⟩

theorem setWidth_lane {lane : BitVec 8} (h : lane.toNat ≤ 3) : (lane.setWidth 3).setWidth 8 = lane := by
  apply BitVec.eq_of_toNat_eq
  simp only [BitVec.toNat_setWidth]
  omega

theorem stoppedIdx_setWidth {l : Loc} (h : l.Valid) :
    stoppedIdx l.xway l.seg (l.dir.setWidth 1) (l.lane.setWidth 3) = l.cell := by
  have hdir : (l.dir.setWidth 1).setWidth 16 = l.dir.setWidth 16 := by
    have hlt := h.dir
    apply BitVec.eq_of_toNat_eq
    simp only [BitVec.toNat_setWidth]
    omega
  have hlane : (l.lane.setWidth 3).setWidth 16 = l.lane.setWidth 16 := by
    have hle := h.lane
    apply BitVec.eq_of_toNat_eq
    simp only [BitVec.toNat_setWidth]
    omega
  rw [stoppedIdx, hdir, hlane]
  rfl

theorem stays_iff {regs : Regs} {t : List PosReport} (hholds : regs.Holds r.vid.toNat t)
    (hvalid : (here t).Valid) : regs.Stays r ↔ r.loc = here t := by
  obtain ⟨hx, hs, hd, hl⟩ := hholds.here
  unfold Regs.Stays
  rw [hx, hs, hd, hl, setWidth_dir hvalid.dir, setWidth_lane hvalid.lane]
  constructor
  · rintro ⟨h₁, h₂, h₃, h₄⟩
    rw [PosReport.loc, h₁, h₂, h₃, h₄]
  · intro h
    rw [← h]
    exact ⟨rfl, rfl, rfl, rfl⟩

/-- The counter of a vehicle saturates at three. -/
theorem nomove_eq {regs : Regs} {t : List PosReport} (hholds : regs.Holds r.vid.toNat t)
    (hvalid : (here t).Valid) (hcnt : (regs.vNomoveCnt.read r.vid.toNat).toNat = streak t) :
    (regs.nomove r).toNat = streak (r :: t) := by
  have hsat : ∀ b : BitVec 3, b.toNat ≤ 3 →
      (b + 1#3 - ((b + 1#3 &&& 4#3) >>> 2)).toNat = min 3 (b.toNat + 1) := by decide
  rw [streak]
  by_cases hstays : r.loc = here t
  · rw [Regs.nomove, if_pos ((stays_iff hholds hvalid).mpr hstays), if_pos hstays,
      hsat _ (hcnt.trans_le (streak_le t)), hcnt]
  · rw [Regs.nomove, if_neg fun h => hstays ((stays_iff hholds hvalid).mp h), if_neg hstays]
    rfl

theorem counter_iff {b : BitVec 3} {n : ℕ} (hb : b.toNat = n) (hn : n ≤ 3) :
    (b = 3#3 ↔ n = 3) ∧ (b < 3#3 ↔ n ≠ 3) := by
  subst hb
  rw [← BitVec.toNat_inj, BitVec.lt_def, BitVec.toNat_ofNat]
  omega

/-- The registers count the vehicles that have not moved for three reports, by cells. -/
structure Watched (s : Roads) : Prop extends Placed s where
  lane : ∀ v, ∀ r ∈ s.trips v, r.lane.toNat ≤ 3
  nomove : ∀ v < 512, (s.regs.vNomoveCnt.read v).toNat = streak (s.trips v)
  stopped : ∀ c < 1200, s.regs.stoppedCnt.read c = .ofNat 8 (census vehicles s.trips (StoppedIn c))

theorem Watched.start : Watched .start where
  toPlaced := .start
  lane v r hr := by cases hr
  nomove v _ := congrArg BitVec.toNat (OpenRegister.read_fill_zero _)
  stopped c _ := by
    rw [census_eq_zero fun v _ h => absurd h.1 (show ¬0 = 3 by decide)]
    exact OpenRegister.read_fill_zero _

/-- The counts of the cells after a report. -/
theorem Watched.stoppedCnt (hs : Watched s) (hr : r.Valid) {c : ℕ} (hc : c < 1200) :
    (s.regs.process r).stoppedCnt.read c =
      .ofNat 8 (census vehicles (s.report r).trips (StoppedIn c)) := by
  have hholds := hs.holds _ hr.vid
  have hvalid := here_valid hs.toPlaced hs.lane r.vid.toNat
  have hprev := hs.nomove _ hr.vid
  have hcnt := nomove_eq hholds hvalid hprev
  have hcell : stoppedIdx (s.regs.vXway.read r.vid.toNat) (s.regs.vSeg.read r.vid.toNat)
      (s.regs.vDir.read r.vid.toNat) (s.regs.vLane.read r.vid.toNat) =
      (here (s.trips r.vid.toNat)).cell := by
    obtain ⟨hx, hseg, hd, hl⟩ := hholds.here
    rw [hx, hseg, hd, hl]
    exact stoppedIdx_setWidth hvalid
  have hread := hs.stopped c hc
  have hmem : r.vid.toNat ∈ vehicles := Finset.mem_range.mpr hr.vid
  obtain ⟨t, ht⟩ : ∃ t, t = s.trips r.vid.toNat := ⟨_, rfl⟩
  have hcensus : census vehicles (s.report r).trips (StoppedIn c) +
      (if StoppedIn c t then 1 else 0) = census vehicles s.trips (StoppedIn c) +
        if StoppedIn c (r :: t) then 1 else 0 := by
    rw [ht]
    exact census_update hmem _
  generalize census vehicles (s.report r).trips (StoppedIn c) = after at hcensus ⊢
  generalize census vehicles s.trips (StoppedIn c) = before at hcensus hread
  obtain ⟨hprev3, hprevlt⟩ := counter_iff (hprev.trans (congrArg streak ht.symm)) (streak_le t)
  obtain ⟨hcnt3, hcntlt⟩ := counter_iff (hcnt.trans (congrArg (fun t => streak (r :: t)) ht.symm))
    (streak_le (r :: t))
  have hrun := (process_stops s.regs r).2
  rw [hrun, hcell, ← ht]
  simp only [hprev3, hcnt3, hprevlt, hcntlt]
  by_cases h3 : streak t = 3
  · rw [if_neg (fun h => h.1 h3)]
    by_cases h3' : streak (r :: t) = 3
    · -- a stopped vehicle stays where it is
      have hsame : StoppedIn c t ↔ StoppedIn c (r :: t) := by
        have hloc := loc_eq_here r t (by omega)
        simp only [StoppedIn, h3, h3', true_and, ← hloc]
        rfl
      simp only [hsame] at hcensus
      rw [if_neg (fun h => h.2 h3'), hread]
      congr 1
      omega
    · rw [if_neg fun h : StoppedIn c (r :: t) => h3' h.1, Nat.add_zero] at hcensus
      rw [if_pos ⟨h3, h3'⟩]
      exact read_decAt_count _ hc hread ⟨fun h => ⟨h3, h⟩, fun h => h.2⟩ hcensus
  · rw [if_neg fun h : StoppedIn c t => h3 h.1, Nat.add_zero] at hcensus
    by_cases h3' : streak (r :: t) = 3
    · rw [if_pos ⟨h3, h3'⟩, if_neg fun h => h3 h.1]
      have hidx : stoppedIdx r.xway r.seg r.dir r.lane = c ↔ StoppedIn c (r :: t) :=
        ⟨fun h => ⟨h3', h⟩, fun h => h.2⟩
      exact read_incAt_count _ hc hread hidx hcensus
    · rw [if_neg fun h : StoppedIn c (r :: t) => h3' h.1] at hcensus
      rw [if_neg fun h => h3' h.2, if_neg fun h => h3 h.1, hread, hcensus, Nat.add_zero]

theorem Watched.report (hs : Watched s) (hr : r.Valid) (hlane : r.lane.toNat ≤ 3) :
    Watched (s.report r) := by
  refine ⟨hs.toPlaced.report hr, ?_, ?_, fun c hc => hs.stoppedCnt hr hc⟩
  · apply Roads.forall_trips_report (P := fun t => ∀ r ∈ t, r.lane.toNat ≤ 3) hs.lane
    exact List.forall_mem_cons.mpr ⟨hlane, hs.lane _⟩
  · intro v hv
    change ((s.regs.process r).vNomoveCnt.read v).toNat = _
    rw [(process_stops s.regs r).1]
    by_cases h : r.vid.toNat = v
    · subst v
      rw [OpenRegister.read_write_self _ hv, s.trips_report_self]
      exact nomove_eq (hs.holds _ hv) (here_valid hs.toPlaced hs.lane _) (hs.nomove _ hv)
    · rw [OpenRegister.read_write_of_ne _ h, s.trips_report_of_ne h]
      exact hs.nomove v hv

end Registers

/-- The number of vehicles that have stopped at a location. -/
def Roads.halted (s : Roads) (l : Loc) : ℕ := census vehicles s.trips (Halted l)

/-- No vehicle stops at a location that shares its cell, no vehicle gives location zero in its
first three reports, and no vehicle comes to a location where 255 have stopped already. -/
structure Countable (s : Roads) (r : PosReport) : Prop where
  own : Halted r.loc (r :: s.trips r.vid.toNat) → r.loc.OwnCell
  first : (r :: s.trips r.vid.toNat).map PosReport.loc ≠ List.replicate 3 .zero
  few : Halted r.loc (r :: s.trips r.vid.toNat) → ¬Halted r.loc (s.trips r.vid.toNat) →
    s.halted r.loc < 255

instance (s : Roads) (r : PosReport) : Decidable (Countable s r) :=
  decidable_of_iff ((Halted r.loc (r :: s.trips r.vid.toNat) → r.loc.OwnCell) ∧
      (r :: s.trips r.vid.toNat).map PosReport.loc ≠ List.replicate 3 .zero ∧
      (Halted r.loc (r :: s.trips r.vid.toNat) → ¬Halted r.loc (s.trips r.vid.toNat) →
        s.halted r.loc < 255))
    ⟨fun ⟨h, h', h''⟩ => ⟨h, h', h''⟩, fun h => ⟨h.own, h.first, h.few⟩⟩

/-- The vehicles that have stopped in such a run. -/
structure Orderly (s : Roads) : Prop extends Watched s where
  closed : s.regs.stoppedCnt.outside = fun _ => 0#8
  own : ∀ v l, Halted l (s.trips v) → l.OwnCell
  first : ∀ v, (s.trips v).map PosReport.loc ≠ List.replicate 3 .zero
  few : ∀ l, s.halted l ≤ 255

theorem not_halted_nil (l : Loc) : ¬Halted l [] := by
  intro h
  simp [Halted] at h

theorem Orderly.start : Orderly .start where
  toWatched := .start
  closed := rfl
  own v l h := absurd h (not_halted_nil l)
  first v := by simp [Roads.start, List.replicate_succ]
  few l := by
    have hzero : Roads.start.halted l = 0 :=
      census_eq_zero fun v _ h => absurd h (not_halted_nil l)
    rw [hzero]
    exact Nat.zero_le _

theorem Halted.loc_eq {l : Loc} {r : PosReport} {t : List PosReport} (h : Halted l (r :: t)) :
    r.loc = l := h.streak.2

theorem Orderly.report {s : Roads} {r : PosReport} (hs : Orderly s) (hr : r.Valid)
    (hlane : r.lane.toNat ≤ 3) (hok : Countable s r) : Orderly (s.report r) := by
  refine ⟨hs.toWatched.report hr hlane, (process_outside s.regs r).trans hs.closed, ?_, ?_, ?_⟩
  · apply Roads.forall_trips_report (P := fun t => ∀ l, Halted l t → l.OwnCell) hs.own
    intro l hl
    have hloc := hl.loc_eq
    subst hloc
    exact hok.own hl
  · exact Roads.forall_trips_report (P := fun t => t.map PosReport.loc ≠ List.replicate 3 .zero)
      hs.first hok.first
  · intro l
    have hfew := hs.few l
    have hcensus : (s.report r).halted l + (if Halted l (s.trips r.vid.toNat) then 1 else 0) =
        s.halted l + if Halted l (r :: s.trips r.vid.toNat) then 1 else 0 :=
      census_update (Finset.mem_range.mpr hr.vid) _
    by_cases hnew : Halted l (r :: s.trips r.vid.toNat)
    · by_cases hold : Halted l (s.trips r.vid.toNat)
      · rw [if_pos hnew, if_pos hold] at hcensus
        omega
      · rw [if_pos hnew, if_neg hold] at hcensus
        have hl := hnew.loc_eq
        subst hl
        have hlt := hok.few hnew hold
        omega
    · rw [if_neg hnew] at hcensus
      split_ifs at hcensus <;> omega

theorem Orderly.reachable {s : Roads} (h : (lanes.restrict Countable).Reachable s) : Orderly s := by
  induction h with
  | init h =>
    rw [show _ = Roads.start from h]
    exact .start
  | step _ hstep ih =>
    obtain ⟨⟨hvalid, hlane⟩, hok⟩ := hstep
    exact ih.report hvalid hlane hok

end P4Survey.LinearRoad
