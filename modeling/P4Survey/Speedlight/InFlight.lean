import P4Survey.Lib.System
import P4Survey.Speedlight.ChannelState
import P4Survey.Speedlight.Cut

/-! # Packets in flight

One ingress unit of `Pkt_WC.p4`, with the packets that have come to it. The value
of the snapshot that is being taken is what the unit had counted when it moved
there, and one more for each packet that its neighbor sent before.
-/

namespace P4Survey.Speedlight
open Lib

/-- A packet at the unit, with the identifiers the unit held before and after it. -/
structure Arrival where
  feature : BitVec 2
  snapshotId : BitVec 16
  before : BitVec 16
  after : BitVec 16

/-- The packet is from the neighbor and older than snapshot `c`. -/
def Arrival.IsLate (c : BitVec 16) (e : Arrival) : Prop := e.feature = 1#2 ∧ e.snapshotId < c

instance (c : BitVec 16) : DecidablePred (Arrival.IsLate c) :=
  fun _ => inferInstanceAs (Decidable (_ ∧ _))

/-- The last identifier over a channel. The packets are listed from the last one on. -/
def lastId : List Arrival → BitVec 2 → BitVec 16
  | [], _ => 0#16
  | e :: log, feature => if e.feature = feature then e.snapshotId else lastId log feature

structure IngressUnit (C : Config) where
  regs : Regs C C.neighborsIng
  log : List Arrival

namespace IngressUnit

variable {C : Config}

def start (C : Config) : IngressUnit C := ⟨.zero C _, []⟩

def arriving (s : IngressUnit C) (port : BitVec 9) (h : Headers) (forward : BitVec 9) : IngressC C :=
  ⟨⟨s.regs, h, default, default, port, forward, 0#9, [], false⟩, default, none, []⟩

def receive (s : IngressUnit C) (port : BitVec 9) (h : Headers) (forward : BitVec 9) :
    IngressUnit C :=
  let y := (s.arriving port h forward).ingressWC
  ⟨y.pass.regs, ⟨h.feature, h.snapshotHeader.snapshotId, s.regs.heldId (h.unitPort port),
    y.pass.regs.heldId (h.unitPort port)⟩ :: s.log⟩

end IngressUnit

structure UnitLabel where
  port : BitVec 9
  hdr : Headers
  forward : BitVec 9

/-- The packets are those of one unit. Identifiers are below the number of snapshots and do not
decrease on a channel. -/
def ingressUnit (C : Config) (p : BitVec 9) : System (IngressUnit C) UnitLabel where
  init s := s = .start C
  enabled s a := a.hdr.Framed ∧ a.hdr.unitPort a.port = p ∧ (a.hdr.feature ≠ 0#2 →
    a.hdr.snapshotHeader.snapshotId.toNat < C.snapshots ∧
      lastId s.log a.hdr.feature ≤ a.hdr.snapshotHeader.snapshotId)
  next s a := s.receive a.port a.hdr a.forward

section Index

variable {C : Config} {p : BitVec 9} {feature feature' : BitVec 2} {i i' : ℕ}

theorem tiLastSeenIndex_some (h : Pass.tiLastSeenIndex C p feature = some i) :
    ∃ q, ((List.range' 1 C.ports).find? fun q => q % 256 = p.toNat % 256) = some q ∧
      (feature = 2#2 ∧ i = (q - 1) * 2 ∨ feature = 1#2 ∧ i = (q - 1) * 2 + 1) := by
  unfold Pass.tiLastSeenIndex at h
  split_ifs at h with hfeature
  obtain ⟨q, hq, rfl⟩ := Option.map_eq_some_iff.mp h
  refine ⟨q, hq, ?_⟩
  rcases hfeature with rfl | rfl
  · exact .inl ⟨rfl, rfl⟩
  · exact .inr ⟨rfl, rfl⟩

theorem tiLastSeenIndex_lt (h : Pass.tiLastSeenIndex C p feature = some i) : i < C.neighborsIng := by
  obtain ⟨q, hq, hi⟩ := tiLastSeenIndex_some h
  have hmem := List.mem_range'.mp (List.mem_of_find?_eq_some hq)
  unfold Config.neighborsIng
  obtain ⟨j, hj, rfl⟩ := hmem
  rcases hi with ⟨-, rfl⟩ | ⟨-, rfl⟩
  · omega
  · omega

/-- The two channels of a unit have different cells. -/
theorem tiLastSeenIndex_ne (h : Pass.tiLastSeenIndex C p feature = some i)
    (h' : Pass.tiLastSeenIndex C p feature' = some i') (hne : feature ≠ feature') : i ≠ i' := by
  obtain ⟨q, hq, hi⟩ := tiLastSeenIndex_some h
  obtain ⟨q', hq', hi'⟩ := tiLastSeenIndex_some h'
  have he : q = q' := Option.some.inj (hq.symm.trans hq')
  subst q'
  rcases hi with ⟨rfl, rfl⟩ | ⟨rfl, rfl⟩
  · rcases hi' with ⟨rfl, rfl⟩ | ⟨rfl, rfl⟩
    · exact absurd rfl hne
    · omega
  · rcases hi' with ⟨rfl, rfl⟩ | ⟨rfl, rfl⟩
    · omega
    · exact absurd rfl hne

theorem exists_tiLastSeenIndex (hp : C.HasPort p) (hfeature : feature = 1#2 ∨ feature = 2#2) :
    ∃ i, Pass.tiLastSeenIndex C p feature = some i := by
  have hsome : ((List.range' 1 C.ports).find? fun q => q % 256 = p.toNat % 256).isSome := by
    rw [List.find?_isSome]
    have hpos := hp.1
    have hle := hp.2
    exact ⟨p.toNat, List.mem_range'.mpr ⟨p.toNat - 1, by omega, by omega⟩, by simp⟩
  obtain ⟨q, hq⟩ := Option.isSome_iff_exists.mp hsome
  refine ⟨Config.lastSeenIng feature q, ?_⟩
  rw [Pass.tiLastSeenIndex, if_pos hfeature.symm, hq]
  rfl

end Index

/-- Where nothing has wrapped, the comparison is the plain one. -/
theorem wrapCase_of_le {seen held packet : ℕ} (hpacket : seen ≤ packet) (hheld : seen ≤ held) :
    Pass.wrapCase seen held packet = caseOf held packet := by
  rw [Pass.wrapCase, if_neg (Nat.not_lt.mpr hpacket), Pass.noRolloverCase,
    if_neg (Nat.not_lt.mpr hheld)]

variable {C : Config} {p : BitVec 9}

/-- What the value of snapshot `c` has to be. -/
def Accounts (log : List Arrival) (c : BitVec 16) (value : BitVec 32) : Prop :=
  ∃ later moved earlier, log = later ++ moved :: earlier ∧ moved.before < moved.after ∧
    moved.after = c ∧ (∀ e ∈ later, e.before = c ∧ e.after = c) ∧
    value = .ofNat 32 (earlier.length + later.countP (·.IsLate c))

/-- A packet at a unit that stays where it is. -/
theorem Accounts.cons {log : List Arrival} {c : BitVec 16} {value : BitVec 32} {e : Arrival}
    (h : Accounts log c value) (hbefore : e.before = c) (hafter : e.after = c) :
    Accounts (e :: log) c (if e.IsLate c then value + 1#32 else value) := by
  obtain ⟨later, moved, earlier, rfl, hmove, hc, hlater, rfl⟩ := h
  refine ⟨e :: later, moved, earlier, rfl, hmove, hc, ?_, ?_⟩
  · intro e' he'
    rcases List.mem_cons.mp he' with rfl | he'
    · exact ⟨hbefore, hafter⟩
    · exact hlater e' he'
  · rw [List.countP_cons]
    by_cases hlate : e.IsLate c
    · rw [if_pos hlate, if_pos (decide_eq_true hlate), ← Nat.add_assoc]
      exact (BitVec.ofNat_add _ 1).symm
    · rw [if_neg hlate, if_neg (by simpa using hlate)]
      rfl

/-- The registers of the unit and the packets that have come to it. -/
structure Recorded (p : BitVec 9) (s : IngressUnit C) : Prop where
  counter : s.regs.counter.read p.toNat = .ofNat 32 s.log.length
  lastSeen : ∀ feature i, Pass.tiLastSeenIndex C p feature = some i →
    s.regs.lastSeen.read i = lastId s.log feature ∧ lastId s.log feature ≤ s.regs.heldId p
  bounded : s.regs.heldId p ≠ 0#16 → (s.regs.heldId p).toNat < C.snapshots
  value : s.regs.heldId p ≠ 0#16 →
    Accounts s.log (s.regs.heldId p) (s.regs.saved p (s.regs.heldId p))

theorem Recorded.start : Recorded p (.start C) where
  counter := Register.read_fill_zero _
  lastSeen feature i _ := by
    refine ⟨Register.read_fill_zero _, ?_⟩
    exact Nat.zero_le _
  bounded h := absurd (Register.read_fill_zero _) h
  value h := absurd (Register.read_fill_zero _) h

section Receive

variable {s : IngressUnit C} {port : BitVec 9} {h : Headers} {forward : BitVec 9}

theorem Recorded.host (hs : Recorded p s) (hp : C.HasPort p) (hf : h.Framed)
    (hport : h.unitPort port = p) (hfeature : h.feature = 0#2) :
    Recorded p (s.receive port h forward) := by
  have hrun := ingressWC_host (x := s.arriving port h forward) hf rfl (hport ▸ hp) hfeature
  obtain ⟨y, hy⟩ : ∃ y, y = (s.arriving port h forward).ingressWC := ⟨_, rfl⟩
  have hregs : y.pass.regs = { s.regs with
      counter := s.regs.counter.write p.toNat (s.regs.counter.read p.toNat + 1#32) } := by
    rw [hy, hrun, ← hport]
    exact ciForward_regs _
  have hheld : y.pass.regs.heldId p = s.regs.heldId p := by
    rw [hregs]
    rfl
  have hstate : s.receive port h forward = ⟨y.pass.regs, ⟨h.feature, h.snapshotHeader.snapshotId,
      s.regs.heldId p, s.regs.heldId p⟩ :: s.log⟩ := by
    rw [IngressUnit.receive, ← hy, hport, hheld]
  rw [hstate]
  constructor
  · dsimp only
    rw [hregs, List.length_cons, BitVec.ofNat_add, ← hs.counter]
    exact Register.read_write_self _ (Nat.lt_succ_of_le hp.2) _
  · intro feature i hi
    have hne : h.feature ≠ feature := by
      rw [hfeature]
      obtain ⟨q, -, ⟨rfl, -⟩ | ⟨rfl, -⟩⟩ := tiLastSeenIndex_some hi
      · decide
      · decide
    dsimp only
    rw [hheld, lastId, if_neg hne, hregs]
    exact hs.lastSeen feature i hi
  · dsimp only
    rw [hheld]
    exact hs.bounded
  · intro h0
    dsimp only at h0 ⊢
    rw [hheld] at h0 ⊢
    have haccounts := (hs.value h0).cons
      (e := ⟨h.feature, h.snapshotHeader.snapshotId, s.regs.heldId p, s.regs.heldId p⟩) rfl rfl
    have hlate : ¬Arrival.IsLate (s.regs.heldId p)
        ⟨h.feature, h.snapshotHeader.snapshotId, s.regs.heldId p, s.regs.heldId p⟩ := by
      rintro ⟨h1, -⟩
      rw [hfeature] at h1
      cases h1
    rw [if_neg hlate] at haccounts
    rw [hregs]
    exact haccounts

/-- The value cell of the snapshot the unit is in, after a packet with an identifier. -/
theorem saved_nextValue (hp : C.HasPort p) {x : Ingress C} (hport : x.md.effectivePort = p)
    (hid : x.hdr.snapshotHeader.snapshotId.toNat < C.snapshots)
    (hheld : x.regs.heldId p ≠ 0#16 → (x.regs.heldId p).toNat < C.snapshots) :
    (x.nextValue 1#2).read (valueIndex C x.hdr.snapshotHeader.snapshotId p) =
        x.md.currentReading ∧
      x.nextValue 0#2 = x.regs.snapshotValue ∧
      (x.regs.heldId p ≠ 0#16 → (x.nextValue 2#2).read (valueIndex C (x.regs.heldId p) p) =
        if x.md.snapshotFeature = 2#2 then x.regs.saved p (x.regs.heldId p)
        else x.regs.saved p (x.regs.heldId p) + 1#32) := by
  subst hport
  unfold Pass.nextValue
  refine ⟨?_, ?_, ?_⟩
  · dsimp only
    rw [if_neg (by simp), if_pos ⟨rfl, hid.le, hp⟩]
    exact Register.read_write_self _ (Regs.valueIndex_lt hp hid) _
  · simp
  · intro hne
    have hlt := hheld hne
    dsimp only
    by_cases h2 : x.md.snapshotFeature = 2#2
    · rw [if_pos ⟨rfl, h2⟩, if_pos h2]
      rfl
    · rw [if_neg fun h => h2 h.2, if_neg (by simp), if_pos ⟨rfl, hlt.le, hp⟩, if_neg h2]
      exact Register.read_write_self _ (Regs.valueIndex_lt hp hlt) _

/-- The value of the snapshot the unit is in after a packet with an identifier. -/
theorem Recorded.accounts (hs : Recorded p s) (hp : C.HasPort p) (hport : h.unitPort port = p)
    (hfeature : h.feature ≠ 0#2) (hid : h.snapshotHeader.snapshotId.toNat < C.snapshots)
    {x : Ingress C} {i : ℕ} (hx : x = (s.arriving port h forward).pass.seenAt i)
    {c : BitVec 2} (hc : c = caseOf (s.regs.heldId p).toNat h.snapshotHeader.snapshotId.toNat)
    {held : BitVec 16}
    (hheld : held = if c = 1#2 then h.snapshotHeader.snapshotId else s.regs.heldId p)
    (hne : held ≠ 0#16) :
    Accounts (⟨h.feature, h.snapshotHeader.snapshotId, s.regs.heldId p, held⟩ :: s.log) held
      ((x.nextValue c).read (valueIndex C held p)) := by
  have hxport : x.md.effectivePort = p := by
    rw [hx]
    exact hport
  have hreading : x.md.currentReading = s.regs.counter.read p.toNat := by
    rw [hx, ← hport]
    rfl
  obtain ⟨hnew, hsame, hlate⟩ := saved_nextValue hp hxport (by rw [hx]; exact hid)
    (by rw [hx]; exact hs.bounded)
  -- the unit moves, or it stays and the packet has its identifier or an older one
  rcases Nat.lt_trichotomy (s.regs.heldId p).toNat h.snapshotHeader.snapshotId.toNat with
    hlt | heq | hgt
  · have h1 : c = 1#2 := hc.trans (caseOf_of_lt hlt)
    rw [if_pos h1] at hheld
    subst h1 hheld
    refine ⟨[], _, s.log, rfl, hlt, rfl, by simp, ?_⟩
    rw [List.countP_nil, Nat.add_zero, ← hs.counter, ← hreading, ← hnew, hx]
    rfl
  · have h0 : c = 0#2 := by
      rw [hc, heq, caseOf, if_pos rfl]
    rw [if_neg (by rw [h0]; decide)] at hheld
    subst h0 hheld
    have haccounts := (hs.value hne).cons (e := ⟨h.feature, h.snapshotHeader.snapshotId,
      s.regs.heldId p, s.regs.heldId p⟩) rfl rfl
    rw [if_neg fun hl => absurd hl.2 (by rw [BitVec.lt_def, heq]; exact lt_irrefl _)] at haccounts
    rw [hsame, hx]
    exact haccounts
  · have h2 : c = 2#2 := hc.trans (caseOf_of_gt hgt)
    rw [if_neg (by rw [h2]; decide)] at hheld
    subst h2 hheld
    have haccounts := (hs.value hne).cons (e := ⟨h.feature, h.snapshotHeader.snapshotId,
      s.regs.heldId p, s.regs.heldId p⟩) rfl rfl
    have hread : (x.nextValue 2#2).read (valueIndex C (s.regs.heldId p) p) =
        if h.feature = 2#2 then s.regs.saved p (s.regs.heldId p)
        else s.regs.saved p (s.regs.heldId p) + 1#32 := by
      rw [hx] at hlate ⊢
      exact hlate hne
    rw [hread]
    by_cases hinit : h.feature = 2#2
    · rw [if_neg fun hl => absurd (hl.1.symm.trans hinit) (by decide)] at haccounts
      rw [if_pos hinit]
      exact haccounts
    · have h1 : h.feature = 1#2 := (h.feature_cases.resolve_left hfeature).resolve_right hinit
      rw [if_pos ⟨h1, hgt⟩] at haccounts
      rw [if_neg hinit]
      exact haccounts

theorem Recorded.header (hs : Recorded p s) (hp : C.HasPort p) (hf : h.Framed)
    (hport : h.unitPort port = p) (hfeature : h.feature ≠ 0#2)
    (hid : h.snapshotHeader.snapshotId.toNat < C.snapshots)
    (hlast : lastId s.log h.feature ≤ h.snapshotHeader.snapshotId) :
    Recorded p (s.receive port h forward) := by
  obtain ⟨i, hi⟩ := exists_tiLastSeenIndex hp (h.feature_cases.resolve_left hfeature)
  obtain ⟨y, hy⟩ : ∃ y, y = (s.arriving port h forward).ingressWC := ⟨_, rfl⟩
  obtain ⟨x, hx⟩ : ∃ x, x = (s.arriving port h forward).pass.seenAt i := ⟨_, rfl⟩
  obtain ⟨c, hc⟩ : ∃ c, c = caseOf (s.regs.heldId p).toNat h.snapshotHeader.snapshotId.toNat :=
    ⟨_, rfl⟩
  obtain ⟨hseen, hle⟩ := hs.lastSeen _ i hi
  have henters : Enters (s.arriving port h forward) y i c := by
    have hcase : Pass.wrapCase (s.regs.lastSeen.read i).toNat (s.regs.heldId p).toNat
        h.snapshotHeader.snapshotId.toNat = c := by
      rw [hc, hseen]
      exact wrapCase_of_le hlast hle
    have henters := ingressWC_header (x := s.arriving port h forward) hf rfl (hport ▸ hp) hfeature
      (hport ▸ hi)
    rw [← hy] at henters
    change Enters _ y i (Pass.wrapCase (s.regs.lastSeen.read i).toNat
      (s.regs.heldId (h.unitPort port)).toNat h.snapshotHeader.snapshotId.toNat) at henters
    rw [hport, hcase] at henters
    exact henters
  have hupdates : Pass.Updates s.regs y.pass.regs i p h.snapshotHeader.snapshotId c := by
    rw [← hport]
    exact henters.updates
  have hheld := heldId_of_updates hp hupdates
  have hrun : s.receive port h forward = ⟨y.pass.regs, ⟨h.feature, h.snapshotHeader.snapshotId,
      s.regs.heldId p, y.pass.regs.heldId p⟩ :: s.log⟩ := by
    rw [hy, ← hport]
    rfl
  have hsaved : ∀ c', y.pass.regs.saved p c' = (x.nextValue c).read (valueIndex C c' p) := by
    intro c'
    rw [Regs.saved, henters.snapshotValue, hx]
  rw [hrun]
  constructor
  · dsimp only
    rw [henters.counter, List.length_cons, BitVec.ofNat_add, ← hs.counter, ← hport]
    exact Register.read_write_self _ (Nat.lt_succ_of_le (hport ▸ hp).2) _
  · intro feature j hj
    have hmax := le_heldId_of_updates hp (hc ▸ hupdates)
    dsimp only
    rw [lastId, hupdates.lastSeen]
    by_cases hne : h.feature = feature
    · subst hne
      have hij : i = j := Option.some.inj (hi.symm.trans hj)
      subst hij
      rw [if_pos rfl, Register.read_write_self _ (tiLastSeenIndex_lt hi)]
      exact ⟨rfl, hmax.1⟩
    · rw [if_neg hne, Register.read_write_of_ne _ (tiLastSeenIndex_ne hi hj hne)]
      obtain ⟨hseen', hle'⟩ := hs.lastSeen feature j hj
      exact ⟨hseen', BitVec.le_trans hle' hmax.2⟩
  · dsimp only
    rw [hheld]
    split_ifs
    · exact fun _ => hid
    · exact hs.bounded
  · dsimp only
    rw [hsaved]
    exact hs.accounts hp hport hfeature hid hx hc hheld

end Receive

theorem recorded_of_reachable (hp : C.HasPort p) {s : IngressUnit C}
    (h : (ingressUnit C p).Reachable s) : Recorded p s := by
  induction h with
  | init h =>
    rw [show _ = IngressUnit.start C from h]
    exact .start
  | @step s a _ henabled ih =>
    obtain ⟨hf, hport, hheader⟩ := henabled
    by_cases hfeature : a.hdr.feature = 0#2
    · exact ih.host hp hf hport hfeature
    · obtain ⟨hid, hlast⟩ := hheader hfeature
      exact ih.header hp hf hport hfeature hid hlast

/-- Once the unit has moved to a snapshot, its value is the number of packets counted before the
move and of packets since then that the neighbor sent before that snapshot, as long as an `int`
counts them. -/
theorem channel_state (hp : C.HasPort p) {s : IngressUnit C} (h : (ingressUnit C p).Reachable s)
    (hc : 1 ≤ (s.regs.heldId p).toNat) :
    ∃ later moved earlier, s.log = later ++ moved :: earlier ∧ moved.before < moved.after ∧
      moved.after = s.regs.heldId p ∧
      (∀ e ∈ later, e.before = s.regs.heldId p ∧ e.after = s.regs.heldId p) ∧
      (earlier.length + later.countP (·.IsLate (s.regs.heldId p)) < 2 ^ 31 →
        (s.regs.saved p (s.regs.heldId p)).toNat =
          earlier.length + later.countP (·.IsLate (s.regs.heldId p))) := by
  have hne : s.regs.heldId p ≠ 0#16 := by
    intro h0
    rw [h0] at hc
    exact absurd hc (by decide)
  obtain ⟨later, moved, earlier, hlog, hmove, hafter, hlater, hvalue⟩ :=
    (recorded_of_reachable hp h).value hne
  refine ⟨later, moved, earlier, hlog, hmove, hafter, hlater, fun hlt => ?_⟩
  rw [hvalue, BitVec.toNat_ofNat, Nat.mod_eq_of_lt (by omega)]

/-- A packet from another switch. -/
def snapshotPacket (snapshotId : BitVec 16) : Headers :=
  { initiation snapshotId 0#9 with ipv4Option := ⟨1#1, 2#2, ipv4OptionSs, 8#8⟩ }

theorem framed_snapshotPacket (snapshotId : BitVec 16) : (snapshotPacket snapshotId).Framed :=
  ⟨⟨rfl, rfl⟩, ⟨rfl, rfl⟩, rfl, rfl, rfl⟩

/-- A packet of a host, a snapshot, two packets that the neighbor sent before it, and the
initiation once more. -/
def lateRun : List UnitLabel :=
  [⟨1#9, hostPacket, 2#9⟩, ⟨0#9, initiation 1#16 1#9, 0#9⟩, ⟨1#9, snapshotPacket 0#16, 2#9⟩,
    ⟨1#9, snapshotPacket 0#16, 2#9⟩, ⟨0#9, initiation 1#16 1#9, 0#9⟩]

theorem channel_state_lateRun :
    ∃ s : IngressUnit ⟨2, 4⟩, (ingressUnit ⟨2, 4⟩ 1#9).Reachable s ∧ s.regs.heldId 1#9 = 1#16 ∧
      s.regs.saved 1#9 1#16 = 3#32 ∧
      ∃ later moved earlier, s.log = later ++ moved :: earlier ∧ moved.before < moved.after ∧
        (s.regs.saved 1#9 (s.regs.heldId 1#9)).toNat =
          earlier.length + later.countP (·.IsLate (s.regs.heldId 1#9)) := by
  have hstart : (ingressUnit ⟨2, 4⟩ 1#9).Reachable (.start _) := .init rfl
  have hr := hstart.run (l := lateRun) (by
    refine ⟨⟨framed_hostPacket, rfl, ?_⟩, ⟨framed_initiation _ _, rfl, ?_⟩,
      ⟨framed_snapshotPacket _, rfl, ?_⟩, ⟨framed_snapshotPacket _, rfl, ?_⟩,
      ⟨framed_initiation _ _, rfl, ?_⟩, trivial⟩ <;> decide +kernel)
  obtain ⟨later, moved, earlier, hlog, hmove, -, -, hvalue⟩ :=
    channel_state (by decide) hr (by decide +kernel)
  have hlen : 5 = later.length + (earlier.length + 1) := by
    rw [← List.length_cons, ← List.length_append, ← hlog]
    decide +kernel
  exact ⟨_, hr, by decide +kernel, by decide +kernel, later, moved, earlier, hlog, hmove,
    hvalue ((Nat.add_le_add_left List.countP_le_length _).trans_lt (by omega))⟩

end P4Survey.Speedlight
