import P4Survey.Lib.System
import P4Survey.Speedlight.Channels
import P4Survey.Speedlight.Cut

/-! # Wraparound of the snapshot identifiers

One switch with `Pkt_W.p4`, and beside its registers a record of the unbounded
numbers for which the identifiers stand. Ingress compares every packet that has a
snapshot header as the unbounded numbers do. Egress does not test packets of
hosts for wraparound, and has no last identifier for packets that go out by the
port they came in.
-/

namespace P4Survey.Speedlight
open Lib

/-- The rules and the modulus of the identifiers. -/
structure Wrapping where
  config : Config
  modulus : ℕ
  modulus_le : modulus ≤ config.snapshots

/-- A packet between ingress and egress, with the number its identifier stands for. -/
structure Waiting where
  hdr : Headers
  md : SnapshotMetadata
  tocpu : Tocpu
  ingressPort : BitVec 9
  egressPort : BitVec 9
  logical : ℕ

/-- The case chosen for a packet that stands for `packet` at a unit that has been given
`held` at most. -/
structure Choice where
  held : ℕ
  packet : ℕ
  chosen : BitVec 2

structure Station (C : Config) where
  switch : Switch C
  waiting : List Waiting
  given : Direction → BitVec 9 → List ℕ
  seen : Direction → BitVec 9 → Option (BitVec 9) → List ℕ
  choices : List Choice

namespace Station

variable {C : Config}

def start (C : Config) : Station C := ⟨.zero C, [], fun _ _ => [], fun _ _ _ => [], []⟩

/-- The identifier a unit holds. -/
def heldId (s : Station C) (d : Direction) (p : BitVec 9) : BitVec 16 :=
  match d with
  | .ingress => s.switch.ingress.heldId p
  | .egress => s.switch.egress.heldId p

/-- A unit is given the number `P` over a channel and chooses a case. -/
def note (s : Station C) (d : Direction) (p : BitVec 9) (o : Option (BitVec 9)) (P : ℕ)
    (chosen : BitVec 2) : Station C :=
  { s with
    given := Function.update s.given d (record (s.given d) p P)
    seen := Function.update s.seen d (carry (s.seen d) p o P)
    choices := ⟨top (s.given d p), P, chosen⟩ :: s.choices }

def arriving (s : Station C) (port : BitVec 9) (h : Headers) (forward : BitVec 9) : Ingress C :=
  ⟨s.switch.ingress, h, default, default, port, forward, 0#9, [], false⟩

/-- A packet goes through ingress. What leaves it stands for the number the unit has reached,
unless it is an initiation. -/
def receive (s : Station C) (port : BitVec 9) (h : Headers) (P : ℕ) (forward : BitVec 9) :
    Station C :=
  let y := (s.arriving port h forward).ingressW
  let s' := if h.feature = 0#2 then s
    else s.note .ingress y.md.effectivePort (origin h port) P y.md.snapshotCase
  { s' with
    switch.ingress := y.regs
    waiting := ⟨y.hdr, y.md, y.tocpu, port, y.egressSpec,
      if h.IsInitiation then P else top (s'.given .ingress y.md.effectivePort)⟩ :: s.waiting }

def leaving (s : Station C) (q : Waiting) : Egress C :=
  ⟨s.switch.egress, q.hdr, q.md, q.tocpu, q.ingressPort, q.egressPort, q.egressPort, [], false⟩

/-- A packet goes through egress, or to the control plane. -/
def transmit (s : Station C) (q : Waiting) : Station C :=
  if q.egressPort = cpuPort then s
  else
    let y := (s.leaving q).egressW
    { s.note .egress q.egressPort (origin q.hdr q.hdr.snapshotHeader.portId) q.logical
        y.md.snapshotCase with
      switch.egress := y.regs }

/-- The packet is not behind its channel, and neither the packet nor the unit is `K` or more
ahead of it. -/
def Timely (s : Station C) (K : ℕ) (d : Direction) (p : BitVec 9) (o : Option (BitVec 9))
    (P : ℕ) : Prop :=
  InWindow K (newest (s.seen d p o)) P ∧ top (s.given d p) < newest (s.seen d p o) + K

instance (s : Station C) (K : ℕ) (d : Direction) (p : BitVec 9) (o : Option (BitVec 9)) (P : ℕ) :
    Decidable (s.Timely K d p o P) := inferInstanceAs (Decidable (_ ∧ _))

end Station

inductive WrapLabel
  | receive (port : BitVec 9) (h : Headers) (P : ℕ) (forward : BitVec 9)
  | transmit (q : Waiting)

variable (W : Wrapping)

/-- A packet that comes in at a port. The number is that of its identifier if it has one. -/
structure Incoming (s : Station W.config) (port : BitVec 9) (h : Headers) (P : ℕ) : Prop where
  framed : h.Framed
  ihl : 5 ≤ h.ipv4.ihl.toNat
  hasPort : W.config.HasPort (h.unitPort port)
  snapshotId : h.feature ≠ 0#2 → h.snapshotHeader.snapshotId.toNat = P % W.modulus
  timely : h.feature ≠ 0#2 → s.Timely W.modulus .ingress (h.unitPort port) (origin h port) P

def station : System (Station W.config) WrapLabel where
  init s := s = .start W.config
  enabled s
    | .receive port h P forward => Incoming W s port h P ∧ Forwards W.config forward
    | .transmit q => q ∈ s.waiting ∧ (q.egressPort ≠ cpuPort → s.Timely W.modulus .egress q.egressPort
        (origin q.hdr q.hdr.snapshotHeader.portId) q.logical)
  next s
    | .receive port h P forward => s.receive port h P forward
    | .transmit q => s.transmit q

/-- No packet comes to the ingress of a port above 256 with an identifier. No packet but an
initiation goes out by the port it came in. And no packet of a host goes out with an identifier
that has wrapped since the last one on its channel, unless it is behind the unit. -/
def Sound (s : Station W.config) : WrapLabel → Prop
  | .receive port h _ _ => h.feature ≠ 0#2 → (h.unitPort port).toNat ≤ 256
  | .transmit q => q.egressPort ≠ cpuPort → ¬q.hdr.IsInitiation →
      q.hdr.snapshotHeader.portId ≠ q.egressPort ∧
      (q.md.snapshotFeature = 0#2 →
        Wrapped W.modulus (newest (s.seen .egress q.egressPort
          (origin q.hdr q.hdr.snapshotHeader.portId))) q.logical →
        q.logical < top (s.given .egress q.egressPort))

/-- A waiting packet as egress relies on it. -/
structure Waiting.Fits (q : Waiting) : Prop where
  framed : q.hdr.Framed
  header : q.hdr.snapshotHeaderValid = true
  egressPort : Forwards W.config q.egressPort
  snapshotId : q.hdr.snapshotHeader.snapshotId.toNat = q.logical % W.modulus
  feature : q.md.snapshotFeature = 0#2 ∨ q.md.snapshotFeature = 1#2 ∨ q.md.snapshotFeature = 2#2
  rollover : q.md.snapshotFeature = 0#2 → q.md.snapshotRolloverCheck = 0#16
  initiation : q.hdr.IsInitiation → q.hdr.snapshotHeader.portId = q.egressPort ∧
    q.md.snapshotFeature = 2#2
  port : ¬q.hdr.IsInitiation → W.config.HasPort q.hdr.snapshotHeader.portId

/-- The registers hold the residues of the record, and the cases are those of the unbounded
comparison. -/
structure InStep (s : Station W.config) : Prop where
  ingress : Tracks W.modulus s.switch.ingress cellIng (s.given .ingress) (s.seen .ingress)
  egress : Tracks W.modulus s.switch.egress (cellEgr W.config) (s.given .egress) (s.seen .egress)
  waiting : ∀ q ∈ s.waiting, q.Fits W
  choices : ∀ c ∈ s.choices, c.chosen = caseOf c.held c.packet

variable {W} {s : Station W.config}

theorem InStep.start : InStep W (.start W.config) where
  ingress := Tracks.start W.modulus cellIng
  egress := Tracks.start W.modulus (cellEgr W.config)
  waiting q hq := by cases hq
  choices c hc := by cases hc

/-- Identifiers are below the number of snapshots. -/
theorem mod_le_snapshots (hpos : 0 < W.modulus) (P : ℕ) : P % W.modulus ≤ W.config.snapshots :=
  (Nat.mod_lt P hpos).le.trans W.modulus_le

section Receive

variable {port : BitVec 9} {h : Headers} {P : ℕ} {forward : BitVec 9}

/-- What ingress sends on, when `N` is the number its unit has reached. -/
theorem Pass.Stamps.fits {N : ℕ} {y : Ingress W.config} (hin : Incoming W s port h P)
    (hforward : Forwards W.config forward)
    (hy : Pass.Stamps (s.arriving port h forward) y (h.unitPort port))
    (hheld : (y.regs.heldId (h.unitPort port)).toNat = N % W.modulus)
    (hroll : h.feature = 0#2 → y.md.snapshotRolloverCheck = 0#16) :
    Waiting.Fits W ⟨y.hdr, y.md, y.tocpu, port, y.egressSpec, if h.IsInitiation then P else N⟩ := by
  have hfeature : y.md.snapshotFeature = h.feature := hy.snapshotFeature
  have hinit : y.hdr.IsInitiation ↔ h.IsInitiation := hy.initiation
  by_cases hi : h.IsInitiation
  · obtain ⟨hhdr, hspec⟩ := hy.forwarded hi
    have htwo := h.feature_eq_two.mpr hi
    constructor
    · exact hy.framed
    · exact hy.header
    · exact .inr (hspec ▸ hin.hasPort)
    · dsimp only
      rw [if_pos hi, hhdr]
      exact hin.snapshotId (by rw [htwo]; decide)
    · dsimp only
      rw [hfeature]
      exact h.feature_cases
    · exact fun h0 => hroll (hfeature.symm.trans h0)
    · intro _
      refine ⟨?_, hfeature.trans htwo⟩
      dsimp only
      rw [hhdr, hspec]
      exact (if_pos hi).symm
    · exact fun hnot => absurd (hinit.mpr hi) hnot
  · obtain ⟨hid, hportId, hspec⟩ := hy.stamped hi
    constructor
    · exact hy.framed
    · exact hy.header
    · exact hspec ▸ hforward
    · dsimp only
      rw [if_neg hi, hid]
      exact hheld
    · dsimp only
      rw [hfeature]
      exact h.feature_cases
    · exact fun h0 => hroll (hfeature.symm.trans h0)
    · exact fun hyes => absurd (hinit.mp hyes) hi
    · intro _
      exact hportId ▸ hin.hasPort

/-- Ingress decides as the unbounded comparison does. -/
theorem InStep.receive (hs : InStep W s) (hin : Incoming W s port h P)
    (hforward : Forwards W.config forward)
    (hle : h.feature ≠ 0#2 → (h.unitPort port).toNat ≤ 256) :
    InStep W (s.receive port h P forward) := by
  obtain ⟨y, hy⟩ : ∃ y, y = (s.arriving port h forward).ingressW := ⟨_, rfl⟩
  have hihl : h.ipv4.ihl ≠ 3#4 := by
    intro h3
    have hle := hin.ihl
    rw [h3] at hle
    exact absurd hle (by decide)
  by_cases hfeature : h.feature = 0#2
  · obtain ⟨hstamps, hids, hlast, hroll⟩ := Pass.ingressW_host
      (x := s.arriving port h forward) hin.framed hihl rfl hin.hasPort hfeature
    rw [← hy] at hstamps hids hlast hroll
    have htracks := hs.ingress.congr hids hlast
    have hq := hstamps.fits hin hforward (htracks.held _ hin.hasPort) fun _ => hroll
    have hport : y.md.effectivePort = h.unitPort port := hstamps.effectivePort
    unfold Station.receive
    dsimp only
    rw [if_pos hfeature, ← hy, hport]
    refine ⟨htracks, hs.egress, ?_, hs.choices⟩
    intro q hmem
    rcases List.mem_cons.mp hmem with rfl | hmem
    · exact hq
    · exact hs.waiting q hmem
  · obtain ⟨hwindow, hheld⟩ := hin.timely hfeature
    have hid := hin.snapshotId hfeature
    obtain ⟨i, hcell, hi⟩ := cellIng_eq hin.hasPort (hle hfeature) hfeature
    obtain ⟨hstamps, hcase, hupdates⟩ := Pass.ingressW_header (x := s.arriving port h forward)
      hin.framed rfl hin.hasPort (hid.le.trans (mod_le_snapshots hwindow.pos P)) hfeature hi
    rw [← hy] at hstamps hcase hupdates
    have hchosen : y.md.snapshotCase = caseOf (top (s.given .ingress (h.unitPort port))) P := by
      have hregs : (s.arriving port h forward).regs = s.switch.ingress := rfl
      have hhdr : (s.arriving port h forward).hdr = h := rfl
      have hunit : (s.arriving port h forward).ingressPort = port := rfl
      rw [hcase, hregs, hhdr, hunit, hs.ingress.lastSeen _ _ _ hin.hasPort hcell,
        hs.ingress.held _ hin.hasPort, hid, wrapCase_mod hwindow (hs.ingress.inWindow hheld)]
    rw [hchosen] at hupdates
    have htracks := hs.ingress.update separate_cellIng hin.hasPort hcell hid hupdates
    have hq := hstamps.fits hin hforward (htracks.held _ hin.hasPort) fun h0 => absurd h0 hfeature
    have hport : y.md.effectivePort = h.unitPort port := hstamps.effectivePort
    unfold Station.receive
    dsimp only
    rw [if_neg hfeature, ← hy, hport]
    refine ⟨?_, ?_, ?_, ?_⟩
    · exact htracks
    · exact hs.egress
    · intro q hmem
      rcases List.mem_cons.mp hmem with rfl | hmem
      · exact hq
      · exact hs.waiting q hmem
    · intro c hmem
      rcases List.mem_cons.mp hmem with rfl | hmem
      · exact hchosen
      · exact hs.choices c hmem

end Receive

/-- Egress does too, when the packets it cannot decide do not come. -/
theorem InStep.transmit {q : Waiting} (hs : InStep W s) (hmem : q ∈ s.waiting)
    (hcpu : q.egressPort ≠ cpuPort)
    (htimely : s.Timely W.modulus .egress q.egressPort
      (origin q.hdr q.hdr.snapshotHeader.portId) q.logical)
    (hsound : Sound W s (.transmit q)) : InStep W (s.transmit q) := by
  have hq := hs.waiting q hmem
  have hhas : W.config.HasPort q.egressPort := hq.egressPort.resolve_left hcpu
  obtain ⟨hwindow, hheld⟩ := htimely
  obtain ⟨i, hcell, hi⟩ := cellEgr_eq (h := q.hdr) hhas (fun h => (hq.initiation h).1)
    fun h => ⟨hq.port h, (hsound hcpu h).1⟩
  obtain ⟨y, hy⟩ : ∃ y, y = (s.leaving q).egressW := ⟨_, rfl⟩
  obtain ⟨-, hcase, hupdates⟩ := Pass.egressW_header (x := s.leaving q) hq.framed hq.header hhas rfl
    (hq.snapshotId.le.trans (mod_le_snapshots hwindow.pos _)) hq.feature hq.rollover hi
  rw [← hy] at hcase hupdates
  have hchosen : y.md.snapshotCase = caseOf (top (s.given .egress q.egressPort)) q.logical := by
    have hregs : (s.leaving q).regs = s.switch.egress := rfl
    have hhdr : (s.leaving q).hdr = q.hdr := rfl
    have hmd : (s.leaving q).md = q.md := rfl
    have hport : (s.leaving q).egressPort = q.egressPort := rfl
    rw [hregs, hhdr, hmd, hport, hs.egress.lastSeen _ _ _ hhas hcell, hs.egress.held _ hhas,
      hq.snapshotId] at hcase
    rw [hcase]
    have hunit := hs.egress.inWindow hheld
    by_cases h0 : q.md.snapshotFeature = 0#2
    · have hnot : ¬q.hdr.IsInitiation := by
        intro h
        have htwo := (hq.initiation h).2
        rw [h0] at htwo
        cases htwo
      rw [if_pos h0, noRolloverCase_mod hwindow hunit ((hsound hcpu hnot).2 h0)]
    · rw [if_neg h0, wrapCase_mod hwindow hunit]
  rw [hchosen] at hupdates
  have htracks := hs.egress.update separate_cellEgr hhas hcell hq.snapshotId hupdates
  unfold Station.transmit
  rw [if_neg hcpu, ← hy]
  refine ⟨?_, ?_, ?_, ?_⟩
  · exact hs.ingress
  · exact htracks
  · exact hs.waiting
  · intro c hc
    rcases List.mem_cons.mp hc with rfl | hc
    · exact hchosen
    · exact hs.choices c hc

theorem InStep.reachable (h : ((station W).restrict (Sound W)).Reachable s) : InStep W s := by
  induction h with
  | init h =>
    rw [show _ = Station.start W.config from h]
    exact .start
  | @step s a _ hstep ih =>
    obtain ⟨henabled, hsound⟩ := hstep
    cases a with
    | receive port h P forward => exact ih.receive henabled.1 henabled.2 hsound
    | transmit q =>
      by_cases hcpu : q.egressPort = cpuPort
      · change InStep W (s.transmit q)
        rw [Station.transmit, if_pos hcpu]
        exact ih
      · exact ih.transmit henabled.1 hcpu (henabled.2 hcpu) hsound

/-- In runs without the packets that the rules of egress and the mask of the port miss, the
identifiers wrap unnoticed. -/
theorem wraparound_transparent (h : ((station W).restrict (Sound W)).Reachable s) :
    (∀ d p, W.config.HasPort p → (s.heldId d p).toNat = top (s.given d p) % W.modulus) ∧
      ∀ c ∈ s.choices, c.chosen = caseOf c.held c.packet := by
  have hs := InStep.reachable h
  refine ⟨?_, hs.choices⟩
  intro d p hp
  cases d with
  | ingress => exact hs.ingress.held p hp
  | egress => exact hs.egress.held p hp

/-- Two ports, and identifiers modulo two. -/
def twoPorts : Wrapping := ⟨⟨2, 2⟩, 2, le_rfl⟩

theorem incoming_initiation {s : Station twoPorts.config} {id : BitVec 16} {P : ℕ}
    (hid : id.toNat = P % 2) (ht : s.Timely 2 .ingress 1#9 none P) :
    Incoming twoPorts s 0#9 (initiation id 1#9) P where
  framed := framed_initiation id 1#9
  ihl := show 5 ≤ (7#4).toNat by decide
  hasPort := show twoPorts.config.HasPort 1#9 by decide
  snapshotId _ := hid
  timely _ := ht

/-- The second snapshot has the identifier zero again. -/
def wrapped : List WrapLabel :=
  [.receive 0#9 (initiation 1#16 1#9) 1 0#9, .receive 0#9 (initiation 0#16 1#9) 2 0#9]

theorem wraparound_transparent_wrapped :
    ∃ s : Station twoPorts.config, ((station twoPorts).restrict (Sound twoPorts)).Reachable s ∧
      s.given .ingress 1#9 = [2, 1] ∧ (s.heldId .ingress 1#9).toNat = 0 ∧
      s.choices.map (·.chosen) = [1#2, 1#2] ∧
      ∀ d p, twoPorts.config.HasPort p → (s.heldId d p).toNat = top (s.given d p) % 2 := by
  have hstart : ((station twoPorts).restrict (Sound twoPorts)).Reachable (.start _) := .init rfl
  have hr := hstart.run (l := wrapped) (by
    refine ⟨⟨⟨?_, .inl rfl⟩, ?_⟩, ⟨⟨?_, .inl rfl⟩, ?_⟩, trivial⟩
    · exact incoming_initiation rfl (by decide +kernel)
    · exact fun _ => by decide
    · exact incoming_initiation rfl (by decide +kernel)
    · exact fun _ => by decide)
  refine ⟨_, hr, ?_, ?_, ?_, (wraparound_transparent hr).1⟩
  · decide +kernel
  · decide +kernel
  · decide +kernel

theorem incoming_hostPacket (s : Station twoPorts.config) :
    Incoming twoPorts s 1#9 hostPacket 0 :=
  ⟨framed_hostPacket, by decide, by decide, fun h => absurd rfl h, fun h => absurd rfl h⟩

/-- A snapshot is started on the first port, and a packet of a host takes it to the second. -/
def carried : Station twoPorts.config :=
  ((Station.start _).receive 0#9 (initiation 1#16 1#9) 1 0#9).receive 1#9 hostPacket 0 2#9

/-- A second snapshot, and another packet. -/
def carriedAgain : Station twoPorts.config :=
  (((carried.transmit (carried.waiting.head (List.cons_ne_nil _ _))).receive 0#9
    (initiation 0#16 1#9) 2 0#9).receive 1#9 hostPacket 0 2#9)

theorem reachable_carriedAgain : (station twoPorts).Reachable carriedAgain := by
  have hstart : (station twoPorts).Reachable (.start _) := .init rfl
  have hcarried : (station twoPorts).Reachable carried := by
    have henabled : (station twoPorts).enabled (.start _)
        (.receive 0#9 (initiation 1#16 1#9) 1 0#9) :=
      ⟨incoming_initiation rfl (by decide +kernel), .inl rfl⟩
    have henabled' : (station twoPorts).enabled
        ((Station.start _).receive 0#9 (initiation 1#16 1#9) 1 0#9) (.receive 1#9 hostPacket 0 2#9) :=
      ⟨incoming_hostPacket _, .inr (by decide)⟩
    exact (hstart.step henabled).step henabled'
  have htransmit : (station twoPorts).enabled carried
      (.transmit (carried.waiting.head (List.cons_ne_nil _ _))) :=
    ⟨List.head_mem _, fun _ => by decide +kernel⟩
  have henabled : (station twoPorts).enabled
      (carried.transmit (carried.waiting.head (List.cons_ne_nil _ _)))
      (.receive 0#9 (initiation 0#16 1#9) 2 0#9) :=
    ⟨incoming_initiation rfl (by decide +kernel), .inl rfl⟩
  have henabled' : (station twoPorts).enabled
      ((carried.transmit (carried.waiting.head (List.cons_ne_nil _ _))).receive 0#9
        (initiation 0#16 1#9) 2 0#9) (.receive 1#9 hostPacket 0 2#9) :=
    ⟨incoming_hostPacket _, .inr (by decide)⟩
  exact ((hcarried.step htransmit).step henabled).step henabled'

/-- The packet of the host stands for two at an egress unit that has been given one, and is
taken for a packet that is late. -/
theorem wrapped_host_in_flight :
    ¬∀ (W : Wrapping) (s : Station W.config), (station W).Reachable s →
      (∀ d p, W.config.HasPort p → (s.heldId d p).toNat = top (s.given d p) % W.modulus) ∧
        ∀ c ∈ s.choices, c.chosen = caseOf c.held c.packet := by
  intro h
  have henabled : (station twoPorts).enabled carriedAgain
      (.transmit (carriedAgain.waiting.head (List.cons_ne_nil _ _))) :=
    ⟨List.head_mem _, fun _ => by decide +kernel⟩
  have hheld := (h twoPorts _ (reachable_carriedAgain.step henabled)).1 .egress 2#9 (by decide)
  revert hheld
  decide +kernel

end P4Survey.Speedlight
