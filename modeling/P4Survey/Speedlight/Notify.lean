import P4Survey.Lib.System
import P4Survey.Speedlight.InFlight

/-! # Notifications

One switch with `Pkt_WC.p4`, and beside its registers a list of what each packet
did at its units and what the control plane was told about it. The rules of egress
for initiations compare the kind of the packet with the number of an option, so
there an initiation is reported as a packet of a neighbor.
-/

namespace P4Survey.Speedlight
open Lib

def isNewssNotification (flag : BitVec 8) : Bool := flag &&& 0b100#8 != 0#8

def isNewlsNotification (flag : BitVec 8) : Bool := flag &&& 0b010#8 != 0#8

/-- A packet between ingress and egress. -/
structure InTransit where
  hdr : Headers
  md : SnapshotMetadata
  tocpu : TocpuC
  ingressPort : BitVec 9
  egressPort : BitVec 9

/-- A packet at a unit, with the identifiers the unit held before and after it, whether a last
identifier has changed, and the notifications. -/
structure Handled where
  initiation : Bool
  before : BitVec 16
  after : BitVec 16
  changed : Bool
  notified : List TocpuC

/-- The notifications say what the packet did, and there is one if it did anything. -/
def Handled.Classified (e : Handled) : Prop :=
  (∀ n ∈ e.notified, (isNewssNotification n.messageType = true ↔ e.before < e.after) ∧
    (isNewlsNotification n.messageType = true ↔ e.initiation = false ∧ e.changed = true)) ∧
  (e.before < e.after ∨ e.initiation = false ∧ e.changed = true → e.notified ≠ [])

instance (e : Handled) : Decidable e.Classified := inferInstanceAs (Decidable (_ ∧ _))

/-- The last identifiers over the channels into the units of one direction. -/
abbrev Seen : Type := BitVec 9 → Option (BitVec 9) → BitVec 16

def Seen.set (seen : Seen) (p : BitVec 9) (o : Option (BitVec 9)) (packet : BitVec 16) : Seen :=
  fun q o' => if q = p ∧ o' = o then packet else seen q o'

structure Observed (C : Config) where
  switch : Switch C
  waiting : List InTransit
  seenIng : Seen
  seenEgr : Seen
  log : List Handled

variable {C : Config} {neighbors : ℕ}

def Regs.lastSeenChanged (r r' : Regs C neighbors) : Bool :=
  (List.range neighbors).any fun i => r'.lastSeen.read i != r.lastSeen.read i

namespace Observed

def start (C : Config) : Observed C := ⟨.zero C, [], fun _ _ => 0#16, fun _ _ => 0#16, []⟩

def arriving (s : Observed C) (port : BitVec 9) (h : Headers) (forward : BitVec 9) : IngressC C :=
  ⟨⟨s.switch.ingress, h, default, default, port, forward, 0#9, [], false⟩, default, none, []⟩

def receive (s : Observed C) (port : BitVec 9) (h : Headers) (forward : BitVec 9) : Observed C :=
  let y := (s.arriving port h forward).ingressWC
  { s with
    switch.ingress := y.pass.regs
    waiting := ⟨y.pass.hdr, y.pass.md, y.tocpu, port, y.pass.egressSpec⟩ :: s.waiting
    seenIng := if h.feature = 0#2 then s.seenIng
      else s.seenIng.set (h.unitPort port) (origin h port) h.snapshotHeader.snapshotId
    log := ⟨decide h.IsInitiation, s.switch.ingress.heldId (h.unitPort port),
      y.pass.regs.heldId (h.unitPort port), s.switch.ingress.lastSeenChanged y.pass.regs,
      y.notifications⟩ :: s.log }

def leaving (s : Observed C) (q : InTransit) : EgressC C :=
  ⟨⟨s.switch.egress, q.hdr, q.md, default, q.ingressPort, q.egressPort, q.egressPort, [], false⟩,
    q.tocpu, none, []⟩

def transmit (s : Observed C) (q : InTransit) : Observed C :=
  if q.egressPort = cpuPort then s
  else
    let y := (s.leaving q).egressWC
    { s with
      switch.egress := y.pass.regs
      seenEgr := s.seenEgr.set q.egressPort (origin q.hdr q.hdr.snapshotHeader.portId)
        q.hdr.snapshotHeader.snapshotId
      log := ⟨decide q.hdr.IsInitiation, s.switch.egress.heldId q.egressPort,
        y.pass.regs.heldId q.egressPort, s.switch.egress.lastSeenChanged y.pass.regs,
        y.notifications⟩ :: s.log }

end Observed

inductive NotifyLabel
  | receive (port : BitVec 9) (h : Headers) (forward : BitVec 9)
  | transmit (q : InTransit)

/-- Identifiers do not decrease on a channel. -/
def observed (C : Config) : System (Observed C) NotifyLabel where
  init s := s = .start C
  enabled s
    | .receive port h forward => h.Framed ∧ C.HasPort (h.unitPort port) ∧ Forwards C forward ∧
        (h.feature ≠ 0#2 →
          s.seenIng (h.unitPort port) (origin h port) ≤ h.snapshotHeader.snapshotId)
    | .transmit q => q ∈ s.waiting ∧ (q.egressPort ≠ cpuPort →
        s.seenEgr q.egressPort (origin q.hdr q.hdr.snapshotHeader.portId) ≤
          q.hdr.snapshotHeader.snapshotId)
  next s
    | .receive port h forward => s.receive port h forward
    | .transmit q => s.transmit q

/-- No packet comes to the ingress of a port above 256 with an identifier. At egress initiations
bring the identifier of the last one, and packets that go out by the port they came in the one
that ingress has left in their metadata. -/
def Reported (s : Observed C) : NotifyLabel → Prop
  | .receive port h _ => h.feature ≠ 0#2 → (h.unitPort port).toNat ≤ 256
  | .transmit q => q.egressPort ≠ cpuPort →
      (q.hdr.IsInitiation → q.hdr.snapshotHeader.snapshotId = s.seenEgr q.egressPort none) ∧
      (¬q.hdr.IsInitiation → q.hdr.snapshotHeader.portId = q.egressPort →
        q.hdr.snapshotHeader.snapshotId = q.md.formerLastSeen)

section Rules

variable {e : Handled} {f packet held : BitVec 16} {feature c : BitVec 2}

theorem noRolloverCase_self (f : BitVec 16) (held : ℕ) : Pass.noRolloverCase f.toNat held f.toNat ≠ 1#2 := by
  unfold Pass.noRolloverCase
  split_ifs with hlt
  · decide
  · rw [Ne, caseOf_eq_one]
    exact hlt

theorem sub_eq_zero_iff (packet f : BitVec 16) : packet - f = 0#16 ↔ packet = f := by
  rw [BitVec.sub_eq_iff_eq_add, BitVec.zero_add]

/-- A packet that changed no last identifier and left the unit alone needs no notification. -/
theorem classified_of_quiet (hadvance : ¬e.before < e.after)
    (hchanged : ¬(e.initiation = false ∧ e.changed = true)) (hnotified : e.notified = []) :
    e.Classified := by
  refine ⟨?_, ?_⟩
  · rw [hnotified]
    simp
  · rintro (h | h)
    · exact absurd h hadvance
    · exact absurd h hchanged

theorem classified_of_message {m : BitVec 8} (hnotified : e.notified.map (·.messageType) = [m])
    (hnewss : isNewssNotification m = true ↔ e.before < e.after)
    (hnewls : isNewlsNotification m = true ↔ e.initiation = false ∧ e.changed = true) :
    e.Classified := by
  obtain ⟨n, hn, rfl⟩ := List.map_eq_singleton_iff.mp hnotified
  rw [Handled.Classified, hn]
  refine ⟨?_, fun _ => by simp⟩
  simp only [List.mem_singleton, forall_eq]
  exact ⟨hnewss, hnewls⟩

/-- The rules of ingress, when the unit is not behind the channel. -/
theorem classified_ingress (hfeature : feature = 1#2 ∨ feature = 2#2) (hle : f ≤ held)
    (hinit : e.initiation = true ↔ feature = 2#2) (hchanged : e.changed = true ↔ packet ≠ f)
    (hadvance : e.before < e.after ↔ held < packet)
    (hmessages : e.notified.map (·.messageType) = (PassC.tiMessageType (packet - f) feature
      (caseOf held.toNat packet.toNat)).toList) : e.Classified := by
  have hone : caseOf held.toNat packet.toNat = 1#2 ↔ e.before < e.after := by
    rw [caseOf_eq_one, hadvance, BitVec.lt_def]
  unfold PassC.tiMessageType at hmessages
  simp only [sub_eq_zero_iff, hone] at hmessages
  by_cases hpf : packet = f
  · apply classified_of_quiet
    · rw [hadvance, hpf]
      exact BitVec.not_lt.mpr hle
    · exact fun h => hchanged.mp h.2 hpf
    · rw [if_pos hpf] at hmessages
      exact List.map_eq_nil_iff.mp hmessages
  rw [if_neg hpf] at hmessages
  have hyes : e.changed = true := hchanged.mpr hpf
  rcases hfeature with rfl | rfl
  · have hnot : e.initiation = false := Bool.eq_false_iff.mpr fun h => absurd (hinit.mp h) (by decide)
    by_cases hmove : e.before < e.after
    · rw [if_pos ⟨rfl, hmove⟩] at hmessages
      exact classified_of_message hmessages (iff_of_true rfl hmove) (iff_of_true rfl ⟨hnot, hyes⟩)
    · rw [if_neg fun h => hmove h.2, if_neg hmove, if_pos rfl] at hmessages
      exact classified_of_message hmessages (iff_of_false (by decide) hmove)
        (iff_of_true rfl ⟨hnot, hyes⟩)
  · have hinit' : e.initiation = true := hinit.mpr rfl
    have hno : ¬(e.initiation = false ∧ e.changed = true) := by
      rw [hinit']
      simp
    by_cases hmove : e.before < e.after
    · rw [if_neg fun h => absurd h.1 (by decide), if_pos hmove] at hmessages
      exact classified_of_message hmessages (iff_of_true rfl hmove) (iff_of_false (by decide) hno)
    · rw [if_neg fun h => hmove h.2, if_neg hmove, if_neg (by decide)] at hmessages
      exact classified_of_quiet hmove hno (List.map_eq_nil_iff.mp hmessages)

/-- The rules of egress, when an initiation brings no new identifier. -/
theorem classified_egress (f packet held : BitVec 16) (feature : BitVec 2)
    (hinit : e.initiation = true → packet = f)
    (hchanged : e.changed = true ↔ packet ≠ f)
    (hc : c = Pass.noRolloverCase f.toNat held.toNat packet.toNat)
    (hadvance : e.before < e.after ↔ c = 1#2)
    (hmessages : e.notified.map (·.messageType) =
      (PassC.teMessageType (packet - f) feature c).toList) : e.Classified := by
  have hkey : feature.setWidth 8 ≠ PassC.teOriginKey := by
    unfold PassC.teOriginKey
    bv_omega
  unfold PassC.teMessageType at hmessages
  simp only [sub_eq_zero_iff, ← hadvance, hkey, false_and, if_false] at hmessages
  by_cases hpf : packet = f
  · apply classified_of_quiet
    · rw [hadvance, hc, hpf]
      exact noRolloverCase_self f _
    · exact fun h => hchanged.mp h.2 hpf
    · rw [if_pos hpf] at hmessages
      exact List.map_eq_nil_iff.mp hmessages
  rw [if_neg hpf] at hmessages
  have hdid : e.initiation = false ∧ e.changed = true :=
    ⟨Bool.eq_false_iff.mpr fun h => hpf (hinit h), hchanged.mpr hpf⟩
  by_cases hmove : e.before < e.after
  · rw [if_pos hmove] at hmessages
    exact classified_of_message hmessages (iff_of_true rfl hmove) (iff_of_true rfl hdid)
  · rw [if_neg hmove] at hmessages
    exact classified_of_message hmessages (iff_of_false (by decide) hmove) (iff_of_true rfl hdid)

end Rules

section Registers

variable {r r' : Regs C neighbors} {cell : Cells} {seen : Seen} {p : BitVec 9}
  {o : Option (BitVec 9)} {i : ℕ} {packet : BitVec 16}

/-- The cells hold the last identifiers of their channels, and no unit is behind them. -/
def Below (r : Regs C neighbors) (cell : Cells) (seen : Seen) : Prop :=
  ∀ p o i, C.HasPort p → cell p o = some i →
    r.lastSeen.read i = seen p o ∧ seen p o ≤ r.heldId p

theorem Below.start (cell : Cells) : Below (Regs.zero C neighbors) cell fun _ _ => 0#16 :=
  fun _ _ _ _ _ => ⟨Register.read_fill_zero _, Nat.zero_le _⟩

theorem Below.update (hcell : Separate C cell neighbors) (h : Below r cell seen) (hp : C.HasPort p)
    (hi : cell p o = some i)
    (hu : Pass.Updates r r' i p packet (caseOf (r.heldId p).toNat packet.toNat)) :
    Below r' cell (seen.set p o packet) := by
  intro q o' j hq hj
  obtain ⟨hpacket, hheld⟩ := le_heldId_of_updates hp hu
  rw [hu.lastSeen, Seen.set]
  by_cases hqo : q = p ∧ o' = o
  · obtain ⟨rfl, rfl⟩ := hqo
    have hij : i = j := Option.some.inj (hi.symm.trans hj)
    subst hij
    rw [if_pos ⟨rfl, rfl⟩, Register.read_write_self _ (hcell.lt hq hj)]
    exact ⟨rfl, hpacket⟩
  · have hne : i ≠ j := by
      rintro rfl
      exact hqo (hcell.inj hp hq hi hj)
    obtain ⟨hseen, hle⟩ := h q o' j hq hj
    rw [if_neg hqo, Register.read_write_of_ne _ hne]
    refine ⟨hseen, ?_⟩
    by_cases hqp : q = p
    · subst q
      exact BitVec.le_trans hle hheld
    · rw [heldId_of_updates_ne hqp hu]
      exact hle

theorem lastSeenChanged_write (hi : i < neighbors) (hlast : r'.lastSeen = r.lastSeen.write i packet) :
    r.lastSeenChanged r' = true ↔ packet ≠ r.lastSeen.read i := by
  rw [Regs.lastSeenChanged, hlast, List.any_eq_true]
  simp only [List.mem_range, bne_iff_ne]
  constructor
  · rintro ⟨j, -, hne⟩ rfl
    rw [Register.read_write] at hne
    split_ifs at hne with hij
    · exact hne (hij.1 ▸ rfl)
    · exact hne rfl
  · intro hne
    exact ⟨i, hi, by rwa [Register.read_write_self _ hi]⟩

theorem lastSeenChanged_of_eq (hlast : r'.lastSeen = r.lastSeen) : r.lastSeenChanged r' = false := by
  rw [Regs.lastSeenChanged, hlast]
  simp

/-- A unit advances exactly in the case of a new snapshot. -/
theorem heldId_lt_iff (hp : C.HasPort p)
    (hu : Pass.Updates r r' i p packet (caseOf (r.heldId p).toNat packet.toNat)) :
    r.heldId p < r'.heldId p ↔ r.heldId p < packet := by
  rw [heldId_of_updates hp hu]
  split_ifs with h1
  · rfl
  · rw [caseOf_eq_one] at h1
    exact iff_of_false (BitVec.lt_irrefl _) h1

end Registers

/-- A waiting packet as egress relies on it. -/
structure InTransit.Fits (C : Config) (q : InTransit) : Prop where
  etherType : q.hdr.ethernet.etherType = 0x800#16
  egressPort : Forwards C q.egressPort
  feature : q.md.snapshotFeature = 0#2 ∨ q.md.snapshotFeature = 1#2 ∨ q.md.snapshotFeature = 2#2
  rollover : q.md.snapshotFeature = 0#2 → q.md.snapshotRolloverCheck = 0#16
  initiation : q.hdr.IsInitiation → q.hdr.snapshotHeader.portId = q.egressPort
  other : ¬q.hdr.IsInitiation →
    C.HasPort q.hdr.snapshotHeader.portId ∧ q.hdr.ipv4Option.option ≠ ipv4OptionSsCpu

structure Informed (s : Observed C) : Prop where
  ingress : Below s.switch.ingress cellIng s.seenIng
  egress : Below s.switch.egress (cellEgr C) s.seenEgr
  waiting : ∀ q ∈ s.waiting, q.Fits C
  log : ∀ e ∈ s.log, e.Classified

theorem Informed.start : Informed (.start C) where
  ingress := Below.start cellIng
  egress := Below.start (cellEgr C)
  waiting q hq := by cases hq
  log e he := by cases he

section Receive

variable {s : Observed C} {port : BitVec 9} {h : Headers} {forward : BitVec 9}

/-- What ingress sends on when it does not change the headers of an initiation and stamps
the other packets. -/
theorem fits_ciForward {z : Ingress C} (tocpu : TocpuC) (hether : z.hdr.ethernet.etherType = 0x800#16)
    (hport : C.HasPort z.md.effectivePort) (hforward : Forwards C z.egressSpec)
    (hfeature : z.md.snapshotFeature = 0#2 ∨ z.md.snapshotFeature = 1#2 ∨ z.md.snapshotFeature = 2#2)
    (hroll : z.md.snapshotFeature = 0#2 → z.md.snapshotRolloverCheck = 0#16)
    (hinit : z.md.snapshotFeature = 2#2 → z.hdr.IsInitiation ∧
      z.hdr.snapshotHeader.portId = z.md.effectivePort)
    (hother : z.md.snapshotFeature ≠ 2#2 → z.hdr.ipv4Option.option ≠ ipv4OptionSsCpu) :
    InTransit.Fits C ⟨z.ciForward.hdr, z.ciForward.md, tocpu, port, z.ciForward.egressSpec⟩ := by
  by_cases h2 : z.md.snapshotFeature = 2#2
  · obtain ⟨hi, hid⟩ := hinit h2
    rw [Pass.ciForward, if_pos h2, Pass.tiForwardInitiation, if_pos hport]
    exact ⟨hether, .inr hport, hfeature, hroll, fun _ => hid, fun hnot => absurd hi hnot⟩
  · have hoption := hother h2
    rw [Pass.ciForward, if_neg h2, Pass.aiSetSnapInfo]
    exact ⟨hether, hforward, hfeature, hroll, fun hi => absurd hi.2 hoption, fun _ => ⟨hport, hoption⟩⟩

/-- What has to hold of a packet that comes in. -/
theorem Informed.receive (hs : Informed s) {y : IngressC C}
    (hy : y = (s.arriving port h forward).ingressWC)
    (hbelow : Below y.pass.regs cellIng (if h.feature = 0#2 then s.seenIng
      else s.seenIng.set (h.unitPort port) (origin h port) h.snapshotHeader.snapshotId))
    (hfits : InTransit.Fits C ⟨y.pass.hdr, y.pass.md, y.tocpu, port, y.pass.egressSpec⟩)
    (hclass : Handled.Classified ⟨decide h.IsInitiation, s.switch.ingress.heldId (h.unitPort port),
      y.pass.regs.heldId (h.unitPort port), s.switch.ingress.lastSeenChanged y.pass.regs,
      y.notifications⟩) : Informed (s.receive port h forward) := by
  unfold Observed.receive
  rw [← hy]
  refine ⟨hbelow, hs.egress, ?_, ?_⟩
  · intro q hq
    rcases List.mem_cons.mp hq with rfl | hq
    · exact hfits
    · exact hs.waiting q hq
  · intro e he
    rcases List.mem_cons.mp he with rfl | he
    · exact hclass
    · exact hs.log e he

theorem Informed.host (hs : Informed s) (hf : h.Framed) (hport : C.HasPort (h.unitPort port))
    (hforward : Forwards C forward) (hfeature : h.feature = 0#2) :
    Informed (s.receive port h forward) := by
  obtain ⟨y, hy⟩ : ∃ y, y = (s.arriving port h forward).ingressWC := ⟨_, rfl⟩
  have hrun := ingressWC_host (x := s.arriving port h forward) hf rfl hport hfeature
  obtain ⟨z, hz⟩ : ∃ z, z = Pass.ciAddHeader (Pass.tReadAndUpdateCounter
    (s.arriving port h forward).pass.classified) := ⟨_, rfl⟩
  rw [← hy, ← hz] at hrun
  have hcase : z.md.snapshotFeature = 0#2 := by
    rw [hz]
    exact hfeature
  have hregs : y.pass.regs.lastSeen = s.switch.ingress.lastSeen ∧
      y.pass.regs.snapshotId = s.switch.ingress.snapshotId := by
    rw [hrun, ciForward_regs, hz]
    exact ⟨rfl, rfl⟩
  have hheld : ∀ p, y.pass.regs.heldId p = s.switch.ingress.heldId p := by
    intro p
    rw [Regs.heldId, hregs.2]
    rfl
  apply hs.receive hy
  · rw [if_pos hfeature]
    intro p o i hp hi
    rw [hheld, hregs.1]
    exact hs.ingress p o i hp hi
  · rw [hrun]
    apply fits_ciForward
    · rw [hz]
      exact hf.ethernet.2
    · rw [hz]
      exact hport
    · rw [hz]
      exact hforward
    · exact .inl hcase
    · intro _
      rw [hz]
      rfl
    · intro h2
      rw [hcase] at h2
      cases h2
    · intro _
      rw [hz]
      change ipv4OptionSs ≠ ipv4OptionSsCpu
      decide
  · apply classified_of_quiet
    · rw [hheld]
      exact BitVec.lt_irrefl _
    · rw [lastSeenChanged_of_eq hregs.1]
      simp
    · rw [PassC.notifications_eq, hrun]
      rfl

theorem Informed.header (hs : Informed s) (hf : h.Framed) (hport : C.HasPort (h.unitPort port))
    (hforward : Forwards C forward) (hfeature : h.feature ≠ 0#2)
    (hmono : s.seenIng (h.unitPort port) (origin h port) ≤ h.snapshotHeader.snapshotId)
    (hsmall : (h.unitPort port).toNat ≤ 256) : Informed (s.receive port h forward) := by
  obtain ⟨y, hy⟩ : ∃ y, y = (s.arriving port h forward).ingressWC := ⟨_, rfl⟩
  obtain ⟨i, hcell, hi⟩ := cellIng_eq hport hsmall hfeature
  obtain ⟨hseen, hle⟩ := hs.ingress _ _ _ hport hcell
  have h12 := h.feature_cases.resolve_left hfeature
  have henters : Enters (s.arriving port h forward) y i
      (caseOf (s.switch.ingress.heldId (h.unitPort port)).toNat
        h.snapshotHeader.snapshotId.toNat) := by
    have hcase : Pass.wrapCase (s.switch.ingress.lastSeen.read i).toNat
        (s.switch.ingress.heldId (h.unitPort port)).toNat h.snapshotHeader.snapshotId.toNat =
        caseOf (s.switch.ingress.heldId (h.unitPort port)).toNat
          h.snapshotHeader.snapshotId.toNat := by
      rw [hseen]
      exact wrapCase_of_le hmono hle
    rw [← hcase, hy]
    exact ingressWC_header (x := s.arriving port h forward) hf rfl hport hfeature hi
  have hupdates := henters.updates
  apply hs.receive hy
  · rw [if_neg hfeature]
    exact hs.ingress.update separate_cellIng hport hcell hupdates
  · obtain ⟨z, hkept, hforwarded⟩ := henters.forwarded
    have hhdr : z.hdr = h := hkept.hdr
    have hcase : z.md.snapshotFeature = h.feature := hkept.snapshotFeature
    have hunit : z.md.effectivePort = h.unitPort port := hkept.effectivePort
    have hspec : z.egressSpec = forward := hkept.egressSpec
    rw [hforwarded]
    apply fits_ciForward
    · rw [hhdr]
      exact hf.ethernet.2
    · rw [hunit]
      exact hport
    · rw [hspec]
      exact hforward
    · rw [hcase]
      exact h.feature_cases
    · intro h0
      exact absurd (hcase.symm.trans h0) hfeature
    · intro h2
      have hinit := h.feature_eq_two.mp (hcase.symm.trans h2)
      rw [hhdr, hunit]
      exact ⟨hinit, (if_pos hinit).symm⟩
    · intro h2 hoption
      rw [hcase] at h2
      rw [hhdr] at hoption
      have hvalid : h.ipv4OptionValid = true := by
        by_contra hnot
        exact hfeature (if_neg hnot)
      exact h2 (h.feature_eq_two.mpr ⟨hvalid, hoption⟩)
  · apply classified_ingress h12 hle
    · rw [decide_eq_true_iff]
      exact h.feature_eq_two.symm
    · rw [← hseen]
      exact lastSeenChanged_write (separate_cellIng.lt hport hcell) hupdates.lastSeen
    · exact heldId_lt_iff hport hupdates
    · rw [PassC.notifications_eq, henters.messages, ← hseen]
      exact List.append_nil _

end Receive

section Transmit

variable {s : Observed C} {q : InTransit}

/-- What has to hold of a packet that goes out. -/
theorem Informed.transmit (hs : Informed s) {y : EgressC C} (hy : y = (s.leaving q).egressWC)
    (hcpu : q.egressPort ≠ cpuPort)
    (hbelow : Below y.pass.regs (cellEgr C) (s.seenEgr.set q.egressPort
      (origin q.hdr q.hdr.snapshotHeader.portId) q.hdr.snapshotHeader.snapshotId))
    (hclass : Handled.Classified ⟨decide q.hdr.IsInitiation, s.switch.egress.heldId q.egressPort,
      y.pass.regs.heldId q.egressPort, s.switch.egress.lastSeenChanged y.pass.regs,
      y.notifications⟩) : Informed (s.transmit q) := by
  unfold Observed.transmit
  rw [if_neg hcpu, ← hy]
  refine ⟨hs.ingress, hbelow, hs.waiting, ?_⟩
  intro e he
  rcases List.mem_cons.mp he with rfl | he
  · exact hclass
  · exact hs.log e he

/-- A packet that goes out by the port it came in has no cell. -/
theorem Informed.hairpin (hs : Informed s) (hq : q.Fits C) (hport : C.HasPort q.egressPort)
    (hinit : ¬q.hdr.IsInitiation) (hback : q.hdr.snapshotHeader.portId = q.egressPort)
    (hformer : q.hdr.snapshotHeader.snapshotId = q.md.formerLastSeen) : Informed (s.transmit q) := by
  obtain ⟨y, hy⟩ : ∃ y, y = (s.leaving q).egressWC := ⟨_, rfl⟩
  have hindex : Pass.teLastSeenIndex C q.egressPort q.hdr.snapshotHeader.portId
      q.hdr.ipv4Option.option = none := by
    rw [Pass.teLastSeenIndex, if_pos hport, if_neg fun h => h.2 hback, if_neg (hq.other hinit).2]
  obtain ⟨hlast, hids, hmessages⟩ := egressWC_header (x := s.leaving q) (f := q.md.formerLastSeen)
    hq.etherType hport hq.rollover hq.feature hindex rfl (by rw [← hformer]; exact BitVec.le_refl _)
  rw [← hy] at hlast hids hmessages
  have hnot : Pass.noRolloverCase q.md.formerLastSeen.toNat
      (s.switch.egress.heldId q.egressPort).toNat q.hdr.snapshotHeader.snapshotId.toNat ≠ 1#2 := by
    rw [hformer]
    exact noRolloverCase_self _ _
  have hids' : y.pass.regs.snapshotId = s.switch.egress.snapshotId := hids.trans (if_neg hnot)
  have hlast' : y.pass.regs.lastSeen = s.switch.egress.lastSeen := hlast
  have hheld : ∀ p, y.pass.regs.heldId p = s.switch.egress.heldId p := by
    intro p
    rw [Regs.heldId, hids']
    rfl
  apply hs.transmit hy hport.ne_cpuPort
  · intro p o i hp hi
    have hne : ¬(p = q.egressPort ∧ o = origin q.hdr q.hdr.snapshotHeader.portId) := by
      rintro ⟨rfl, rfl⟩
      rw [origin, if_neg hinit, hback] at hi
      simp [cellEgr] at hi
    rw [hheld, Seen.set, if_neg hne, hlast']
    exact hs.egress p o i hp hi
  · apply classified_egress q.md.formerLastSeen q.hdr.snapshotHeader.snapshotId
      (s.switch.egress.heldId q.egressPort) q.md.snapshotFeature (fun _ => hformer) ?_ rfl ?_
    · rw [PassC.notifications_eq, hmessages]
      exact List.append_nil _
    · rw [lastSeenChanged_of_eq hlast', hformer]
      simp
    · dsimp only
      rw [hheld]
      exact iff_of_false (BitVec.lt_irrefl _) hnot

/-- A packet on a channel with a cell. -/
theorem Informed.onward (hs : Informed s) (hq : q.Fits C) (hport : C.HasPort q.egressPort)
    (hmono : s.seenEgr q.egressPort (origin q.hdr q.hdr.snapshotHeader.portId) ≤
      q.hdr.snapshotHeader.snapshotId)
    (hrepeat : q.hdr.IsInitiation →
      q.hdr.snapshotHeader.snapshotId = s.seenEgr q.egressPort none)
    (hother : ¬q.hdr.IsInitiation → q.hdr.snapshotHeader.portId ≠ q.egressPort) :
    Informed (s.transmit q) := by
  obtain ⟨y, hy⟩ : ∃ y, y = (s.leaving q).egressWC := ⟨_, rfl⟩
  obtain ⟨i, hcell, hindex⟩ := cellEgr_eq (h := q.hdr) hport hq.initiation
    fun hn => ⟨(hq.other hn).1, hother hn⟩
  obtain ⟨hseen, hle⟩ := hs.egress _ _ _ hport hcell
  obtain ⟨hlast, hids, hmessages⟩ := egressWC_header (x := s.leaving q)
    (f := s.switch.egress.lastSeen.read i) hq.etherType hport hq.rollover hq.feature hindex rfl
    (by rw [hseen]; exact hmono)
  rw [← hy] at hlast hids hmessages
  have hcase : Pass.noRolloverCase (s.switch.egress.lastSeen.read i).toNat
      (s.switch.egress.heldId q.egressPort).toNat q.hdr.snapshotHeader.snapshotId.toNat =
      caseOf (s.switch.egress.heldId q.egressPort).toNat
        q.hdr.snapshotHeader.snapshotId.toNat := by
    rw [Pass.noRolloverCase, hseen, if_neg (Nat.not_lt.mpr hle)]
  have hupdates : Pass.Updates s.switch.egress y.pass.regs i q.egressPort
      q.hdr.snapshotHeader.snapshotId (caseOf (s.switch.egress.heldId q.egressPort).toNat
        q.hdr.snapshotHeader.snapshotId.toNat) := by
    rw [← hcase]
    exact ⟨hlast, hids⟩
  apply hs.transmit hy hport.ne_cpuPort
  · exact hs.egress.update separate_cellEgr hport hcell hupdates
  · apply classified_egress (s.switch.egress.lastSeen.read i) q.hdr.snapshotHeader.snapshotId
      (s.switch.egress.heldId q.egressPort) q.md.snapshotFeature ?_ ?_ rfl ?_
    · rw [PassC.notifications_eq, hmessages]
      exact List.append_nil _
    · intro hinit
      have hinit' := of_decide_eq_true hinit
      rw [hseen, hrepeat hinit', origin, if_pos hinit']
    · exact lastSeenChanged_write (separate_cellEgr.lt hport hcell) hlast
    · rw [heldId_lt_iff hport hupdates, hcase, caseOf_eq_one, BitVec.lt_def]

end Transmit

theorem informed_of_reachable {s : Observed C} (h : ((observed C).restrict Reported).Reachable s) :
    Informed s := by
  induction h with
  | init h =>
    rw [show _ = Observed.start C from h]
    exact .start
  | @step s a _ hstep ih =>
    obtain ⟨henabled, hreported⟩ := hstep
    cases a with
    | receive port h forward =>
      obtain ⟨hf, hport, hforward, hmono⟩ := henabled
      by_cases hfeature : h.feature = 0#2
      · exact ih.host hf hport hforward hfeature
      · exact ih.header hf hport hforward hfeature (hmono hfeature) (hreported hfeature)
    | transmit q =>
      obtain ⟨hmem, hmono⟩ := henabled
      have hq := ih.waiting q hmem
      by_cases hcpu : q.egressPort = cpuPort
      · change Informed (s.transmit q)
        rw [Observed.transmit, if_pos hcpu]
        exact ih
      · have hport := hq.egressPort.resolve_left hcpu
        obtain ⟨hrepeat, hsame⟩ := hreported hcpu
        by_cases hback : ¬q.hdr.IsInitiation ∧ q.hdr.snapshotHeader.portId = q.egressPort
        · exact ih.hairpin hq hport hback.1 hback.2 (hsame hback.1 hback.2)
        · exact ih.onward hq hport (hmono hcpu) hrepeat fun hn he => hback ⟨hn, he⟩

/-- In runs without the packets that the rules of egress and the mask of the port miss, the
notifications say what the packets did. -/
theorem notifications_classified {s : Observed C}
    (h : ((observed C).restrict Reported).Reachable s) : ∀ e ∈ s.log, e.Classified :=
  (informed_of_reachable h).log

/-- A snapshot is started on the first port. -/
def begun : Observed ⟨2, 4⟩ := (Observed.start _).receive 0#9 (initiation 1#16 1#9) 0#9

theorem begun_enabled : (observed ⟨2, 4⟩).enabled (.start _)
    (.receive 0#9 (initiation 1#16 1#9) 0#9) :=
  ⟨framed_initiation _ _, by decide, .inl rfl, fun _ => Nat.zero_le _⟩

/-- A packet of a host takes the snapshot to the second port. -/
def hostSent : Observed ⟨2, 4⟩ := begun.receive 1#9 hostPacket 2#9

theorem notifications_classified_hostSent :
    ∃ s : Observed ⟨2, 4⟩, ((observed ⟨2, 4⟩).restrict Reported).Reachable s ∧
      s.log.map (fun e => e.notified.map (·.messageType)) = [[0b111#8], [], [0b100#8]] ∧
      ∀ e ∈ s.log, e.Classified := by
  have hstart : ((observed ⟨2, 4⟩).restrict Reported).Reachable (.start _) := .init rfl
  have hbegun : ((observed ⟨2, 4⟩).restrict Reported).enabled (.start _)
      (.receive 0#9 (initiation 1#16 1#9) 0#9) := ⟨begun_enabled, fun _ => by decide⟩
  have hhost : ((observed ⟨2, 4⟩).restrict Reported).enabled begun (.receive 1#9 hostPacket 2#9) :=
    ⟨⟨framed_hostPacket, by decide, .inr (by decide), fun h => absurd rfl h⟩, fun h => absurd rfl h⟩
  have hsent : ((observed ⟨2, 4⟩).restrict Reported).enabled hostSent
      (.transmit (hostSent.waiting.head (List.cons_ne_nil _ _))) := by
    refine ⟨⟨List.head_mem _, fun _ => by decide +kernel⟩, fun _ => ⟨?_, ?_⟩⟩
    · intro h
      revert h
      decide +kernel
    · intro _ h
      revert h
      decide +kernel
  have hr := ((hstart.step hbegun).step hhost).step hsent
  exact ⟨_, hr, by decide +kernel, notifications_classified hr⟩

/-- At egress the initiation is reported as a packet of a neighbor. -/
theorem initiation_misclassified :
    ¬∀ (C : Config) (s : Observed C), (observed C).Reachable s → ∀ e ∈ s.log, e.Classified := by
  intro h
  have hstart : (observed ⟨2, 4⟩).Reachable (.start _) := .init rfl
  have hsent : (observed ⟨2, 4⟩).enabled begun
      (.transmit (begun.waiting.head (List.cons_ne_nil _ _))) :=
    ⟨List.head_mem _, fun _ => by decide +kernel⟩
  have hlog := h _ _ ((hstart.step begun_enabled).step hsent)
  revert hlog
  decide +kernel

end P4Survey.Speedlight
