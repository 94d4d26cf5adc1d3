import P4Survey.Speedlight.Network

/-! # Snapshots are consistent cuts

Each unit stamps the identifier it holds on what it lets through and takes over
a larger one from what it is given. So along the path of a packet the identifiers
do not go down, and a packet that some unit has counted before it took part in a
snapshot did the same at all units before.
-/

namespace P4Survey.Speedlight
open Lib

section

variable {S : Type*} {N : Topology S}

/-- The unit of `e` counts a packet that gives it the identifier `given`. -/
structure Counts (f g : Fabric N) (given : BitVec 16) (e : Event S) : Prop where
  log : g.log = f.log ++ [e]
  unit : N.Has e.unit
  given_lt : given.toNat < N.snapshots
  before : e.before = f.held e.unit
  after : e.after = if f.held e.unit < given then given else f.held e.unit
  held_self : g.held e.unit = e.after
  held_ne : ∀ v ≠ e.unit, g.held v = f.held v
  counter_self : g.counter e.unit = f.counter e.unit + 1#32
  counter_ne : ∀ v ≠ e.unit, g.counter v = f.counter v
  saved_self : f.held e.unit < given → g.saved e.unit given = f.counter e.unit
  saved_ne : ∀ v i, N.Has v → (v = e.unit → f.held e.unit < given → given ≠ i) →
    g.saved v i = f.saved v i

/-- Another unit has other registers or another port. -/
theorem ProcUnit.ne_cases {v : ProcUnit S} {s : S} {d : Direction} {p : BitVec 9}
    (hv : v ≠ ⟨s, d, p⟩) :
    (v.switch ≠ s ∨ v.direction ≠ d) ∨ ∃ q, p ≠ q ∧ v = ⟨s, d, q⟩ := by
  rcases v with ⟨t, c, q⟩
  by_cases hs : t = s
  · by_cases hd : c = d
    · subst hs hd
      right
      refine ⟨q, ?_, rfl⟩
      rintro rfl
      exact hv rfl
    · exact .inl (.inr hd)
  · exact .inl (.inl hs)

theorem counts_of_regs {f g : Fabric N} {s : S} {d : Direction} {p : BitVec 9} {given : BitVec 16}
    {e : Event S} (hlog : g.log = f.log ++ [e]) (hunit : e.unit = ⟨s, d, p⟩)
    (hp : (N.config s).HasPort p) (hgiven : given.toNat < N.snapshots)
    (hself : g.regs s d = (f.regs s d).count p given)
    (hother : ∀ t c, (t ≠ s ∨ c ≠ d) → g.regs t c = f.regs t c)
    (hbefore : e.before = f.held e.unit) (hafter : e.after = g.held e.unit) :
    Counts f g given e := by
  constructor
  · exact hlog
  · rw [hunit]
    exact hp
  · exact hgiven
  · exact hbefore
  · rw [hafter, hunit, Fabric.held, hself, Regs.heldId_count_self hp]
    rfl
  · exact hafter.symm
  · intro v hv
    rw [hunit] at hv
    rcases ProcUnit.ne_cases hv with h | ⟨q, hq, rfl⟩
    · rw [Fabric.held, hother _ _ h]
      rfl
    · rw [Fabric.held, hself, Regs.heldId_count_of_ne hq]
      rfl
  · rw [hunit, Fabric.counter, hself, Regs.counter_count_self hp]
    rfl
  · intro v hv
    rw [hunit] at hv
    rcases ProcUnit.ne_cases hv with h | ⟨q, hq, rfl⟩
    · rw [Fabric.counter, hother _ _ h]
      rfl
    · rw [Fabric.counter, hself, Regs.counter_count_of_ne hq]
      rfl
  · rw [hunit, Fabric.saved, hself]
    exact fun hmove => Regs.saved_count_self hp hgiven hmove
  · intro v i hv hne
    by_cases hu : v = ⟨s, d, p⟩
    · subst v
      rw [hunit] at hne
      rw [Fabric.saved, hself]
      exact Regs.saved_count_of_ne hp hv fun _ => hne rfl
    · rcases ProcUnit.ne_cases hu with h | ⟨q, hq, rfl⟩
      · rw [Fabric.saved, hother _ _ h]
        rfl
      · rw [Fabric.saved, hself]
        exact Regs.saved_count_of_ne hp hv fun h => absurd h hq

namespace Counts

variable {f g : Fabric N} {given : BitVec 16} {e : Event S} (h : Counts f g given e)

include h

theorem before_le : e.before ≤ e.after := by
  rw [h.before, h.after]
  split_ifs with hlt
  · exact BitVec.le_of_lt hlt
  · exact BitVec.le_refl _

theorem given_le : given ≤ e.after := by
  rw [h.after]
  split_ifs with hlt
  · exact BitVec.le_refl _
  · exact BitVec.not_lt.mp hlt

/-- A unit that moves, moves to the identifier it is given. -/
theorem moved (hmove : e.before < e.after) : f.held e.unit < given ∧ e.after = given := by
  rw [h.before, h.after] at hmove
  split_ifs at hmove with hlt
  · exact ⟨hlt, h.after.trans (if_pos hlt)⟩
  · exact absurd hmove (BitVec.lt_irrefl _)

theorem held_le (u : ProcUnit S) : f.held u ≤ g.held u := by
  by_cases hu : u = e.unit
  · subst u
    rw [h.held_self, ← h.before]
    exact h.before_le
  · rw [h.held_ne u hu]
    exact BitVec.le_refl _

end Counts

/-- An entry of the longer log is the new one or was there before. -/
theorem getElem?_concat {α : Type*} {l : List α} {a b : α} {k : ℕ} (h : (l ++ [a])[k]? = some b) :
    l[k]? = some b ∨ k = l.length ∧ b = a := by
  rcases Nat.lt_trichotomy k l.length with hk | hk | hk
  · rw [List.getElem?_append_left hk] at h
    exact .inl h
  · subst hk
    rw [List.getElem?_concat_length] at h
    exact .inr ⟨rfl, (Option.some.inj h).symm⟩
  · rw [List.getElem?_eq_none (by simpa using hk)] at h
    cases h

theorem getElem?_concat_of_some {α : Type*} {l : List α} {a b : α} {k : ℕ} (h : l[k]? = some b) :
    (l ++ [a])[k]? = some b := by
  have hk : k < l.length := (List.getElem?_eq_some_iff.mp h).1
  rw [List.getElem?_append_left hk, h]

/-- A packet between the two directions of a switch, and the entry it has made. -/
structure Queued.Fits (f : Fabric N) (q : Queued S) : Prop where
  framed : q.hdr.Framed
  header : q.hdr.snapshotHeaderValid = true
  egressPort : Forwards (N.config q.switch) q.egressPort
  snapshotId : q.hdr.snapshotHeader.snapshotId.toNat < N.snapshots
  feature : q.md.snapshotFeature = 2#2 ↔ q.hdr.IsInitiation
  event : ∃ e, f.log[q.event]? = some e ∧ e.unit.switch = q.switch ∧
    e.unit.direction = .ingress ∧
    (¬q.hdr.IsInitiation → q.hdr.snapshotHeader.snapshotId = e.after)

/-- A packet between two switches, and the entry it has made. -/
structure Sent.Fits (f : Fabric N) (m : Sent S) (h : Headers) : Prop where
  bits : ∃ payload, m.bits = deparse h payload
  framed : h.Framed
  header : h.snapshotHeaderValid = true
  initiation : ¬h.IsInitiation
  snapshotId : h.snapshotHeader.snapshotId.toNat < N.snapshots
  event : ∃ e, f.log[m.event]? = some e ∧ e.unit.direction = .egress ∧
    N.link e.unit.switch e.unit.port = some (m.switch, m.port) ∧
    h.snapshotHeader.snapshotId = e.after

/-- The packets and the entries they have made. -/
structure Flow (f : Fabric N) : Prop where
  stamped : ∀ e ∈ f.log, e.initiation = false → e.leaves = some e.after
  caused : ∀ e ∈ f.log, e.initiation = false → ∀ j, e.prev = some j →
    ∃ e', f.log[j]? = some e' ∧ N.Follows e'.unit e.unit ∧ e'.after ≤ e.after
  queued : ∀ q ∈ f.queued, q.Fits f
  wire : ∀ m ∈ f.wire, ∃ h, m.Fits f h

theorem Flow.start : Flow (.start N) where
  stamped e he := by cases he
  caused e he := by cases he
  queued q hq := by cases hq
  wire m hm := by cases hm

theorem Queued.Fits.mono {f g : Fabric N} {e : Event S} (hlog : g.log = f.log ++ [e])
    {q : Queued S} (h : q.Fits f) : q.Fits g := by
  obtain ⟨hframed, hheader, hport, hid, hfeature, e', he', hrest⟩ := h
  exact ⟨hframed, hheader, hport, hid, hfeature, e', hlog ▸ getElem?_concat_of_some he', hrest⟩

theorem Sent.Fits.mono {f g : Fabric N} {e : Event S} (hlog : g.log = f.log ++ [e])
    {m : Sent S} {h : Headers} (hm : m.Fits f h) : m.Fits g h := by
  obtain ⟨hbits, hframed, hheader, hinit, hid, e', he', hrest⟩ := hm
  exact ⟨hbits, hframed, hheader, hinit, hid, e', hlog ▸ getElem?_concat_of_some he', hrest⟩

/-- A new entry does not disturb the old ones. -/
theorem Flow.append {f g : Fabric N} {e : Event S} (hf : Flow f) (hlog : g.log = f.log ++ [e])
    (hstamped : e.initiation = false → e.leaves = some e.after)
    (hcaused : e.initiation = false → ∀ j, e.prev = some j →
      ∃ e', f.log[j]? = some e' ∧ N.Follows e'.unit e.unit ∧ e'.after ≤ e.after)
    (hqueued : ∀ q ∈ g.queued, q ∈ f.queued ∨ q.Fits g)
    (hwire : ∀ m ∈ g.wire, m ∈ f.wire ∨ ∃ h, m.Fits g h) : Flow g := by
  constructor
  · intro e' he' hinit
    rw [hlog] at he'
    rcases List.mem_append.mp he' with he' | he'
    · exact hf.stamped e' he' hinit
    · rw [List.mem_singleton.mp he'] at hinit ⊢
      exact hstamped hinit
  · intro e' he' hinit j hj
    rw [hlog] at he'
    rcases List.mem_append.mp he' with he' | he'
    · obtain ⟨e'', hget, hrest⟩ := hf.caused e' he' hinit j hj
      exact ⟨e'', hlog ▸ getElem?_concat_of_some hget, hrest⟩
    · rw [List.mem_singleton.mp he'] at hinit hj ⊢
      obtain ⟨e'', hget, hrest⟩ := hcaused hinit j hj
      exact ⟨e'', hlog ▸ getElem?_concat_of_some hget, hrest⟩
  · intro q hq
    rcases hqueued q hq with hq | hq
    · exact (hf.queued q hq).mono hlog
    · exact hq
  · intro m hm
    rcases hwire m hm with hm | hm
    · obtain ⟨h, hfits⟩ := hf.wire m hm
      exact ⟨h, hfits.mono hlog⟩
    · exact hm

/-- What holds of every packet that arrives at a port. -/
structure Arrives (N : Topology S) (s : S) (port : BitVec 9) (h : Headers) : Prop where
  framed : h.Framed
  ihl : h.feature = 0#2 → h.ipv4.ihl ≠ 3#4
  port : (N.config s).HasPort (h.unitPort port)
  snapshotId : h.snapshotHeader.snapshotId.toNat < N.snapshots

theorem Admissible.arrives {s : S} {port : BitVec 9} {h : Headers}
    (ha : Admissible (N.config s) port h) :
    Arrives N s port h := by
  refine ⟨ha.framed, ?_, ha.port, ?_⟩
  · intro _ hihl
    have hle := ha.ihl
    rw [hihl] at hle
    exact absurd hle (by decide)
  · cases hv : h.snapshotHeaderValid with
    | true => exact ha.snapshotId hv
    | false =>
      have hsnap := ha.framed.snapshotHeader
      rw [hv] at hsnap
      split_ifs at hsnap
      rw [hsnap.2]
      exact N.snapshots_pos

theorem regs_congr {f g : Fabric N} {s : S} (h : g.switch s = f.switch s) (c : Direction) :
    g.regs s c = f.regs s c := by
  cases c with
  | ingress => exact congrArg Switch.ingress h
  | egress => exact congrArg Switch.egress h

/-- What ingress queues, where `e` is the entry it has made. -/
theorem fits_of_stamps {f g : Fabric N} {s : S} {port : BitVec 9} {h : Headers}
    {forward : BitVec 9} {y : Ingress (N.config s)} {e : Event S}
    (hstamps : Pass.Stamps (f.arriving s port h forward) y (h.unitPort port))
    (ha : Arrives N s port h) (hforward : Forwards (N.config s) forward)
    (hlog : g.log[f.log.length]? = some e) (hswitch : e.unit.switch = s)
    (hdirection : e.unit.direction = .ingress) (hafter : e.after = y.regs.heldId (h.unitPort port))
    (hbounded : e.after.toNat < N.snapshots) (payload : List Bool) :
    Queued.Fits g ⟨s, y.hdr, payload, y.md, y.tocpu, port, y.egressSpec, f.log.length⟩ := by
  constructor
  · exact hstamps.framed
  · exact hstamps.header
  · dsimp only
    by_cases hinit : h.IsInitiation
    · rw [(hstamps.forwarded hinit).2]
      exact .inr ha.port
    · rw [(hstamps.stamped hinit).2.2]
      exact hforward
  · dsimp only
    by_cases hinit : h.IsInitiation
    · rw [(hstamps.forwarded hinit).1]
      exact ha.snapshotId
    · rw [(hstamps.stamped hinit).1, ← hafter]
      exact hbounded
  · dsimp only
    rw [hstamps.snapshotFeature, hstamps.initiation]
    exact Headers.feature_eq_two _
  · refine ⟨e, hlog, hswitch, hdirection, ?_⟩
    intro hinit
    dsimp only at hinit ⊢
    rw [hstamps.initiation] at hinit
    rw [(hstamps.stamped hinit).1, hafter]

/-- What egress sends, where `e` is the entry it has made. -/
theorem fits_of_leaves {f g : Fabric N} {q : Queued S} {y : Egress (N.config q.switch)} {e : Event S}
    {m : Sent S} (hleaves : Pass.Leaves (f.leaving q) y q.egressPort) (hdropped : y.dropped = false)
    (hbits : m.bits = deparse (ipv4ChksumCalcSnapshot y.hdr) q.payload)
    (hlog : g.log[m.event]? = some e) (hdirection : e.unit.direction = .egress)
    (hlink : N.link e.unit.switch e.unit.port = some (m.switch, m.port))
    (hafter : e.after = y.regs.heldId q.egressPort) (hbounded : e.after.toNat < N.snapshots) :
    ∃ h, m.Fits g h := by
  have hnot : ¬q.hdr.IsInitiation := by
    intro hinit
    rw [hleaves.initiation hinit] at hdropped
    cases hdropped
  obtain ⟨hframed, hheader, hinit⟩ := hleaves.framed hnot
  obtain ⟨-, hid, -⟩ := hleaves.stamped hnot
  obtain ⟨ip, hihl, hchk⟩ := y.hdr.chksum_eq
  rw [hchk] at hbits
  refine ⟨_, ⟨_, hbits⟩, hframed.rewrite hheader ip hihl y.hdr.snapshotHeader, hheader, hinit, ?_,
    e, hlog, hdirection, hlink, hid.trans hafter.symm⟩
  dsimp only
  rw [hid, ← hafter]
  exact hbounded

variable [DecidableEq S]

/-- What the registers and the log have to do with each other. -/
structure Ledger (f : Fabric N) : Prop where
  counter : ∀ u, N.Has u → f.counter u = .ofNat 32 (f.log.countP (·.unit = u))
  bounded : ∀ u, N.Has u → (f.held u).toNat < N.snapshots
  past : ∀ e ∈ f.log, N.Has e.unit ∧ e.after ≤ f.held e.unit
  saved : ∀ k e, f.log[k]? = some e → e.before < e.after →
    f.saved e.unit e.after = .ofNat 32 ((f.log.take k).countP (·.unit = e.unit))

theorem Ledger.start : Ledger (.start N) where
  counter u _ := by
    rcases u with ⟨s, d, p⟩
    cases d <;> exact Register.read_fill_zero _
  bounded u _ := by
    have hzero : (Fabric.start N).held u = 0#16 := by
      rcases u with ⟨s, d, p⟩
      cases d <;> exact Register.read_fill_zero _
    rw [hzero]
    exact N.snapshots_pos
  past e he := by cases he
  saved k e he := by cases he

/-- One packet more keeps the ledger. -/
theorem Counts.ledger {f g : Fabric N} {given : BitVec 16} {e : Event S} (h : Counts f g given e)
    (hf : Ledger f) : Ledger g := by
  constructor
  · intro u hu
    rw [h.log, List.countP_append, List.countP_singleton]
    by_cases he : u = e.unit
    · subst u
      rw [h.counter_self, hf.counter _ hu, if_pos (by simp), BitVec.ofNat_add]
    · rw [h.counter_ne u he, hf.counter u hu, if_neg (by simpa using Ne.symm he)]
      rfl
  · intro u hu
    by_cases he : u = e.unit
    · subst u
      rw [h.held_self, h.after]
      split_ifs
      · exact h.given_lt
      · exact hf.bounded _ hu
    · rw [h.held_ne u he]
      exact hf.bounded u hu
  · intro e' he'
    rw [h.log] at he'
    rcases List.mem_append.mp he' with he' | he'
    · exact ⟨(hf.past e' he').1, BitVec.le_trans (hf.past e' he').2 (h.held_le _)⟩
    · rw [List.mem_singleton.mp he', h.held_self]
      exact ⟨h.unit, BitVec.le_refl _⟩
  · intro k e' he' hmove
    rw [h.log] at he' ⊢
    rcases getElem?_concat he' with he' | ⟨rfl, rfl⟩
    · have hk : k < f.log.length := (List.getElem?_eq_some_iff.mp he').1
      obtain ⟨hunit, hle⟩ := hf.past e' (List.mem_of_getElem? he')
      rw [List.take_append_of_le_length hk.le, ← hf.saved k e' he' hmove]
      apply h.saved_ne _ _ hunit
      -- the unit is past this identifier, so it does not move there again
      rintro hu hlt rfl
      rw [hu] at hle
      exact absurd hlt (BitVec.not_lt.mpr hle)
    · obtain ⟨hlt, hgiven⟩ := h.moved hmove
      rw [List.take_left' rfl, hgiven, h.saved_self hlt, hf.counter _ h.unit]

theorem regs_update_ingress {f g : Fabric N} {s : S} {r : Regs (N.config s) (N.config s).neighborsIng}
    (h : g.switch = Function.update f.switch s { f.switch s with ingress := r }) :
    g.regs s .ingress = r ∧ ∀ t c, (t ≠ s ∨ c ≠ .ingress) → g.regs t c = f.regs t c := by
  have hself : g.switch s = { f.switch s with ingress := r } := by
    rw [h, Function.update_self]
  refine ⟨congrArg Switch.ingress hself, ?_⟩
  intro t c hne
  by_cases ht : t = s
  · subst t
    cases c with
    | ingress => simp at hne
    | egress => exact (congrArg Switch.egress hself).trans rfl
  · apply regs_congr
    rw [h, Function.update_of_ne ht]

theorem regs_update_egress {f g : Fabric N} {s : S} {r : Regs (N.config s) (N.config s).neighborsEgr}
    (h : g.switch = Function.update f.switch s { f.switch s with egress := r }) :
    g.regs s .egress = r ∧ ∀ t c, (t ≠ s ∨ c ≠ .egress) → g.regs t c = f.regs t c := by
  have hself : g.switch s = { f.switch s with egress := r } := by
    rw [h, Function.update_self]
  refine ⟨congrArg Switch.egress hself, ?_⟩
  intro t c hne
  by_cases ht : t = s
  · subst t
    cases c with
    | ingress => exact (congrArg Switch.ingress hself).trans rfl
    | egress => simp at hne
  · apply regs_congr
    rw [h, Function.update_of_ne ht]

section Accept

variable {f : Fabric N} {s : S} {port : BitVec 9} {h : Headers} {forward : BitVec 9}

theorem enters (forward : BitVec 9) (hf : Ledger f) (ha : Arrives N s port h) :
    ∃ given : BitVec 16, given.toNat < N.snapshots ∧
      (h.feature ≠ 0#2 → given = h.snapshotHeader.snapshotId) ∧
      Pass.Stamps (f.arriving s port h forward) (f.arriving s port h forward).ingress
        (h.unitPort port) ∧
      (f.arriving s port h forward).ingress.regs =
        (f.switch s).ingress.count (h.unitPort port) given := by
  by_cases hfeature : h.feature = 0#2
  · refine ⟨_, ?_, fun h => absurd hfeature h,
      Pass.ingress_host ha.framed (ha.ihl hfeature) rfl ha.port hfeature⟩
    exact hf.bounded ⟨s, .ingress, _⟩ ha.port
  · exact ⟨_, ha.snapshotId, fun _ => rfl,
      Pass.ingress_header ha.framed rfl ha.port ha.snapshotId.le hfeature⟩

/-- Ingress handles one packet and queues it. -/
theorem accept_counts (payload : List Bool) (hf : Ledger f) (ha : Arrives N s port h)
    (hforward : Forwards (N.config s) forward) (prev : Option ℕ) :
    ∃ given e q, Counts f (f.accept s port h payload forward prev) given e ∧
      (h.feature ≠ 0#2 → given = h.snapshotHeader.snapshotId) ∧
      e.unit = ⟨s, .ingress, h.unitPort port⟩ ∧ e.prev = prev ∧
      (e.initiation = false → ¬h.IsInitiation ∧ e.leaves = some e.after) ∧
      (f.accept s port h payload forward prev).queued = q :: f.queued ∧
      q.Fits (f.accept s port h payload forward prev) := by
  obtain ⟨given, hlt, hgiven, hstamps, hcounted⟩ := enters forward hf ha
  obtain ⟨y, hy⟩ : ∃ y, y = (f.arriving s port h forward).ingress := ⟨_, rfl⟩
  rw [← hy] at hstamps hcounted
  have hport := hstamps.effectivePort
  obtain ⟨e, he⟩ : ∃ e : Event S, e = ⟨⟨s, .ingress, y.md.effectivePort⟩,
    decide (y.md.snapshotFeature = 2#2), (f.switch s).ingress.heldId y.md.effectivePort,
    y.regs.heldId y.md.effectivePort, some y.hdr.snapshotHeader.snapshotId, prev⟩ := ⟨_, rfl⟩
  obtain ⟨g, hg⟩ : ∃ g, g = f.accept s port h payload forward prev := ⟨_, rfl⟩
  have hrun : g = ⟨Function.update f.switch s { f.switch s with ingress := y.regs },
      ⟨s, y.hdr, payload, y.md, y.tocpu, port, y.egressSpec, f.log.length⟩ :: f.queued,
      f.wire, f.log ++ [e]⟩ := by
    rw [hg, he, hy]
    rfl
  rw [← hg]
  obtain ⟨hregs, hother⟩ := regs_update_ingress (f := f) (g := g) (s := s) (r := y.regs) (by rw [hrun])
  have hcounts : Counts f g given e := by
    apply counts_of_regs (by rw [hrun]) (by rw [he, hport]) ha.port hlt
    · rw [hregs, hcounted]
      rfl
    · exact hother
    · rw [he]
      rfl
    · rw [he]
      exact congrArg (fun r => Regs.heldId r y.md.effectivePort) hregs.symm
  have hbounded := (hcounts.ledger hf).bounded _ hcounts.unit
  rw [hcounts.held_self] at hbounded
  have hafter : e.after = y.regs.heldId (h.unitPort port) := by
    rw [he, hport]
  refine ⟨given, e, _, hcounts, hgiven, ?_, ?_, ?_, by rw [hrun], ?_⟩
  · rw [he, hport]
  · rw [he]
  · intro hinit
    rw [he] at hinit
    have hnot : ¬h.IsInitiation := by
      rw [← Headers.feature_eq_two]
      exact fun h => of_decide_eq_false hinit (hstamps.snapshotFeature.trans h)
    refine ⟨hnot, ?_⟩
    rw [hafter, ← (hstamps.stamped hnot).1, he]
  · apply fits_of_stamps hstamps ha hforward _ _ _ hafter hbounded
    · rw [hrun, List.getElem?_concat_length]
    · rw [he]
    · rw [he]

end Accept

/-- A packet that was not on a cable before came out of egress. -/
theorem mem_transmit_wire {f : Fabric N} {q : Queued S} (hcpu : q.egressPort ≠ cpuPort) {m : Sent S}
    (hm : m ∈ (f.transmit q).wire) :
    m ∈ f.wire ∨ (f.leaving q).egress.dropped = false ∧
      N.link q.switch q.egressPort = some (m.switch, m.port) ∧
      m.bits = deparse (ipv4ChksumCalcSnapshot (f.leaving q).egress.hdr) q.payload ∧
      m.event = f.log.length := by
  rw [Fabric.transmit, if_neg hcpu] at hm
  dsimp only at hm
  split at hm
  · next t p hlink =>
    split_ifs at hm with hdropped
    · exact .inl hm
    · rcases List.mem_cons.mp hm with rfl | hm
      · exact .inr ⟨Bool.eq_false_of_not_eq_true hdropped, hlink, rfl, rfl⟩
      · exact .inl hm
  · exact .inl hm

/-- Egress handles one packet and sends it on unless it is an initiation. -/
theorem transmit_counts {f : Fabric N} {q : Queued S} (hf : Ledger f) (hq : q.Fits f)
    (hcpu : q.egressPort ≠ cpuPort) :
    ∃ e, Counts f (f.transmit q) q.hdr.snapshotHeader.snapshotId e ∧
      e.unit = ⟨q.switch, .egress, q.egressPort⟩ ∧ e.prev = some q.event ∧
      (e.initiation = false → ¬q.hdr.IsInitiation ∧ e.leaves = some e.after) ∧
      (f.transmit q).queued = f.queued ∧
      ∀ m ∈ (f.transmit q).wire, m ∈ f.wire ∨ ∃ h, m.Fits (f.transmit q) h := by
  have hhas : (N.config q.switch).HasPort q.egressPort := hq.egressPort.resolve_left hcpu
  obtain ⟨hleaves, hcounted⟩ : Pass.Leaves (f.leaving q) (f.leaving q).egress q.egressPort ∧
      (f.leaving q).egress.regs = (f.switch q.switch).egress.count q.egressPort
        q.hdr.snapshotHeader.snapshotId :=
    Pass.egress_header hq.framed hq.header hhas hq.snapshotId.le rfl
  obtain ⟨y, hy⟩ : ∃ y, y = (f.leaving q).egress := ⟨_, rfl⟩
  rw [← hy] at hleaves hcounted
  have hport : y.md.effectivePort = q.egressPort := hleaves.effectivePort
  obtain ⟨e, he⟩ : ∃ e : Event S, e = ⟨⟨q.switch, .egress, y.md.effectivePort⟩,
    decide (y.md.snapshotFeature = 2#2), (f.switch q.switch).egress.heldId y.md.effectivePort,
    y.regs.heldId y.md.effectivePort,
    if y.dropped then none else some y.hdr.snapshotHeader.snapshotId, some q.event⟩ := ⟨_, rfl⟩
  obtain ⟨g, hg⟩ : ∃ g, g = f.transmit q := ⟨_, rfl⟩
  have hrun : g = { f with
      switch := Function.update f.switch q.switch { f.switch q.switch with egress := y.regs }
      wire := (f.transmit q).wire
      log := f.log ++ [e] } := by
    rw [hg, he, hy, Fabric.transmit, if_neg hcpu]
    rfl
  rw [← hg]
  obtain ⟨hregs, hother⟩ :=
    regs_update_egress (f := f) (g := g) (s := q.switch) (r := y.regs) (by rw [hrun])
  have hcounts : Counts f g q.hdr.snapshotHeader.snapshotId e := by
    apply counts_of_regs (by rw [hrun]) (by rw [he, hport]) hhas hq.snapshotId
    · rw [hregs, hcounted]
      rfl
    · exact hother
    · rw [he]
      rfl
    · rw [he]
      exact congrArg (fun r => Regs.heldId r y.md.effectivePort) hregs.symm
  have hbounded := (hcounts.ledger hf).bounded _ hcounts.unit
  rw [hcounts.held_self] at hbounded
  have hafter : e.after = y.regs.heldId q.egressPort := by
    rw [he, hport]
  refine ⟨e, hcounts, ?_, ?_, ?_, by rw [hrun], ?_⟩
  · rw [he, hport]
  · rw [he]
  · intro hinit
    rw [he] at hinit
    have hnot : ¬q.hdr.IsInitiation := by
      rw [← hq.feature]
      exact fun h => of_decide_eq_false hinit (hleaves.snapshotFeature.trans h)
    obtain ⟨hdropped, hid, -⟩ := hleaves.stamped hnot
    refine ⟨hnot, ?_⟩
    rw [hafter, ← hid, he, hdropped]
    rfl
  · intro m hm
    rcases mem_transmit_wire hcpu (hg ▸ hm) with hm | ⟨hdropped, hlink, hbits, hevent⟩
    · exact .inl hm
    · right
      rw [← hy] at hdropped hbits
      apply fits_of_leaves hleaves hdropped hbits _ _ _ hafter hbounded
      · rw [hevent, hrun, List.getElem?_concat_length]
      · rw [he]
      · rw [he, hport]
        exact hlink

/-- A packet from outside has no unit behind it. -/
theorem Flow.inject {f : Fabric N} {s : S} {port : BitVec 9} {bits : List Bool} {forward : BitVec 9}
    (hl : Ledger f) (hf : Flow f) (ha : Arrives N s port (parse bits).1)
    (hforward : Forwards (N.config s) forward) : Flow (f.enter s port bits forward none) := by
  obtain ⟨given, e, q, hcounts, -, -, hprev, hinit, hqueued, hq⟩ :=
    accept_counts (parse bits).2 hl ha hforward none
  apply hf.append hcounts.log
  · exact fun h => (hinit h).2
  · intro _ j hj
    rw [hprev] at hj
    cases hj
  · intro q' hq'
    rw [hqueued] at hq'
    rcases List.mem_cons.mp hq' with rfl | hq'
    · exact .inr hq
    · exact .inl hq'
  · exact fun m hm => .inl hm

/-- A packet from a cable brings the identifier of the unit it left. -/
theorem Flow.receive {f : Fabric N} {m : Sent S} {forward : BitVec 9} (hl : Ledger f) (hf : Flow f)
    (hm : m ∈ f.wire) (hforward : Forwards (N.config m.switch) forward) :
    Arrives N m.switch m.port (parse m.bits).1 ∧
      Flow (f.enter m.switch m.port m.bits forward (some m.event)) := by
  obtain ⟨h, ⟨payload, hbits⟩, hframed, hheader, hnot, hid, e', hget, hdir, hlink, hid'⟩ := hf.wire m hm
  have hparse : (parse m.bits).1 = h := by
    rw [hbits, parse_deparse hframed]
  have hfeature := hframed.header.mp hheader
  have hport : h.unitPort m.port = m.port := if_neg hnot
  have ha : Arrives N m.switch m.port (parse m.bits).1 := by
    rw [hparse]
    exact ⟨hframed, fun h => absurd h hfeature, by rw [hport]; exact N.link_port hlink, hid⟩
  refine ⟨ha, ?_⟩
  obtain ⟨given, e, q, hcounts, hgiven, hunit, hprev, hinit, hqueued, hq⟩ :=
    accept_counts (parse m.bits).2 hl ha hforward (some m.event)
  rw [hparse] at hgiven hunit
  apply hf.append hcounts.log
  · exact fun h => (hinit h).2
  · intro _ j hj
    rw [hprev] at hj
    refine ⟨e', Option.some.inj hj ▸ hget, ?_, ?_⟩
    · rw [Topology.Follows, hdir, hunit, hport]
      exact ⟨rfl, hlink⟩
    · rw [← hid', ← hgiven hfeature]
      exact hcounts.given_le
  · intro q' hq'
    rw [hqueued] at hq'
    rcases List.mem_cons.mp hq' with rfl | hq'
    · exact .inr hq
    · exact .inl hq'
  · exact fun m hm => .inl hm

/-- A queued packet brings the identifier of the ingress unit it passed. -/
theorem Flow.transmit {f : Fabric N} {q : Queued S} (hl : Ledger f) (hf : Flow f)
    (hq : q ∈ f.queued) (hcpu : q.egressPort ≠ cpuPort) : Flow (f.transmit q) := by
  have hfits := hf.queued q hq
  obtain ⟨e', hget, hswitch, hdir, hid⟩ := hfits.event
  obtain ⟨e, hcounts, hunit, hprev, hinit, hqueued, hwire⟩ := transmit_counts hl hfits hcpu
  apply hf.append hcounts.log
  · exact fun h => (hinit h).2
  · intro hnot j hj
    rw [hprev] at hj
    refine ⟨e', Option.some.inj hj ▸ hget, ?_, ?_⟩
    · rw [Topology.Follows, hdir, hunit]
      exact ⟨rfl, hswitch.symm⟩
    · rw [← hid (hinit hnot).1]
      exact hcounts.given_le
  · intro q' hq'
    rw [hqueued] at hq'
    exact .inl hq'
  · exact hwire

/-- Every step lets one unit count a packet or leaves the switches alone. -/
theorem step_counts {f : Fabric N} (hl : Ledger f) (hf : Flow f) {a : NetLabel S}
    (ha : (network N).enabled f a) :
    (network N).next f a = f ∨ ∃ given e, Counts f ((network N).next f a) given e := by
  cases a with
  | inject s port bits forward =>
    obtain ⟨given, e, _, hcounts, -⟩ := accept_counts (parse bits).2 hl ha.1.arrives ha.2 none
    exact .inr ⟨given, e, hcounts⟩
  | receive m forward =>
    obtain ⟨given, e, _, hcounts, -⟩ :=
      accept_counts (parse m.bits).2 hl (hf.receive hl ha.1 ha.2).1 ha.2 (some m.event)
    exact .inr ⟨given, e, hcounts⟩
  | transmit q =>
    by_cases hcpu : q.egressPort = cpuPort
    · exact .inl (if_pos hcpu)
    · obtain ⟨e, hcounts, -⟩ := transmit_counts hl (hf.queued q ha) hcpu
      exact .inr ⟨_, e, hcounts⟩

theorem flow_step {f : Fabric N} (hl : Ledger f) (hf : Flow f) {a : NetLabel S}
    (ha : (network N).enabled f a) : Flow ((network N).next f a) := by
  cases a with
  | inject s port bits forward => exact hf.inject hl ha.1.arrives ha.2
  | receive m forward => exact (hf.receive hl ha.1 ha.2).2
  | transmit q =>
    by_cases hcpu : q.egressPort = cpuPort
    · have hsame : (network N).next f (.transmit q) = f := if_pos hcpu
      rw [hsame]
      exact hf
    · exact hf.transmit hl ha hcpu

theorem ledger_flow_of_reachable {f : Fabric N} (h : (network N).Reachable f) :
    Ledger f ∧ Flow f := by
  apply h.invariant
  · rintro f rfl
    exact ⟨Ledger.start, Flow.start⟩
  · rintro f a - ⟨hl, hf⟩ ha
    refine ⟨?_, flow_step hl hf ha⟩
    rcases step_counts hl hf ha with hsame | ⟨given, e, hcounts⟩
    · rw [hsame]
      exact hl
    · exact hcounts.ledger hl

theorem held_mono {f g : Fabric N} (h : (network N).Reachable f) (hg : (network N).Steps f g)
    (u : ProcUnit S) : f.held u ≤ g.held u := by
  have hmono := hg.monotone (f := fun f => (f.held u).toNat) h fun f a hr ha => by
    obtain ⟨hl, hf⟩ := ledger_flow_of_reachable hr
    rcases step_counts hl hf ha with hsame | ⟨given, e, hcounts⟩
    · rw [hsame]
    · exact hcounts.held_le u
  exact hmono

/-- The identifiers of the units never decrease. Every packet but an initiation leaves a unit
with the identifier that the unit then holds. A unit that moved to an identifier has saved for
it the number of packets it had counted by then, as long as an `int` counts them. And no packet
but an initiation was counted by a unit before that unit moved to `i` or beyond, and handled by
the unit before it on its path when that one had moved there. -/
theorem consistent_cut {f : Fabric N} (h : (network N).Reachable f) :
    (∀ g, (network N).Steps f g → ∀ u, f.held u ≤ g.held u) ∧
      (∀ e ∈ f.log, e.initiation = false → e.leaves = some e.after) ∧
      (∀ k e, f.log[k]? = some e → e.before < e.after →
        (f.log.take k).countP (·.unit = e.unit) < 2 ^ 31 →
        (f.saved e.unit e.after).toNat = (f.log.take k).countP (·.unit = e.unit)) ∧
      ∀ i : BitVec 16, ∀ e ∈ f.log, e.initiation = false → ∀ j, e.prev = some j →
        ∃ e', f.log[j]? = some e' ∧ N.Follows e'.unit e.unit ∧ ¬(e.after < i ∧ i ≤ e'.after) := by
  obtain ⟨hl, hf⟩ := ledger_flow_of_reachable h
  refine ⟨fun g hg u => held_mono h hg u, hf.stamped, ?_, ?_⟩
  · intro k e hk hmove hlt
    rw [hl.saved k e hk hmove, BitVec.toNat_ofNat, Nat.mod_eq_of_lt (by omega)]
  intro i e he hinit j hj
  obtain ⟨e', hget, hfollows, hle⟩ := hf.caused e he hinit j hj
  refine ⟨e', hget, hfollows, ?_⟩
  rintro ⟨hlt, hge⟩
  exact absurd hlt (BitVec.not_lt.mpr (BitVec.le_trans hge hle))

end

/-- One switch with two ports, both for hosts. -/
def oneSwitch : Topology Unit where
  ports _ := 2
  snapshots := 4
  snapshots_pos := by decide
  link _ _ := none
  link_port h := by cases h

/-- The packet that starts a snapshot on a port. -/
def initiation (snapshotId : BitVec 16) (portId : BitVec 9) : Headers :=
  { (default : Headers) with
    ethernetValid := true
    ethernet.etherType := 0x800#16
    ipv4Valid := true
    ipv4.ihl := 7#4
    ipv4OptionValid := true
    ipv4Option := ⟨1#1, 2#2, ipv4OptionSsCpu, 0x30#8⟩
    snapshotHeaderValid := true
    snapshotHeader := ⟨snapshotId, 0#7, portId, 0#16⟩ }

/-- A packet of a host. -/
def hostPacket : Headers :=
  { (default : Headers) with
    ethernetValid := true
    ethernet.etherType := 0x800#16
    ipv4Valid := true
    ipv4.ihl := 5#4 }

theorem framed_initiation (snapshotId : BitVec 16) (portId : BitVec 9) :
    (initiation snapshotId portId).Framed := ⟨⟨rfl, rfl⟩, ⟨rfl, rfl⟩, rfl, rfl, rfl⟩

theorem framed_hostPacket : hostPacket.Framed :=
  ⟨⟨rfl, rfl⟩, ⟨rfl, rfl⟩, rfl, ⟨rfl, rfl⟩, ⟨rfl, rfl⟩⟩

/-- A snapshot is started on the first port, and a packet comes in there for the second. -/
def initiated : Fabric oneSwitch :=
  ((Fabric.start oneSwitch).accept () 0#9 (initiation 1#16 1#9) [] 0#9 none).accept () 1#9
    hostPacket [] 2#9 none

theorem reachable_initiated : (network oneSwitch).Reachable initiated := by
  have hstart : (network oneSwitch).Reachable (.start oneSwitch) := .init rfl
  have hinit := parse_deparse (framed_initiation 1#16 1#9) []
  have hhost := parse_deparse framed_hostPacket []
  have hrun := hstart.run (l := [.inject () 0#9 (deparse (initiation 1#16 1#9) []) 0#9,
    .inject () 1#9 (deparse hostPacket []) 2#9]) (by
      refine ⟨⟨?_, .inl rfl⟩, ⟨?_, .inr (by decide)⟩, trivial⟩
      · rw [hinit]
        exact ⟨framed_initiation _ _, by decide, by decide, fun _ => by decide⟩
      · rw [hhost]
        exact ⟨framed_hostPacket, by decide, by decide, fun h => by cases h⟩)
  simp only [System.run, network, Fabric.enter, hinit, hhost] at hrun
  exact hrun

/-- The packet of the host, on its way to the second port. -/
def queuedHost : Queued Unit := initiated.queued.head (List.cons_ne_nil _ _)

theorem consistent_cut_initiated :
    ∃ f : Fabric oneSwitch, (network oneSwitch).Reachable f ∧
      f.log.map (fun e => (e.before, e.after)) = [(0#16, 1#16), (1#16, 1#16), (0#16, 1#16)] ∧
      f.log.map (·.prev) = [none, none, some 1] ∧
      f.saved ⟨(), .egress, 2#9⟩ 1#16 = 0#32 ∧
      ∀ e ∈ f.log, e.initiation = false → e.leaves = some e.after := by
  have henabled : (network oneSwitch).enabled initiated (.transmit queuedHost) := List.head_mem _
  have hr := reachable_initiated.step henabled
  refine ⟨_, hr, ?_, ?_, ?_, (consistent_cut hr).2.1⟩
  · decide +kernel
  · decide +kernel
  · decide +kernel

end P4Survey.Speedlight
