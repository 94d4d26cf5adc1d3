import P4Survey.Hula.BestPath

/-! # The ports of flows

A data packet whose cell is zero asks for the next hop to its destination and
leaves the port in the cell; a packet that finds a port there takes it. The
cell belongs to the hash of a flow, so the port is one of the packet's own
destination as long as no packet to another destination filled the cell.
-/

namespace P4Survey.Hula
open Lib

variable {t : Tables} {r : Regs} {a : Arrival}

section Ports

def Arrival.IsData (a : Arrival) : Prop := ¬a.hdr.hula.isValid = true ∧ a.hdr.ipv4.isValid = true

instance (a : Arrival) : Decidable a.IsData := inferInstanceAs (Decidable (_ ∧ _))

variable (t)

/-- What ingress sets for the packet: its port, or the port packets are dropped at. -/
def Tables.spec (r : Regs) (a : Arrival) : BitVec 9 := ((a.pass r).ingress t).egressSpec

/-- The port a packet leaves at, unless it is dropped. -/
def Entry.port (e : Entry) : Option (BitVec 9) := (e.out t).map Prod.fst

/-- The table has no index for a destination whose packets it drops. -/
def Tables.nhopIndex (dstAddr : BitVec 32) : Option (BitVec 32) :=
  match t.nhopAction dstAddr with
  | .hulaGetNhop index => some index
  | .drop => none

variable {t}

theorem port_eq_some {e : Entry} {p : BitVec 9} :
    e.port t = some p ↔ t.spec e.regs e.arrival = p ∧ p ≠ dropPort := by
  unfold Entry.port Entry.out Tables.emit Tables.spec
  dsimp only
  split_ifs with hdrop
  · simp only [Option.map_none, reduceCtorEq, false_iff, not_and, not_not]
    intro hp
    rw [← hp, hdrop]
  · simp only [Option.map_some, Option.some.injEq]
    constructor
    · intro hp
      exact ⟨hp, hp ▸ hdrop⟩
    · exact fun h => h.1

end Ports

section Step

variable (x : Pass)

theorem dmac_egressSpec : (x.dmac t).egressSpec = x.egressSpec := by
  unfold Pass.dmac
  split <;> rfl

/-- A packet that finds no port asks for the next hop and leaves what it got in the cell. -/
theorem data_fresh (h : a.IsData) (hcell : r.flowPort.read (flowHash a.hdr.flow) = 0#16) :
    t.spec r a = (match t.nhopIndex a.hdr.ipv4.fields.dstAddr with
      | some i => (r.dstindexNhop.read i.toNat).setWidth 9
      | none => dropPort) ∧
    t.regs r a = { r with
      flowPort := r.flowPort.write (flowHash a.hdr.flow) ((t.spec r a).setWidth 16) } := by
  have hport : (a.pass r).dataPort t =
      { (a.pass r).hulaNhop t with
        regs.flowPort := ((a.pass r).hulaNhop t).regs.flowPort.write (flowHash a.hdr.flow)
          (((a.pass r).hulaNhop t).egressSpec.setWidth 16) } := if_pos hcell
  have hspec : t.spec r a = ((a.pass r).hulaNhop t).egressSpec := by
    rw [Tables.spec, ingress_egressSpec, branches_data h.1 h.2, dmac_egressSpec, hport]
  constructor
  · rw [hspec, Pass.hulaNhop, Tables.nhopIndex]
    change (Pass.egressSpec (match t.nhopAction a.hdr.ipv4.fields.dstAddr with
      | .hulaGetNhop index => _
      | .drop => _)) = _
    cases t.nhopAction a.hdr.ipv4.fields.dstAddr with
    | hulaGetNhop index => rfl
    | drop => rfl
  · rw [hspec, Tables.regs, ingress_regs, branches_data h.1 h.2, dmac_regs, hport]
    dsimp only
    rw [hulaNhop_regs]
    rfl

/-- A packet that finds a port takes it. -/
theorem data_known (h : a.IsData) (hcell : r.flowPort.read (flowHash a.hdr.flow) ≠ 0#16) :
    t.spec r a = (r.flowPort.read (flowHash a.hdr.flow)).setWidth 9 ∧ t.regs r a = r := by
  have hport : (a.pass r).dataPort t =
      { a.pass r with egressSpec := (r.flowPort.read (flowHash a.hdr.flow)).setWidth 9 } :=
    if_neg hcell
  constructor
  · rw [Tables.spec, ingress_egressSpec, branches_data h.1 h.2, dmac_egressSpec, hport]
  · rw [Tables.regs, ingress_regs, branches_data h.1 h.2, dmac_regs, hport]
    rfl

theorem atDst_routes : x.atDst.regs.flowPort = x.regs.flowPort ∧
    x.atDst.regs.dstindexNhop = x.regs.dstindexNhop := by
  unfold Pass.atDst
  dsimp only
  split_ifs <;> exact ⟨rfl, rfl⟩

theorem hulaFwd_routes : (x.hulaFwd t).regs.flowPort = x.regs.flowPort ∧
    (x.hulaFwd t).regs.dstindexNhop = x.regs.dstindexNhop := by
  unfold Pass.hulaFwd
  split
  · exact atDst_routes _
  · exact ⟨rfl, rfl⟩

theorem hulaBwd_routes : (x.hulaBwd t).regs.flowPort = x.regs.flowPort ∧
    ((x.hulaBwd t).regs.dstindexNhop = x.regs.dstindexNhop ∨
      ∃ i : ℕ, (x.hulaBwd t).regs.dstindexNhop =
        x.regs.dstindexNhop.write i (x.ingressPort.setWidth 16)) := by
  unfold Pass.hulaBwd
  split
  · exact ⟨rfl, .inr ⟨_, rfl⟩⟩
  · exact ⟨rfl, .inl rfl⟩

/-- Other packets leave the ports of the flows alone, and a next hop they set is a port. -/
theorem routes_of_not_data (h : ¬a.IsData) : (t.regs r a).flowPort = r.flowPort ∧
    ((t.regs r a).dstindexNhop = r.dstindexNhop ∨
      ∃ i : ℕ, (t.regs r a).dstindexNhop = r.dstindexNhop.write i (a.port.setWidth 16)) := by
  rw [Tables.regs, ingress_regs]
  by_cases hvalid : a.hdr.hula.isValid
  · by_cases hdir : a.hdr.hula.fields.dir = 0#1
    · rw [branches_forward hvalid hdir]
      exact ⟨(hulaFwd_routes (a.pass r)).1, .inl (hulaFwd_routes (a.pass r)).2⟩
    · rw [branches_backward hvalid hdir, hulaSrc_regs]
      exact hulaBwd_routes (a.pass r)
  · by_cases hip : a.hdr.ipv4.isValid
    · exact absurd ⟨hvalid, hip⟩ h
    · rw [branches_rest hvalid hip]
      exact ⟨rfl, .inl rfl⟩

end Step

section Kept

/-- A port number in sixteen bits. -/
def IsPort (v : BitVec 16) : Prop := (v.setWidth 9).setWidth 16 = v

theorem setWidth_port (p : BitVec 9) : (p.setWidth 16).setWidth 9 = p := by
  apply BitVec.eq_of_toNat_eq
  have hp := p.isLt
  simp only [BitVec.toNat_setWidth]
  omega

theorem isPort_setWidth (p : BitVec 9) : IsPort (p.setWidth 16) := by
  rw [IsPort, setWidth_port]

theorem port_eq_zero {p : BitVec 9} (h : p.setWidth 16 = 0#16) : p = 0#9 := by
  rw [← setWidth_port p, h]
  rfl

theorem isPort_write {size : ℕ} {R : Register 16 size} (hR : ∀ i, IsPort (R.read i)) (i j : ℕ)
    (p : BitVec 9) : IsPort ((R.write i (p.setWidth 16)).read j) := by
  rw [Register.read_write]
  split_ifs
  · exact isPort_setWidth p
  · exact hR j

theorem flowHash_lt (flow : BitVec 32 × BitVec 32 × BitVec 16) : flowHash flow < 65536 :=
  BitVec.isLt _

variable (t)

/-- A data packet took the port from the next hop to its own destination. -/
def Entry.Routed (e : Entry) (port : BitVec 16) : Prop :=
  ∃ i, t.nhopIndex e.arrival.hdr.ipv4.fields.dstAddr = some i ∧
    e.regs.dstindexNhop.read i.toNat = port

/-- Cells have the port that the first packet forwarded from them took, and keep it. -/
structure Kept (s : Switch) : Prop where
  nhop : ∀ i, IsPort (s.regs.dstindexNhop.read i)
  flow : ∀ c, IsPort (s.regs.flowPort.read c)
  filled : ∀ c, s.regs.flowPort.read c ≠ 0#16 → (s.regs.flowPort.read c).setWidth 9 ≠ dropPort →
    ∃ e ∈ s.log, e.arrival.IsData ∧ flowHash e.arrival.hdr.flow = c ∧
      e.port t = some ((s.regs.flowPort.read c).setWidth 9) ∧ e.Routed t (s.regs.flowPort.read c)
  kept : ∀ e ∈ s.log, e.arrival.IsData → ∀ p, e.port t = some p → p ≠ 0#9 →
    s.regs.flowPort.read (flowHash e.arrival.hdr.flow) = p.setWidth 16

variable {t} {s : Switch}

theorem Kept.start (b : Boot) : Kept t ⟨b.regs, []⟩ where
  nhop i := by
    unfold Boot.regs Register.read
    dsimp only
    split
    · exact isPort_setWidth _
    · rfl
  flow c := by
    rw [Boot.regs, Register.read_fill_zero]
    rfl
  filled c h := absurd (Register.read_fill_zero c) h
  kept e he := by cases he

/-- After a packet that leaves all cells alone only its own port is to be checked. -/
theorem Kept.same_cells (hs : Kept t s) (hflow : (t.regs s.regs a).flowPort = s.regs.flowPort)
    (hnhop : ∀ i, IsPort ((t.regs s.regs a).dstindexNhop.read i))
    (hport : a.IsData →
      s.regs.flowPort.read (flowHash a.hdr.flow) = (t.spec s.regs a).setWidth 16) :
    Kept t (s.receive t a) := by
  constructor
  · exact hnhop
  · intro c
    rw [Switch.receive, hflow]
    exact hs.flow c
  · intro c
    rw [Switch.receive, hflow]
    intro hne hdrop
    obtain ⟨e, he, hrest⟩ := hs.filled c hne hdrop
    exact ⟨e, List.mem_cons_of_mem _ he, hrest⟩
  · intro e he hdata p hp hne
    rw [Switch.receive, hflow]
    rcases List.mem_cons.mp he with rfl | he
    · rw [← (port_eq_some.mp hp).1]
      exact hport hdata
    · exact hs.kept e he hdata p hp hne

theorem Kept.other (hs : Kept t s) (h : ¬a.IsData) : Kept t (s.receive t a) := by
  obtain ⟨hflow, hnhop⟩ := routes_of_not_data (t := t) (r := s.regs) h
  apply hs.same_cells hflow
  · intro i
    rcases hnhop with hsame | ⟨j, hset⟩
    · rw [hsame]
      exact hs.nhop i
    · rw [hset]
      exact isPort_write hs.nhop j i a.port
  · intro hdata
    exact absurd hdata h

theorem Kept.known (hs : Kept t s) (h : a.IsData)
    (hcell : s.regs.flowPort.read (flowHash a.hdr.flow) ≠ 0#16) : Kept t (s.receive t a) := by
  obtain ⟨hspec, hregs⟩ := data_known (t := t) h hcell
  apply hs.same_cells
  · rw [hregs]
  · rw [hregs]
    exact hs.nhop
  · intro _
    rw [hspec]
    exact (hs.flow _).symm

theorem Kept.fresh (hs : Kept t s) (h : a.IsData)
    (hcell : s.regs.flowPort.read (flowHash a.hdr.flow) = 0#16) : Kept t (s.receive t a) := by
  obtain ⟨hspec, hregs⟩ := data_fresh (t := t) h hcell
  have hlt := flowHash_lt a.hdr.flow
  constructor
  · intro i
    rw [Switch.receive, hregs]
    exact hs.nhop i
  · intro c
    rw [Switch.receive, hregs]
    exact isPort_write hs.flow _ c _
  · intro c
    rw [Switch.receive, hregs]
    by_cases hc : flowHash a.hdr.flow = c
    · -- the packet itself has filled the cell
      subst c
      dsimp only
      rw [Register.read_write_self _ hlt, setWidth_port]
      intro _ hport
      refine ⟨⟨a, s.regs⟩, List.mem_cons_self, h, rfl, port_eq_some.mpr ⟨rfl, hport⟩, ?_⟩
      rw [hspec] at hport ⊢
      unfold Entry.Routed
      cases hi : t.nhopIndex a.hdr.ipv4.fields.dstAddr with
      | none =>
        rw [hi] at hport
        exact absurd rfl hport
      | some i => exact ⟨i, rfl, (hs.nhop i.toNat).symm⟩
    · dsimp only
      rw [Register.read_write_of_ne _ hc]
      intro hne hport
      obtain ⟨e, he, hrest⟩ := hs.filled c hne hport
      exact ⟨e, List.mem_cons_of_mem _ he, hrest⟩
  · intro e he hdata p hp hne
    rw [Switch.receive, hregs]
    dsimp only
    rcases List.mem_cons.mp he with rfl | he
    · rw [Register.read_write_self _ hlt, ← (port_eq_some.mp hp).1]
    · have hold := hs.kept e he hdata p hp hne
      by_cases hc : flowHash a.hdr.flow = flowHash e.arrival.hdr.flow
      · rw [← hc, hcell] at hold
        exact absurd (port_eq_zero hold.symm) hne
      · rw [Register.read_write_of_ne _ hc]
        exact hold

theorem Kept.receive (hs : Kept t s) (a : Arrival) : Kept t (s.receive t a) := by
  by_cases h : a.IsData
  · by_cases hcell : s.regs.flowPort.read (flowHash a.hdr.flow) = 0#16
    · exact hs.fresh h hcell
    · exact hs.known h hcell
  · exact hs.other h

theorem Kept.reachable {b : Boot} (h : (switch t b).Reachable s) : Kept t s := by
  induction h with
  | init h =>
    rw [show _ = Switch.mk b.regs [] from h]
    exact .start b
  | step _ _ ih => exact ih.receive _

/-- Packets of one flow that leave at ports other than zero leave at the same port. -/
theorem Kept.same_port (hs : Kept t s) {e e' : Entry} (he : e ∈ s.log) (he' : e' ∈ s.log)
    (hdata : e.arrival.IsData) (hdata' : e'.arrival.IsData)
    (hflow : e.arrival.hdr.flow = e'.arrival.hdr.flow) {p p' : BitVec 9} (hp : e.port t = some p)
    (hp' : e'.port t = some p') (hne : p ≠ 0#9) (hne' : p' ≠ 0#9) : p = p' := by
  have hkept := hs.kept e he hdata p hp hne
  rw [hflow, hs.kept e' he' hdata' p' hp' hne'] at hkept
  rw [← setWidth_port p, ← setWidth_port p', hkept]

end Kept

section Routes

variable (t)

/-- A data packet shares its hash with no earlier packet to another destination's index that was
forwarded on a port other than zero. -/
def SameRoute (s : Switch) (a : Arrival) : Prop :=
  a.IsData → ∀ e ∈ s.log, e.arrival.IsData →
    flowHash e.arrival.hdr.flow = flowHash a.hdr.flow → e.port t ≠ none → e.port t ≠ some 0#9 →
    t.nhopIndex e.arrival.hdr.ipv4.fields.dstAddr = t.nhopIndex a.hdr.ipv4.fields.dstAddr

instance (s : Switch) (a : Arrival) : Decidable (SameRoute t s a) :=
  inferInstanceAs (Decidable (_ → _))

/-- Each data packet that was forwarded left at a port that the next hop to its own destination
had when it or an earlier packet came. -/
def OwnRoutes (log : List Entry) : Prop :=
  ∀ e l, (e :: l) <:+ log → e.arrival.IsData → ∀ p, e.port t = some p →
    ∃ i, t.nhopIndex e.arrival.hdr.ipv4.fields.dstAddr = some i ∧
      ∃ e' ∈ e :: l, e'.regs.dstindexNhop.read i.toNat = p.setWidth 16

/-- Packets of one flow were forwarded to one port, except for those sent to port zero. -/
def SamePorts (log : List Entry) : Prop :=
  ∀ e ∈ log, ∀ e' ∈ log, e.arrival.IsData → e'.arrival.IsData →
    e.arrival.hdr.flow = e'.arrival.hdr.flow → ∀ p p', e.port t = some p → e'.port t = some p' →
      p ≠ 0#9 → p' ≠ 0#9 → p = p'

variable {t} {s : Switch}

theorem OwnRoutes.receive (hs : Kept t s) (how : OwnRoutes t s.log) (hok : SameRoute t s a) :
    OwnRoutes t (s.receive t a).log := by
  intro e l hl hdata p hp
  rcases List.suffix_cons_iff.mp hl with hnew | hold
  · obtain ⟨rfl, rfl⟩ := List.cons.inj hnew
    obtain ⟨hspec, hdrop⟩ := port_eq_some.mp hp
    by_cases hcell : s.regs.flowPort.read (flowHash a.hdr.flow) = 0#16
    · rw [(data_fresh hdata hcell).1] at hspec
      cases hi : t.nhopIndex a.hdr.ipv4.fields.dstAddr with
      | none =>
        rw [hi] at hspec
        exact absurd hspec.symm hdrop
      | some i =>
        rw [hi] at hspec
        refine ⟨i, rfl, ⟨a, s.regs⟩, List.mem_cons_self, ?_⟩
        rw [← hspec]
        exact (hs.nhop i.toNat).symm
    · -- the packet that filled the cell had the same index
      rw [(data_known hdata hcell).1] at hspec
      obtain ⟨e', he', hdata', hhash, hport, i, hi, hread⟩ :=
        hs.filled _ hcell (hspec ▸ hdrop)
      have hne : p ≠ 0#9 := by
        intro hzero
        have hback := hs.flow (flowHash a.hdr.flow)
        rw [IsPort, hspec, hzero] at hback
        exact hcell hback.symm
      have hsame := hok hdata e' he' hdata' hhash (by simp [hport]) (by simp [hport, hspec, hne])
      refine ⟨i, hsame ▸ hi, e', List.mem_cons_of_mem _ he', ?_⟩
      rw [hread, ← hspec]
      exact (hs.flow _).symm
  · exact how e l hold hdata p hp

/-- In runs of this kind data packets leave at ports of their own destination, and in all runs the
packets of a flow keep their port. -/
theorem flows_follow_routes {b : Boot} (h : ((switch t b).restrict (SameRoute t)).Reachable s) :
    OwnRoutes t s.log ∧ SamePorts t s.log := by
  have hkept := Kept.reachable h.of_restrict
  refine ⟨?_, fun e he e' he' hdata hdata' hflow p p' hp hp' hne hne' =>
    hkept.same_port he he' hdata hdata' hflow hp hp' hne hne'⟩
  induction h with
  | init h =>
    rw [show _ = Switch.mk b.regs [] from h]
    intro e l hl
    exact absurd (List.suffix_nil.mp hl) (by simp)
  | step hr hstep ih =>
    have hbefore := Kept.reachable hr.of_restrict
    exact (ih hbefore).receive hbefore hstep.2

end Routes

/-- A probe of the first ToR that comes back from the ToR `dstAddr`. -/
def returning (port : BitVec 9) (hport : port ≠ dropPort) (dstAddr : BitVec 32) : Arrival where
  hdr :=
    { ethernet := default
      srcRoutes := [⟨1#1, 1#15⟩]
      ipv4 := ⟨true, { (default : Ipv4) with srcAddr := 0x0a000100#32, dstAddr := dstAddr }⟩
      udp := default
      hula := ⟨true, 1#1, 0#15, 0#32⟩ }
  port := port
  deqQdepth := 0#19
  port_ne := hport

/-- A packet of a host of the first ToR. -/
def datagram (dstAddr : BitVec 32) (srcPort : BitVec 16) : Arrival where
  hdr :=
    { ethernet := default
      srcRoutes := []
      ipv4 := ⟨true, { (default : Ipv4) with srcAddr := 0x0a000101#32, dstAddr := dstAddr }⟩
      udp := ⟨true, { (default : Udp) with srcPort := srcPort }⟩
      hula := default }
  port := 1#9
  deqQdepth := 0#19
  port_ne := by decide

/-- The route changes between two packets of a flow. -/
def reroutes : List Arrival :=
  [returning 2#9 two_ne_dropPort 0x0a000200#32, datagram 0x0a000202#32 5000#16,
    returning 3#9 three_ne_dropPort 0x0a000200#32, datagram 0x0a000202#32 5000#16]

theorem flows_follow_routes_reroutes :
    let s := (switch s1 s1Boot).run ⟨s1Boot.regs, []⟩ reroutes
    OwnRoutes s1 s.log ∧ SamePorts s1 s.log ∧ s.log.map (Entry.port s1) =
      [some 2#9, none, some 2#9, none] := by
  have hstart : ((switch s1 s1Boot).restrict (SameRoute s1)).Reachable ⟨s1Boot.regs, []⟩ := .init rfl
  have hr := hstart.run (l := reroutes)
    ⟨⟨trivial, by decide +kernel⟩, ⟨trivial, by decide +kernel⟩, ⟨trivial, by decide +kernel⟩,
      ⟨trivial, by decide +kernel⟩, trivial⟩
  rw [System.run_restrict] at hr
  have hfollow := flows_follow_routes hr
  exact ⟨hfollow.1, hfollow.2, by decide +kernel⟩

/-- Two flows to different ToRs with the same hash. -/
def shared : List Arrival :=
  [returning 2#9 two_ne_dropPort 0x0a000200#32, returning 3#9 three_ne_dropPort 0x0a000300#32,
    datagram 0x0a000202#32 5000#16, datagram 0x0a000303#32 54232#16]

/-- The second flow leaves at the port of the first one, to the other ToR. -/
theorem shared_hash_misrouted :
    ¬∀ s, (switch s1 s1Boot).Reachable s → OwnRoutes s1 s.log ∧ SamePorts s1 s.log := by
  intro h
  have hstart : (switch s1 s1Boot).Reachable ⟨s1Boot.regs, []⟩ := .init rfl
  have hr := hstart.run (l := shared) ⟨trivial, trivial, trivial, trivial, trivial⟩
  obtain ⟨i, hi, hheld⟩ := (h _ hr).1 _ _ List.suffix_rfl ⟨by decide, by decide⟩ 2#9
    (by decide +kernel)
  have hindex : i = 2#32 := by
    have hnhop : s1.nhopIndex 0x0a000303#32 = some 2#32 := by decide +kernel
    exact Option.some.inj (hi.symm.trans hnhop)
  subst hindex
  revert hheld
  decide +kernel

end P4Survey.Hula
