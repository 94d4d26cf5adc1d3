import P4Survey.Hula.Switch

/-! # The best path that a destination ToR records

The depth and the digest of a source are two registers. Both are written when
a probe has a smaller depth, and the depth alone when the recorded path itself
has a new depth. The two always come from one probe, the last one of its path.
-/

namespace P4Survey.Hula
open Lib

variable {t : Tables} {r : Regs} {a : Arrival}

section Probes

variable (t)

/-- The source index of a probe that has come to its destination ToR. -/
def Tables.probeIndex (a : Arrival) : Option (BitVec 32) :=
  if a.hdr.hula.isValid ∧ a.hdr.hula.fields.dir = 0#1 then
    match t.fwdAction a.hdr.ipv4.fields.dstAddr a.hdr.ipv4.fields.srcAddr with
    | .hulaDst index => some index
    | .srcRouteNhop => none
  else none

/-- The packet went back to the port it came from as a probe on the backward path. -/
def Entry.returned (e : Entry) : Bool :=
  (e.out t).any fun o => o.1 == e.arrival.port && o.2.hula.isValid && o.2.hula.fields.dir == 1#1

/-- The last probe of a path from a source. -/
def latest (log : List Entry) (i : BitVec 32) (digest : BitVec 32) : Option Entry :=
  log.find? fun e =>
    t.probeIndex e.arrival = some i ∧ e.arrival.hdr.hula.fields.digest = digest

end Probes

section Step

theorem ingress_cases (x : Pass) :
    x.ingress t = x.branches t ∨ x.ingress t = (x.branches t).updateTtl := by
  by_cases h : (x.branches t).hdr.ipv4.isValid
  · exact .inr (if_pos h)
  · exact .inl (if_neg h)

@[simp] theorem ingress_regs (x : Pass) : (x.ingress t).regs = (x.branches t).regs := by
  cases ingress_cases (t := t) x with
  | inl h => rw [h]
  | inr h => rw [h, Pass.updateTtl]

@[simp] theorem ingress_egressSpec (x : Pass) :
    (x.ingress t).egressSpec = (x.branches t).egressSpec := by
  cases ingress_cases (t := t) x with
  | inl h => rw [h]
  | inr h => rw [h, Pass.updateTtl]

@[simp] theorem ingress_hula (x : Pass) : (x.ingress t).hdr.hula = (x.branches t).hdr.hula := by
  cases ingress_cases (t := t) x with
  | inl h => rw [h]
  | inr h => rw [h, Pass.updateTtl]

theorem branches_forward {x : Pass} (hvalid : x.hdr.hula.isValid = true)
    (hdir : x.hdr.hula.fields.dir = 0#1) : x.branches t = x.hulaFwd t := by
  rw [Pass.branches, if_pos hvalid, if_pos hdir]

theorem branches_backward {x : Pass} (hvalid : x.hdr.hula.isValid = true)
    (hdir : ¬x.hdr.hula.fields.dir = 0#1) : x.branches t = (x.hulaBwd t).hulaSrc t := by
  rw [Pass.branches, if_pos hvalid, if_neg hdir]

theorem branches_data {x : Pass} (hvalid : ¬x.hdr.hula.isValid = true)
    (hip : x.hdr.ipv4.isValid = true) : x.branches t = (x.dataPort t).dmac t := by
  rw [Pass.branches, if_neg hvalid, if_pos hip]

theorem branches_rest {x : Pass} (hvalid : ¬x.hdr.hula.isValid = true)
    (hip : ¬x.hdr.ipv4.isValid = true) : x.branches t = x.drop := by
  rw [Pass.branches, if_neg hvalid, if_neg hip]

end Step

section Record

/-- The two registers of the best paths. -/
def Regs.record (r : Regs) : Register 15 32 × Register 32 32 := (r.srcindexQdepth, r.srcindexDigest)

variable (x : Pass)

theorem hulaBwd_record : (x.hulaBwd t).regs.record = x.regs.record := by
  unfold Pass.hulaBwd
  split <;> rfl

theorem hulaSrc_regs : (x.hulaSrc t).regs = x.regs := by
  unfold Pass.hulaSrc
  split <;> rfl

theorem hulaNhop_regs : (x.hulaNhop t).regs = x.regs := by
  unfold Pass.hulaNhop
  split <;> rfl

theorem dmac_regs : (x.dmac t).regs = x.regs := by
  unfold Pass.dmac
  split <;> rfl

theorem dataPort_record : (x.dataPort t).regs.record = x.regs.record := by
  unfold Pass.dataPort
  dsimp only
  split
  · change (x.hulaNhop t).regs.record = _
    rw [hulaNhop_regs]
  · rfl

/-- A probe at its destination ToR takes the branch `hula_dst`. -/
theorem branches_of_probeIndex {i : BitVec 32} (h : t.probeIndex a = some i) :
    (a.pass r).branches t = ((a.pass r).hulaDst i).atDst := by
  unfold Tables.probeIndex at h
  split_ifs at h with hfwd
  rw [branches_forward hfwd.1 hfwd.2, Pass.hulaFwd]
  change (match t.fwdAction a.hdr.ipv4.fields.dstAddr a.hdr.ipv4.fields.srcAddr with
    | .hulaDst index => _
    | .srcRouteNhop => _) = _
  split at h
  · cases h
    rfl
  · cases h

/-- Every other packet leaves the record alone. -/
theorem record_of_not_probe (h : t.probeIndex a = none) : (t.regs r a).record = r.record := by
  rw [Tables.regs, ingress_regs]
  by_cases hvalid : a.hdr.hula.isValid
  · by_cases hdir : a.hdr.hula.fields.dir = 0#1
    · rw [Tables.probeIndex, if_pos ⟨hvalid, hdir⟩] at h
      rw [branches_forward hvalid hdir, Pass.hulaFwd]
      change Regs.record (Pass.regs
        (match t.fwdAction a.hdr.ipv4.fields.dstAddr a.hdr.ipv4.fields.srcAddr with
        | .hulaDst index => _
        | .srcRouteNhop => _)) = _
      split at h
      · cases h
      · rfl
    · rw [branches_backward hvalid hdir, hulaSrc_regs, hulaBwd_record]
      rfl
  · by_cases hip : a.hdr.ipv4.isValid
    · rw [branches_data hvalid hip, dmac_regs, dataPort_record]
      rfl
    · rw [branches_rest hvalid hip]
      rfl

end Record

section AtDst

variable {x : Pass}

theorem atDst_better (h : x.hdr.hula.fields.qdepth < x.regs.srcindexQdepth.read x.index.toNat) :
    x.atDst = x.changeBestPathAtDst.returnHulaToSrc := if_pos h

theorem atDst_worse (h : ¬x.hdr.hula.fields.qdepth < x.regs.srcindexQdepth.read x.index.toNat)
    (hd : x.regs.srcindexDigest.read x.index.toNat = x.hdr.hula.fields.digest) :
    x.atDst = Pass.drop { x with
      regs.srcindexQdepth :=
        x.regs.srcindexQdepth.write x.index.toNat x.hdr.hula.fields.qdepth } := by
  rw [Pass.atDst, if_neg h]
  exact if_pos hd

theorem atDst_other (h : ¬x.hdr.hula.fields.qdepth < x.regs.srcindexQdepth.read x.index.toNat)
    (hd : x.regs.srcindexDigest.read x.index.toNat ≠ x.hdr.hula.fields.digest) :
    x.atDst = x.drop := by
  rw [Pass.atDst, if_neg h]
  exact if_neg hd

/-- The three things a probe can do to the record of its source. -/
theorem record_cases {i : BitVec 32} (h : t.probeIndex a = some i) (r : Regs) :
    (a.hdr.hula.fields.qdepth < r.srcindexQdepth.read i.toNat ∧
      (t.regs r a).srcindexQdepth = r.srcindexQdepth.write i.toNat a.hdr.hula.fields.qdepth ∧
      (t.regs r a).srcindexDigest = r.srcindexDigest.write i.toNat a.hdr.hula.fields.digest) ∨
    (¬a.hdr.hula.fields.qdepth < r.srcindexQdepth.read i.toNat ∧
      r.srcindexDigest.read i.toNat = a.hdr.hula.fields.digest ∧
      (t.regs r a).srcindexQdepth = r.srcindexQdepth.write i.toNat a.hdr.hula.fields.qdepth ∧
      (t.regs r a).srcindexDigest = r.srcindexDigest) ∨
    (¬a.hdr.hula.fields.qdepth < r.srcindexQdepth.read i.toNat ∧
      r.srcindexDigest.read i.toNat ≠ a.hdr.hula.fields.digest ∧
      (t.regs r a).srcindexQdepth = r.srcindexQdepth ∧
      (t.regs r a).srcindexDigest = r.srcindexDigest) := by
  rw [Tables.regs, ingress_regs, branches_of_probeIndex h]
  by_cases hlt : a.hdr.hula.fields.qdepth < r.srcindexQdepth.read i.toNat
  · left
    rw [atDst_better (x := (a.pass r).hulaDst i) hlt]
    exact ⟨hlt, rfl, rfl⟩
  · right
    by_cases hd : r.srcindexDigest.read i.toNat = a.hdr.hula.fields.digest
    · left
      rw [atDst_worse (x := (a.pass r).hulaDst i) hlt hd]
      exact ⟨hlt, hd, rfl, rfl⟩
    · right
      rw [atDst_other (x := (a.pass r).hulaDst i) hlt hd]
      exact ⟨hlt, hd, rfl, rfl⟩

end AtDst

section Return

/-- A probe goes back exactly if its depth is smaller than the recorded one. -/
theorem returned_iff {e : Entry} {i : BitVec 32} (h : t.probeIndex e.arrival = some i) :
    e.returned t = true ↔
      e.arrival.hdr.hula.fields.qdepth < e.regs.srcindexQdepth.read i.toNat := by
  have hfwd : e.arrival.hdr.hula.isValid = true := by
    unfold Tables.probeIndex at h
    split_ifs at h with hfwd
    exact hfwd.1
  have hbranch := branches_of_probeIndex (r := e.regs) h
  unfold Entry.returned Entry.out Tables.emit
  dsimp only
  rw [ingress_egressSpec, hbranch]
  by_cases hlt : e.arrival.hdr.hula.fields.qdepth < e.regs.srcindexQdepth.read i.toNat
  · have hdst := atDst_better (x := (e.arrival.pass e.regs).hulaDst i) hlt
    rw [hdst]
    have hport : ((e.arrival.pass e.regs).hulaDst i).changeBestPathAtDst.returnHulaToSrc.egressSpec =
        e.arrival.port := rfl
    have hhula : ((e.arrival.pass e.regs).ingress t).hdr.hula =
        { e.arrival.hdr.hula with fields.dir := 1#1 } := by
      rw [ingress_hula, hbranch, hdst]
      rfl
    rw [hport, if_neg e.arrival.port_ne]
    have hback : ¬(((e.arrival.pass e.regs).ingress t).hdr.hula.isValid ∧
        ((e.arrival.pass e.regs).ingress t).hdr.hula.fields.dir = 0#1) := by
      rw [hhula]
      simp
    rw [egress, if_neg hback, Option.any_some, hhula]
    simp [hlt, hfwd]
  · have hdrop : ((e.arrival.pass e.regs).hulaDst i).atDst.egressSpec = dropPort := by
      by_cases hd : e.regs.srcindexDigest.read i.toNat = e.arrival.hdr.hula.fields.digest
      · rw [atDst_worse (x := (e.arrival.pass e.regs).hulaDst i) hlt hd]
        rfl
      · rw [atDst_other (x := (e.arrival.pass e.regs).hulaDst i) hlt hd]
        rfl
    rw [hdrop, if_pos rfl]
    simp [hlt]

/-- An index at which a probe has been accepted is one of the array. -/
theorem lt_of_returned {e : Entry} {i : BitVec 32} (h : t.probeIndex e.arrival = some i)
    (hret : e.returned t = true) : i.toNat < 32 := by
  have hlt := (returned_iff h).mp hret
  by_contra hi
  rw [Register.read_of_size_le _ (Nat.le_of_not_lt hi)] at hlt
  exact BitVec.not_lt_zero hlt

end Return

section Record

variable (t)

/-- A probe of the source has improved on the record. -/
def Accepted (s : Switch) (i : BitVec 32) : Prop :=
  ∃ e ∈ s.log, t.probeIndex e.arrival = some i ∧ e.returned t = true

/-- The record of a source has the depth of the last probe of the path it names. -/
def Recorded (s : Switch) (i : BitVec 32) : Prop :=
  ∃ e, latest t s.log i (s.regs.srcindexDigest.read i.toNat) = some e ∧
    s.regs.srcindexQdepth.read i.toNat = e.arrival.hdr.hula.fields.qdepth

variable {t} {s : Switch} {i : BitVec 32}

theorem latest_cons (e : Entry) (log : List Entry) (i digest : BitVec 32) :
    latest t (e :: log) i digest =
      if t.probeIndex e.arrival = some i ∧ e.arrival.hdr.hula.fields.digest = digest then some e
      else latest t log i digest := by
  simp only [latest, List.find?_cons]
  split <;> rename_i hdec
  · rw [if_pos (of_decide_eq_true hdec)]
  · rw [if_neg (of_decide_eq_false hdec)]

/-- A packet that is no probe of a source leaves its record alone. -/
theorem record_read_of_ne (h : t.probeIndex a ≠ some i) (r : Regs) :
    (t.regs r a).srcindexDigest.read i.toNat = r.srcindexDigest.read i.toNat ∧
      (t.regs r a).srcindexQdepth.read i.toNat = r.srcindexQdepth.read i.toNat := by
  cases hp : t.probeIndex a with
  | none =>
    have hrec := record_of_not_probe (r := r) hp
    exact ⟨congrArg (fun p => p.2.read i.toNat) hrec, congrArg (fun p => p.1.read i.toNat) hrec⟩
  | some j =>
    have hne : j.toNat ≠ i.toNat := by
      intro hj
      apply h
      rw [hp, BitVec.eq_of_toNat_eq hj]
    rcases record_cases hp r with ⟨_, hq, hd⟩ | ⟨_, _, hq, hd⟩ | ⟨_, _, hq, hd⟩
    · rw [hq, hd]
      exact ⟨Register.read_write_of_ne _ hne _, Register.read_write_of_ne _ hne _⟩
    · rw [hq, hd]
      exact ⟨rfl, Register.read_write_of_ne _ hne _⟩
    · rw [hq, hd]
      exact ⟨rfl, rfl⟩

theorem Recorded.other (h : t.probeIndex a ≠ some i) (hs : Recorded t s i) :
    Recorded t (s.receive t a) i := by
  obtain ⟨e, he, hq⟩ := hs
  obtain ⟨hdigest, hqdepth⟩ := record_read_of_ne h s.regs
  refine ⟨e, ?_, hqdepth.trans hq⟩
  dsimp only [Switch.receive]
  rw [latest_cons, if_neg fun hprobe => h hprobe.1, hdigest]
  exact he

theorem Recorded.probe (h : t.probeIndex a = some i) (hi : i.toNat < 32)
    (hs : ¬a.hdr.hula.fields.qdepth < s.regs.srcindexQdepth.read i.toNat → Recorded t s i) :
    Recorded t (s.receive t a) i := by
  rw [Recorded]
  dsimp only [Switch.receive]
  rcases record_cases h s.regs with ⟨_, hq', hd'⟩ | ⟨hlt, hd, hq', hd'⟩ | ⟨hlt, hd, hq', hd'⟩
  · refine ⟨⟨a, s.regs⟩, ?_, ?_⟩
    · rw [latest_cons, hd', Register.read_write_self _ hi, if_pos ⟨h, rfl⟩]
    · rw [hq', Register.read_write_self _ hi]
  · -- the recorded path has a new depth
    refine ⟨⟨a, s.regs⟩, ?_, ?_⟩
    · rw [latest_cons, hd', if_pos ⟨h, hd.symm⟩]
    · rw [hq', Register.read_write_self _ hi]
  · obtain ⟨e, he, hq⟩ := hs hlt
    refine ⟨e, ?_, ?_⟩
    · rw [latest_cons, hd', if_neg fun hprobe => hd hprobe.2.symm]
      exact he
    · rw [hq']
      exact hq

theorem Accepted.receive (h : Accepted t (s.receive t a) i) :
    (t.probeIndex a = some i ∧
      a.hdr.hula.fields.qdepth < s.regs.srcindexQdepth.read i.toNat) ∨ Accepted t s i := by
  obtain ⟨e, he, hi, hret⟩ := h
  rcases List.mem_cons.mp he with rfl | he
  · exact .inl ⟨hi, (returned_iff hi).mp hret⟩
  · exact .inr ⟨e, he, hi, hret⟩

theorem recorded_of_accepted {b : Boot} (h : (switch t b).Reachable s) (hacc : Accepted t s i) :
    Recorded t s i := by
  induction h with
  | init h =>
    obtain ⟨e, he, -⟩ := hacc
    rw [show _ = Switch.mk b.regs [] from h] at he
    cases he
  | @step s a _ _ ih =>
    have hi : i.toNat < 32 := by
      obtain ⟨e, _, hi, hret⟩ := hacc
      exact lt_of_returned hi hret
    by_cases hp : t.probeIndex a = some i
    · apply Recorded.probe hp hi
      intro hge
      exact ih (hacc.receive.resolve_left fun h => hge h.2)
    · exact (ih (hacc.receive.resolve_left fun h => hp h.1)).other hp

/-- In every run the record of a source is the digest of a path and the depth of its last probe,
and a probe was returned exactly if its depth was smaller than the recorded one. -/
theorem best_path_record {b : Boot} (h : (switch t b).Reachable s) :
    (∀ i, Accepted t s i → Recorded t s i) ∧
      ∀ e ∈ s.log, ∀ i, t.probeIndex e.arrival = some i →
        (e.returned t = true ↔
          e.arrival.hdr.hula.fields.qdepth < e.regs.srcindexQdepth.read i.toNat) :=
  ⟨fun _ => recorded_of_accepted h, fun _ _ _ => returned_iff⟩

end Record

/-- A probe from the second ToR to the first. -/
def probe (port : BitVec 9) (hport : port ≠ dropPort) (qdepth : BitVec 15) (digest : BitVec 32) :
    Arrival where
  hdr :=
    { ethernet := default
      srcRoutes := [⟨1#1, 1#15⟩]
      ipv4 := ⟨true, { (default : Ipv4) with srcAddr := 0x0a000200#32, dstAddr := 0x0a000100#32 }⟩
      udp := default
      hula := ⟨true, 0#1, qdepth, digest⟩ }
  port := port
  deqQdepth := 0#19
  port_ne := hport

theorem two_ne_dropPort : 2#9 ≠ dropPort := by decide

theorem three_ne_dropPort : 3#9 ≠ dropPort := by decide

/-- The path of the first probe gets worse after a probe of another path was dropped. -/
def probes : List Arrival :=
  [probe 2#9 two_ne_dropPort 40#15 7#32, probe 3#9 three_ne_dropPort 60#15 8#32,
    probe 2#9 two_ne_dropPort 90#15 7#32]

theorem best_path_record_worse :
    let s := (switch s1 s1Boot).run ⟨s1Boot.regs, []⟩ probes
    Accepted s1 s 1#32 ∧ Recorded s1 s 1#32 ∧
      (s.regs.srcindexQdepth.read 1, s.regs.srcindexDigest.read 1) = (90#15, 7#32) := by
  have hstart : (switch s1 s1Boot).Reachable ⟨s1Boot.regs, []⟩ := .init rfl
  have hr := hstart.run (l := probes) ⟨trivial, trivial, trivial, trivial⟩
  have hacc : Accepted s1 ((switch s1 s1Boot).run ⟨s1Boot.regs, []⟩ probes) 1#32 := by
    refine ⟨⟨probe 2#9 (by decide) 40#15 7#32, s1Boot.regs⟩, ?_, by decide +kernel, by decide +kernel⟩
    exact List.mem_cons_of_mem _ (List.mem_cons_of_mem _ List.mem_cons_self)
  exact ⟨hacc, (best_path_record hr).1 _ hacc, by decide +kernel⟩

end P4Survey.Hula
