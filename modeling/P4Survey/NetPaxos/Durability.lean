import P4Survey.NetPaxos.Coordinator

/-! # What an acceptor remembers of its votes

A vote is durable when a later 1A that is not below the round learns it, as
long as no other 2A was accepted for the instance. The registers have
`instCount` cells while the coordinator numbers instances with 32 bits, so the
acceptor keeps its votes below `instCount` and forgets them above it.
-/

namespace P4Survey.NetPaxos
open Lib

namespace Acceptor

/-- The registers after a list of packets. -/
def run (r : FwdRules) (st : Acceptor) : List (BitVec 9 × Headers) → Acceptor
  | [] => st
  | x :: l => run r (st.ingress r x.1 x.2).regs l

/-- The packet is a 2A for instance `i` that the acceptor turns into a 2B. -/
def Accepts (r : FwdRules) (st : Acceptor) (i : BitVec 32) (x : BitVec 9 × Headers) : Prop :=
  x.2.IsPhase2a ∧ x.2.paxos.inst = i ∧ (st.ingress r x.1 x.2).hdr.paxos.msgtype = 4#16

/-- No packet of the list is a 2A for instance `i` that is accepted in its turn. -/
def NoneAccepted (r : FwdRules) (st : Acceptor) (i : BitVec 32) :
    List (BitVec 9 × Headers) → Prop
  | [] => True
  | x :: l => ¬ st.Accepts r i x ∧ NoneAccepted r (st.ingress r x.1 x.2).regs i l

/-- An acceptor that emitted a 2B for `(i, p, v)`, after any packets from zeroed
registers, reports `(p, v)` to each later 1A that is at or above `p` and the
round, unless another 2A was accepted for `i` in the meantime. -/
def Durable (r : FwdRules) (i : BitVec 32) (p : BitVec 16) (v : BitVec 32) : Prop :=
  ∀ (pre mid : List (BitVec 9 × Headers)) (port port' : BitVec 9) (h h' : Headers),
    let o := (zero.run r pre).ingress r port h
    let st := o.regs.run r mid
    let o' := st.ingress r port' h'
    h.IsPhase2a → h.paxos.inst = i → h.paxos.proposal = p → h.paxos.val = v →
    o.hdr.paxos.msgtype = 4#16 → o.egressSpec ≠ dropPort →
    o.regs.NoneAccepted r i mid →
    h'.IsPhase1a → h'.paxos.inst = i → p ≤ h'.paxos.proposal →
    st.round i ≤ h'.paxos.proposal →
    o'.hdr.paxos.msgtype = 2#16 ∧ o'.hdr.paxos.inst = i ∧
      o'.hdr.paxos.proposal = h'.paxos.proposal ∧ o'.hdr.paxos.vproposal = p ∧
      o'.hdr.paxos.val = v ∧
      o'.egressSpec = if h'.ipv4Valid then r.fwdTbl port' else 0#9

variable {r : FwdRules} {st : Acceptor} {port : BitVec 9} {h : Headers} {i : BitVec 32}

/-- A 2A that becomes a 2B went through `handle_phase2a`. -/
theorem ingress_of_accepts (ha : st.Accepts r i (port, h)) :
    st.round i ≤ h.paxos.proposal ∧ (st.ingress r port h).regs = (st.handlePhase2a h).1 := by
  obtain ⟨h2, rfl, hm⟩ := ha
  rcases ingress_cases r st port h with ⟨-, hh, -⟩ | ⟨h1, -⟩ | ⟨-, hr, hregs, -⟩
  · rw [hh, h2.2] at hm
    exact absurd hm (by decide)
  · exact absurd (h1.2.symm.trans h2.2) (by decide)
  · exact ⟨hr, hregs⟩

/-- A packet that is not an accepted 2A for the instance keeps its vote. -/
theorem ingress_vote_of_not_accepts (hn : ¬ st.Accepts r i (port, h)) :
    (st.ingress r port h).regs.vround i = st.vround i ∧
      (st.ingress r port h).regs.value i = st.value i := by
  rcases ingress_cases r st port h with
    ⟨hregs, -⟩ | ⟨-, -, hregs, -⟩ | ⟨h2, -, hregs, hh⟩
  · rw [hregs]
    exact ⟨rfl, rfl⟩
  · rw [hregs]
    exact ⟨rfl, rfl⟩
  · have hne : h.paxos.inst ≠ i := by
      intro he
      exact hn ⟨h2, he, by rw [hh]; rfl⟩
    rw [hregs]
    simp [handlePhase2a_vround, handlePhase2a_value, hne]

theorem run_vote_of_noneAccepted {l : List (BitVec 9 × Headers)}
    (hn : st.NoneAccepted r i l) :
    (st.run r l).vround i = st.vround i ∧ (st.run r l).value i = st.value i := by
  induction l generalizing st with
  | nil => exact ⟨rfl, rfl⟩
  | cons x l ih =>
    obtain ⟨hv, hw⟩ := ih hn.2
    obtain ⟨hv', hw'⟩ := ingress_vote_of_not_accepts hn.1
    exact ⟨hv.trans hv', hw.trans hw'⟩

/-- A 1A that is not below the round is answered with the stored vote. -/
theorem ingress_phase1a (h1 : h.IsPhase1a) (hr : st.round h.paxos.inst ≤ h.paxos.proposal) :
    (st.ingress r port h).hdr = (st.handlePhase1a h).2 := by
  rcases ingress_cases r st port h with ⟨-, -, hno⟩ | ⟨-, -, -, hh⟩ | ⟨h2, -⟩
  · exact absurd h1.2 (hno h1.1 hr).1
  · exact hh
  · exact absurd (h1.2.symm.trans h2.2) (by decide)

/-- Durability holds where the registers return what a vote wrote. -/
theorem durable_of_vote {p : BitVec 16} {v : BitVec 32}
    (hvote : ∀ (st : Acceptor) (h : Headers), h.paxos.inst = i → h.paxos.proposal = p →
      h.paxos.val = v →
      (st.handlePhase2a h).1.vround i = p ∧ (st.handlePhase2a h).1.value i = v) :
    Durable r i p v := by
  intro pre mid port port' h h' o st o' h2 hi hp hv hm _ hmid h1 hi' _ hr
  obtain ⟨-, hregs⟩ := ingress_of_accepts (i := i) ⟨h2, hi, hm⟩
  obtain ⟨hvr, hval⟩ := run_vote_of_noneAccepted hmid
  obtain ⟨hp', hv'⟩ := hvote (zero.run r pre) h hi hp hv
  subst hi'
  have hvr' : st.vround h'.paxos.inst = p := by
    rw [hvr, hregs]
    exact hp'
  have hval' : st.value h'.paxos.inst = v := by
    rw [hval, hregs]
    exact hv'
  refine ⟨?_, ?_, ?_, ?_, ?_, ingress_egressSpec r st port' h' hr⟩ <;>
    rw [ingress_phase1a h1 hr]
  · rfl
  · rfl
  · rfl
  · exact hvr'
  · exact hval'

theorem durable_of_lt (hi : i.toNat < instCount) (p : BitVec 16) (v : BitVec 32) :
    Durable r i p v := by
  apply durable_of_vote
  rintro st h rfl rfl rfl
  simp [handlePhase2a_vround, handlePhase2a_value, hi]

/-- Out of range, only the vote that looks like no vote is remembered. -/
theorem durable_zero (hi : instCount ≤ i.toNat) : Durable r i 0#16 0#32 := by
  apply durable_of_vote
  intro st h _ _ _
  exact ⟨Register.read_of_size_le _ hi, Register.read_of_size_le _ hi⟩

/-- Out of range, a vote right after start-up is reported as `(0, 0)`. -/
theorem Durable.eq_zero {p : BitVec 16} {v : BitVec 32} (hd : Durable r i p v)
    (hi : instCount ≤ i.toNat) : p = 0#16 ∧ v = 0#32 := by
  let h : Headers := ⟨true, default, true, ⟨i, p, 0, 0, 3, v⟩⟩
  let h' : Headers := ⟨true, default, true, ⟨i, p, 0, 0, 1, 0⟩⟩
  have h2 : h.IsPhase2a := ⟨rfl, rfl⟩
  have h1 : h'.IsPhase1a := ⟨rfl, rfl⟩
  have hr : zero.round i ≤ p := by
    rw [zero_round]
    exact Nat.zero_le _
  have hacc : (zero.ingress r r.v0 h).hdr = (zero.handlePhase2a h).2 := by
    rcases ingress_cases r zero r.v0 h with ⟨-, -, hno⟩ | ⟨h1, -⟩ | ⟨-, -, -, hh⟩
    · exact absurd rfl (hno rfl hr).2
    · exact absurd (h1.2.symm.trans h2.2) (by decide)
    · exact hh
  have hround : (zero.ingress r r.v0 h).regs.round i ≤ p := by
    rw [round, Register.read_of_size_le _ hi]
    exact Nat.zero_le _
  have hspec : (zero.ingress r r.v0 h).egressSpec ≠ dropPort := by
    rw [ingress_egressSpec r zero r.v0 h hr]
    exact r.fwdTbl_ne_drop (.inl rfl)
  obtain ⟨-, -, -, hvp, hval, -⟩ :=
    hd [] [] r.v0 r.v0 h h' h2 rfl rfl rfl (by simp [run, hacc, handlePhase2a]) hspec trivial h1
      rfl (BitVec.le_refl p) hround
  have hans : ((zero.ingress r r.v0 h).regs.ingress r r.v0 h').hdr =
      ((zero.ingress r r.v0 h).regs.handlePhase1a h').2 := ingress_phase1a h1 hround
  change ((zero.ingress r r.v0 h).regs.ingress r r.v0 h').hdr.paxos.vproposal = p at hvp
  change ((zero.ingress r r.v0 h).regs.ingress r r.v0 h').hdr.paxos.val = v at hval
  rw [hans] at hvp hval
  exact ⟨hvp.symm.trans (Register.read_of_size_le _ hi),
    hval.symm.trans (Register.read_of_size_le _ hi)⟩

/-- The coordinator assigns every 32-bit instance; the acceptor remembers its
votes exactly on the instances below `instCount`, a vote of zeros apart. -/
theorem durable_iff (rc r : FwdRules) (i : BitVec 32) (p : BitVec 16) (v : BitVec 32) :
    Coordinator.Assigns rc i ∧
      (Durable r i p v ↔ i.toNat < instCount ∨ (p = 0#16 ∧ v = 0#32)) := by
  refine ⟨Coordinator.assigns rc i, ?_, ?_⟩
  · intro hd
    by_cases hi : i.toNat < instCount
    · exact .inl hi
    · exact .inr (hd.eq_zero (Nat.le_of_not_lt hi))
  · rintro (hi | ⟨rfl, rfl⟩)
    · exact durable_of_lt hi p v
    · by_cases hi : i.toNat < instCount
      · exact durable_of_lt hi _ _
      · exact durable_zero (Nat.le_of_not_lt hi)

/-- The first instance past the arrays: the vote `(1, 5)` is forgotten. -/
theorem not_durable_instCount :
    Coordinator.Assigns twoPorts 64000#32 ∧ ¬ Durable twoPorts 64000#32 1#16 5#32 := by
  refine ⟨Coordinator.assigns _ _, fun hd => ?_⟩
  exact absurd (hd.eq_zero (by decide)).1 (by decide)

end Acceptor

end P4Survey.NetPaxos
