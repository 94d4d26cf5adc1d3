import P4Survey.NetPaxos.Durability

/-! # What the registers of an acceptor say of its past

For each instance the acceptor keeps the round and the last vote. The round
never goes down and a vote is never above it. A 1B reports the vote, so it
tells whether there was one unless the vote is the pair of zeros that the
registers start with.
-/

namespace P4Survey.NetPaxos
open Lib

namespace Acceptor

/-- The registers at start-up, with the number of the acceptor. -/
def boot (id : Register 16 1) : Acceptor := { zero with acceptorId := id }

instance (r : FwdRules) (st : Acceptor) (i : BitVec 32) (x : BitVec 9 × Headers) :
    Decidable (st.Accepts r i x) :=
  inferInstanceAs (Decidable (_ ∧ _ ∧ _))

/-- The proposal and the value of the last 2A for instance `i` that was accepted. -/
def lastVote (r : FwdRules) (i : BitVec 32) (st : Acceptor) :
    List (BitVec 9 × Headers) → Option (BitVec 16 × BitVec 32)
  | [] => none
  | x :: l => (lastVote r i (st.ingress r x.1 x.2).regs l).or
      (if st.Accepts r i x then some (x.2.paxos.proposal, x.2.paxos.val) else none)

variable {r : FwdRules} {st : Acceptor} {port : BitVec 9} {h : Headers} {i : BitVec 32}

section Step

theorem ingress_round_le (r : FwdRules) (st : Acceptor) (port : BitVec 9) (h : Headers)
    (i : BitVec 32) : st.round i ≤ (st.ingress r port h).regs.round i := by
  have hraise (hr : st.round h.paxos.inst ≤ h.paxos.proposal) :
      st.round i ≤
        if h.paxos.inst = i ∧ i.toNat < instCount then h.paxos.proposal else st.round i := by
    split_ifs with hi
    · rw [← hi.1]
      exact hr
    · exact BitVec.le_refl _
  rcases ingress_cases r st port h with ⟨hregs, -⟩ | ⟨-, hr, hregs, -⟩ | ⟨-, hr, hregs, -⟩
  · rw [hregs]
    exact BitVec.le_refl _
  · rw [hregs, handlePhase1a_round]
    exact hraise hr
  · rw [hregs, handlePhase2a_round]
    exact hraise hr

theorem ingress_vround_le (hst : st.vround i ≤ st.round i) :
    (st.ingress r port h).regs.vround i ≤ (st.ingress r port h).regs.round i := by
  rcases ingress_cases r st port h with ⟨hregs, -⟩ | ⟨-, -, hregs, -⟩ | ⟨-, -, hregs, -⟩
  · rw [hregs]
    exact hst
  · -- a promise keeps the vote and does not lower the round
    have hround := ingress_round_le r st port h i
    rw [hregs] at hround ⊢
    exact BitVec.le_trans hst hround
  · rw [hregs, handlePhase2a_round, handlePhase2a_vround]
    split_ifs
    · exact BitVec.le_refl _
    · exact hst

/-- A packet below the round is dropped and changes no register. -/
theorem ingress_below_round (hv : h.paxosValid = true)
    (hlt : h.paxos.proposal < st.round h.paxos.inst) :
    (st.ingress r port h).egressSpec = dropPort ∧ (st.ingress r port h).regs = st := by
  have hnot : ¬st.round h.paxos.inst ≤ h.paxos.proposal := by
    rw [BitVec.not_le]
    exact hlt
  simp [ingress, hv, hnot]

/-- A packet for another instance changes nothing here. -/
theorem ingress_frame (r : FwdRules) (st : Acceptor) (port : BitVec 9) (hne : h.paxos.inst ≠ i) :
    (st.ingress r port h).regs.round i = st.round i ∧
      (st.ingress r port h).regs.vround i = st.vround i ∧
      (st.ingress r port h).regs.value i = st.value i := by
  rcases ingress_cases r st port h with ⟨hregs, -⟩ | ⟨-, -, hregs, -⟩ | ⟨-, -, hregs, -⟩
  · rw [hregs]
    exact ⟨rfl, rfl, rfl⟩
  · rw [hregs, handlePhase1a_round, if_neg fun hi => hne hi.1]
    exact ⟨rfl, rfl, rfl⟩
  · rw [hregs, handlePhase2a_round, handlePhase2a_vround, handlePhase2a_value]
    simp [hne]

end Step

section Run

theorem run_round_le (r : FwdRules) (st : Acceptor) (i : BitVec 32)
    (l : List (BitVec 9 × Headers)) : st.round i ≤ (st.run r l).round i := by
  induction l generalizing st with
  | nil => exact BitVec.le_refl _
  | cons x l ih => exact BitVec.le_trans (ingress_round_le r st x.1 x.2 i) (ih _)

theorem run_vround_le (hst : st.vround i ≤ st.round i) (l : List (BitVec 9 × Headers)) :
    (st.run r l).vround i ≤ (st.run r l).round i := by
  induction l generalizing st with
  | nil => exact hst
  | cons x l ih => exact ih (ingress_vround_le hst)

/-- The vote after a run is the last one of the run, or the one from before. -/
theorem run_vote (hi : i.toNat < instCount) (st : Acceptor) (l : List (BitVec 9 × Headers)) :
    ((st.run r l).vround i, (st.run r l).value i) =
      (lastVote r i st l).getD (st.vround i, st.value i) := by
  induction l generalizing st with
  | nil => rfl
  | cons x l ih =>
    rw [run, lastVote, ih, Option.getD_or]
    congr 1
    split_ifs with ha
    · rw [(ingress_of_accepts ha).2, handlePhase2a_vround, handlePhase2a_value,
        if_pos ⟨ha.2.1, hi⟩, if_pos ⟨ha.2.1, hi⟩]
      rfl
    · obtain ⟨hv, hw⟩ := ingress_vote_of_not_accepts ha
      rw [hv, hw]
      rfl

theorem lastVote_eq_none {l : List (BitVec 9 × Headers)} :
    lastVote r i st l = none ↔ st.NoneAccepted r i l := by
  induction l generalizing st with
  | nil => simp [lastVote, NoneAccepted]
  | cons x l ih =>
    rw [lastVote, NoneAccepted, Option.or_eq_none_iff, ih, and_comm]
    simp

end Run

section Boot

variable (id : Register 16 1)

theorem boot_vote : ((boot id).vround i, (boot id).value i) = (0#16, 0#32) := by
  rw [Prod.mk.injEq]
  exact ⟨zero_vround i, zero_value i⟩

theorem boot_vround_le : (boot id).vround i ≤ (boot id).round i := by
  rw [show (boot id).vround i = 0#16 from zero_vround i]
  exact Nat.zero_le _

end Boot

/-- The laws of the registers of one instance, for every list of packets. -/
theorem state_laws (r : FwdRules) (id : Register 16 1) {i : BitVec 32} (hi : i.toNat < instCount)
    (l : List (BitVec 9 × Headers)) :
    let st := (boot id).run r l
    (∀ l', st.round i ≤ (st.run r l').round i) ∧
      st.vround i ≤ st.round i ∧
      (∀ vote, lastVote r i (boot id) l = some vote → (st.vround i, st.value i) = vote) ∧
      (∀ (port : BitVec 9) (h : Headers), h.IsPhase1a ∨ h.IsPhase2a → h.paxos.inst = i →
        h.paxos.proposal < st.round i →
        (st.ingress r port h).egressSpec = dropPort ∧ (st.ingress r port h).regs = st) ∧
      ∀ (port : BitVec 9) (h : Headers), h.paxos.inst ≠ i →
        (st.ingress r port h).regs.round i = st.round i ∧
          (st.ingress r port h).regs.vround i = st.vround i ∧
          (st.ingress r port h).regs.value i = st.value i := by
  intro st
  refine ⟨run_round_le r st i, run_vround_le (boot_vround_le id) l, ?_, ?_, ?_⟩
  · intro vote hvote
    rw [run_vote hi, hvote]
    rfl
  · intro port h hphase hinst hlt
    have hv : h.paxosValid = true := by
      rcases hphase with hp | hp
      · exact hp.1
      · exact hp.1
    rw [← hinst] at hlt
    exact ingress_below_round hv hlt
  · intro port h hne
    exact ingress_frame r st port hne

/-- A valid packet with the given fields. -/
def packet (msgtype : BitVec 16) (inst : BitVec 32) (proposal : BitVec 16) (val : BitVec 32) :
    BitVec 9 × Headers :=
  (1#9, ⟨true, default, true, ⟨inst, proposal, 0#16, 0#16, msgtype, val⟩⟩)

/-- A vote in round 1, a promise of round 4 and a 2A of round 2 that comes too late. -/
theorem state_laws_lateProposal :
    let st := (boot (.fill 1 7#16)).run twoPorts
      [packet 3#16 9#32 1#16 5#32, packet 1#16 9#32 4#16 0#32, packet 3#16 9#32 2#16 6#32]
    st.vround 9#32 ≤ st.round 9#32 ∧ (st.vround 9#32, st.value 9#32) = (1#16, 5#32) := by
  have hlaws := state_laws twoPorts (.fill 1 7#16) (i := 9#32) (by decide)
    [packet 3#16 9#32 1#16 5#32, packet 1#16 9#32 4#16 0#32, packet 3#16 9#32 2#16 6#32]
  exact ⟨hlaws.2.1, hlaws.2.2.1 _ (by decide +kernel)⟩

section Replies

/-- A 1A that becomes a 1B was not below the round. -/
theorem reply_of_answered (h1 : h.IsPhase1a)
    (hm : (st.ingress r port h).hdr.paxos.msgtype = 2#16) :
    ((st.ingress r port h).hdr.paxos.vproposal, (st.ingress r port h).hdr.paxos.val) =
      (st.vround h.paxos.inst, st.value h.paxos.inst) := by
  rcases ingress_cases r st port h with ⟨-, hh, -⟩ | ⟨-, -, -, hh⟩ | ⟨h2, -⟩
  · rw [hh, h1.2] at hm
    exact absurd hm (by decide)
  · rw [hh]
    rfl
  · exact absurd (h1.2.symm.trans h2.2) (by decide)

/-- The replies after a history with a vote and one without differ exactly if the last vote is not
the pair of zeros. -/
theorem replies_differ_iff (r : FwdRules) (id : Register 16 1) {i : BitVec 32}
    (hi : i.toNat < instCount) {l l' : List (BitVec 9 × Headers)}
    (hl : ¬(boot id).NoneAccepted r i l) (hl' : (boot id).NoneAccepted r i l') (port : BitVec 9)
    {h : Headers} (h1 : h.IsPhase1a) (hinst : h.paxos.inst = i)
    (hm : (((boot id).run r l).ingress r port h).hdr.paxos.msgtype = 2#16)
    (hm' : (((boot id).run r l').ingress r port h).hdr.paxos.msgtype = 2#16) :
    let reply := (((boot id).run r l).ingress r port h).hdr.paxos
    let reply' := (((boot id).run r l').ingress r port h).hdr.paxos
    (reply.vproposal, reply.val) ≠ (reply'.vproposal, reply'.val) ↔
      lastVote r i (boot id) l ≠ some (0#16, 0#32) := by
  intro reply reply'
  subst hinst
  have hreply : (reply.vproposal, reply.val) = (lastVote r h.paxos.inst (boot id) l).getD (0, 0) := by
    rw [reply_of_answered h1 hm, run_vote hi, boot_vote]
    rfl
  have hreply' : (reply'.vproposal, reply'.val) = (0#16, 0#32) := by
    rw [reply_of_answered h1 hm', run_vote hi, boot_vote, lastVote_eq_none.mpr hl']
    rfl
  rw [hreply, hreply']
  cases hvote : lastVote r h.paxos.inst (boot id) l with
  | none => exact absurd (lastVote_eq_none.mp hvote) hl
  | some vote => simp

/-- A vote for a value other than zero in round 0 shows in the reply. -/
theorem replies_differ_iff_roundZero :
    let l := [packet 3#16 1#32 0#16 0x1234#32]
    let reply := (((boot (.fill 1 0#16)).run twoPorts l).ingress twoPorts 1#9
      (packet 1#16 1#32 1#16 0#32).2).hdr.paxos
    let reply' := ((boot (.fill 1 0#16)).ingress twoPorts 1#9
      (packet 1#16 1#32 1#16 0#32).2).hdr.paxos
    (reply.vproposal, reply.val) ≠ (reply'.vproposal, reply'.val) := by
  have hnone : (boot (.fill 1 0#16)).NoneAccepted twoPorts 1#32 [] := trivial
  have hdiffer := replies_differ_iff twoPorts (.fill 1 0#16) (by decide)
    (l := [packet 3#16 1#32 0#16 0x1234#32]) (fun hno => hno.1 (by decide +kernel)) hnone 1#9
    (h := (packet 1#16 1#32 1#16 0#32).2) ⟨rfl, rfl⟩ rfl (by decide +kernel) (by decide +kernel)
  exact hdiffer.mpr (by decide +kernel)

/-- A vote for zero in round 0 is reported like no vote. -/
theorem zero_vote_hidden :
    ¬∀ (r : FwdRules) (id : Register 16 1) (i : BitVec 32), i.toNat < instCount →
      ∀ l l' : List (BitVec 9 × Headers), ¬(boot id).NoneAccepted r i l →
      (boot id).NoneAccepted r i l' → ∀ (port : BitVec 9) (h : Headers), h.IsPhase1a →
      h.paxos.inst = i →
      (((boot id).run r l).ingress r port h).hdr.paxos.msgtype = 2#16 →
      (((boot id).run r l').ingress r port h).hdr.paxos.msgtype = 2#16 →
      ((((boot id).run r l).ingress r port h).hdr.paxos.vproposal,
          (((boot id).run r l).ingress r port h).hdr.paxos.val) ≠
        ((((boot id).run r l').ingress r port h).hdr.paxos.vproposal,
          (((boot id).run r l').ingress r port h).hdr.paxos.val) := by
  intro hall
  have hdiffer := hall twoPorts (.fill 1 0#16) 1#32 (by decide) [packet 3#16 1#32 0#16 0#32] []
    (fun hnone => hnone.1 (by decide +kernel)) trivial 1#9 (packet 1#16 1#32 1#16 0#32).2
    ⟨rfl, rfl⟩ rfl (by decide +kernel) (by decide +kernel)
  revert hdiffer
  decide +kernel

end Replies

end Acceptor

end P4Survey.NetPaxos
