import P4Survey.Lib.System
import P4Survey.Lib.Decree
import P4Survey.NetPaxos.Acceptor

/-! # Agreement among NetPaxos acceptors

Any finite set of acceptors runs the acceptor pipeline behind a network that
may lose, duplicate, delay and reorder packets: a packet once sent can be
delivered to any acceptor any number of times, or never. Only the senders of 2A
packets are constrained. Seen through one instance, every step of this network
is a step of the single-decree voting of `Lib.Decree`, or changes nothing.
-/

namespace P4Survey.NetPaxos
open Lib Lib.Voting

/-- One processed packet: what the acceptor received and what it made of it. -/
structure Event (A : Type*) where
  acceptor : A
  request : Headers
  answer : Headers
  egressSpec : BitVec 9

structure Net (A : Type*) where
  acceptor : A → Acceptor
  sent : List Headers
  log : List (Event A)

namespace Event

variable {A : Type*}

/-- The acceptor answered a 1A for `(i, p)` with a 1B carrying `(vp, v)`. -/
def Promises (e : Event A) (a : A) (i : BitVec 32) (p vp : BitVec 16) (v : BitVec 32) : Prop :=
  e.acceptor = a ∧ e.request.IsPhase1a ∧ e.answer.paxos.msgtype = 2#16 ∧
    e.answer.paxos.inst = i ∧ e.answer.paxos.proposal = p ∧ e.answer.paxos.vproposal = vp ∧
    e.answer.paxos.val = v

/-- The acceptor accepted a 2A and turned it into the 2B `(i, p, v)`. -/
def Votes (e : Event A) (a : A) (i : BitVec 32) (p : BitVec 16) (v : BitVec 32) : Prop :=
  e.acceptor = a ∧ e.request.IsPhase2a ∧ e.answer.paxos.msgtype = 4#16 ∧
    e.answer.paxos.inst = i ∧ e.answer.paxos.proposal = p ∧ e.answer.paxos.val = v

/-- The processed packet left the acceptor. -/
def Emitted (e : Event A) : Prop := e.egressSpec ≠ dropPort

variable [DecidableEq A]

instance (e : Event A) (a : A) (i : BitVec 32) (p vp : BitVec 16) (v : BitVec 32) :
    Decidable (e.Promises a i p vp v) := inferInstanceAs (Decidable (_ ∧ _))

instance (e : Event A) (a : A) (i : BitVec 32) (p : BitVec 16) (v : BitVec 32) :
    Decidable (e.Votes a i p v) := inferInstanceAs (Decidable (_ ∧ _))

instance (e : Event A) : Decidable e.Emitted := inferInstanceAs (Decidable (_ ≠ _))

end Event

namespace Net

variable {A : Type*}

def Promised (s : Net A) (a : A) (i : BitVec 32) (p vp : BitVec 16) (v : BitVec 32) : Prop :=
  ∃ e ∈ s.log, e.Promises a i p vp v

/-- A 1B reply left the acceptor. -/
def Emitted1b (s : Net A) (a : A) (i : BitVec 32) (p vp : BitVec 16) (v : BitVec 32) : Prop :=
  ∃ e ∈ s.log, e.Promises a i p vp v ∧ e.Emitted

def Voted (s : Net A) (a : A) (i : BitVec 32) (p : BitVec 16) (v : BitVec 32) : Prop :=
  ∃ e ∈ s.log, e.Votes a i p v

/-- A 2B reply left the acceptor. -/
def Emitted2b (s : Net A) (a : A) (i : BitVec 32) (p : BitVec 16) (v : BitVec 32) : Prop :=
  ∃ e ∈ s.log, e.Votes a i p v ∧ e.Emitted

/-- A 2A for `(i, p, v)` is on the network. -/
def Proposed (s : Net A) (i : BitVec 32) (p : BitVec 16) (v : BitVec 32) : Prop :=
  ∃ h ∈ s.sent, h.IsPhase2a ∧ h.paxos.inst = i ∧ h.paxos.proposal = p ∧ h.paxos.val = v

instance [DecidableEq A] (s : Net A) (a : A) (i : BitVec 32) (p vp : BitVec 16)
    (v : BitVec 32) : Decidable (s.Emitted1b a i p vp v) :=
  inferInstanceAs (Decidable (∃ e ∈ s.log, _))

instance [DecidableEq A] (s : Net A) (a : A) (i : BitVec 32) (p : BitVec 16) (v : BitVec 32) :
    Decidable (s.Emitted2b a i p v) :=
  inferInstanceAs (Decidable (∃ e ∈ s.log, _))

variable [Fintype A]

/-- Some 1B replies for `(i, p)` come from a majority and, if one of them reports
an accepted value, `v` is the value of one with the largest `vproposal`. -/
def Supported (s : Net A) (i : BitVec 32) (p : BitVec 16) (v : BitVec 32) : Prop :=
  ∃ R : List (A × BitVec 16 × BitVec 32),
    (∀ r ∈ R, s.Emitted1b r.1 i p r.2.1 r.2.2) ∧
    (∃ Q : Finset A, Majority Q ∧ ∀ a ∈ Q, ∃ r ∈ R, r.1 = a) ∧
    ((∃ r ∈ R, 0#16 < r.2.1) → ∃ r ∈ R, r.2.2 = v ∧ ∀ r' ∈ R, r'.2.1 ≤ r.2.1)

/-- What is assumed of senders: nothing, except about 2A packets. -/
def SendOk (s : Net A) (h : Headers) : Prop :=
  h.IsPhase2a →
    1#16 ≤ h.paxos.proposal ∧
    (∀ w, s.Proposed h.paxos.inst h.paxos.proposal w → w = h.paxos.val) ∧
    (h.paxos.inst.toNat < instCount →
      s.Supported h.paxos.inst h.paxos.proposal h.paxos.val)

end Net

inductive Label (A : Type*) where
  | send (h : Headers)
  | deliver (a : A) (port : BitVec 9) (h : Headers)

variable {A : Type*} [DecidableEq A]

/-- The packets on the network after a delivery: an answer that is not dropped
joins them. -/
def Net.deliver (r : FwdRules) (s : Net A) (a : A) (port : BitVec 9) (h : Headers) : Net A :=
  let o := (s.acceptor a).ingress r port h
  { acceptor := Function.update s.acceptor a o.regs
    sent := if o.egressSpec = dropPort then s.sent else o.hdr :: s.sent
    log := ⟨a, h, o.hdr, o.egressSpec⟩ :: s.log }

/-- Acceptors with zeroed registers, 2A senders as assumed, any delivery order. -/
def acceptors [Fintype A] (r : FwdRules) : System (Net A) (Label A) where
  init s := s = ⟨fun _ => Acceptor.zero, [], []⟩
  enabled
    | s, .send h => s.SendOk h
    | s, .deliver _ _ h => h ∈ s.sent
  next
    | s, .send h => { s with sent := h :: s.sent }
    | s, .deliver a port h => s.deliver r a port h

namespace Net

/-- The network as one instance sees it. -/
def view (s : Net A) (i : BitVec 32) : Decree A (BitVec 32) where
  round a := ((s.acceptor a).round i).toNat
  vround a := ((s.acceptor a).vround i).toNat
  value a := (s.acceptor a).value i
  promised a p vp v := ∃ P VP, s.Promised a i P VP v ∧ P.toNat = p ∧ VP.toNat = vp
  voted a p v := ∃ P, s.Voted a i P v ∧ P.toNat = p
  proposed p v := ∃ P, s.Proposed i P v ∧ P.toNat = p

omit [DecidableEq A] in
theorem promised_cons (s : Net A) (acceptor : A → Acceptor) (sent : List Headers) (e : Event A)
    {a : A} {i : BitVec 32} {p vp : BitVec 16} {v : BitVec 32} :
    Promised ⟨acceptor, sent, e :: s.log⟩ a i p vp v ↔
      e.Promises a i p vp v ∨ s.Promised a i p vp v := by
  simp [Promised]

omit [DecidableEq A] in
theorem voted_cons (s : Net A) (acceptor : A → Acceptor) (sent : List Headers) (e : Event A)
    {a : A} {i : BitVec 32} {p : BitVec 16} {v : BitVec 32} :
    Voted ⟨acceptor, sent, e :: s.log⟩ a i p v ↔ e.Votes a i p v ∨ s.Voted a i p v := by
  simp [Voted]

/-- No answer of an acceptor is a 2A, so a delivery proposes nothing. -/
theorem proposed_deliver (r : FwdRules) (s : Net A) (a : A) (port : BitVec 9) {h : Headers}
    (hs : h ∈ s.sent) {i : BitVec 32} {p : BitVec 16} {v : BitVec 32} :
    (s.deliver r a port h).Proposed i p v ↔ s.Proposed i p v := by
  have hnew : ((s.acceptor a).ingress r port h).hdr.IsPhase2a →
      ((s.acceptor a).ingress r port h).hdr = h := by
    intro h2
    rcases Acceptor.ingress_cases r (s.acceptor a) port h with
      ⟨-, he, -⟩ | ⟨-, -, -, he⟩ | ⟨-, -, -, he⟩
    · exact he
    · rw [he] at h2
      simp [Headers.IsPhase2a, Acceptor.handlePhase1a] at h2
    · rw [he] at h2
      simp [Headers.IsPhase2a, Acceptor.handlePhase2a] at h2
  unfold Proposed deliver
  constructor
  · rintro ⟨g, hg, h2, hrest⟩
    by_cases hd : ((s.acceptor a).ingress r port h).egressSpec = dropPort
    · exact ⟨g, by simpa [hd] using hg, h2, hrest⟩
    · simp only [hd, if_false, List.mem_cons] at hg
      rcases hg with rfl | hg
      · exact ⟨h, hs, hnew h2 ▸ h2, hnew h2 ▸ hrest⟩
      · exact ⟨g, hg, h2, hrest⟩
  · rintro ⟨g, hg, hrest⟩
    refine ⟨g, ?_, hrest⟩
    by_cases hd : ((s.acceptor a).ingress r port h).egressSpec = dropPort
    · simpa [hd] using hg
    · simp [hd, hg]

/-- A delivery that touches neither the registers nor the sayings of an instance
is invisible to it. -/
theorem view_deliver_eq (r : FwdRules) (s : Net A) (a : A) (port : BitVec 9) {h : Headers}
    (hs : h ∈ s.sent) {i : BitVec 32}
    (hround : ((s.acceptor a).ingress r port h).regs.round i = (s.acceptor a).round i)
    (hvround : ((s.acceptor a).ingress r port h).regs.vround i = (s.acceptor a).vround i)
    (hvalue : ((s.acceptor a).ingress r port h).regs.value i = (s.acceptor a).value i)
    (hsaid : h.IsPhase1a ∨ h.IsPhase2a →
      ((s.acceptor a).ingress r port h).hdr.paxos.inst = i →
      ((s.acceptor a).ingress r port h).hdr.paxos.msgtype ≠ 2#16 ∧
        ((s.acceptor a).ingress r port h).hdr.paxos.msgtype ≠ 4#16) :
    (s.deliver r a port h).view i = s.view i := by
  have hreg (f : Acceptor → BitVec 32 → BitVec 16)
      (hf : f ((s.acceptor a).ingress r port h).regs i = f (s.acceptor a) i) (b : A) :
      f ((s.deliver r a port h).acceptor b) i = f (s.acceptor b) i := by
    by_cases hb : b = a
    · subst hb
      simpa [deliver] using hf
    · simp [deliver, Function.update_of_ne hb]
  apply Decree.ext
  · funext b
    exact congrArg BitVec.toNat (hreg Acceptor.round hround b)
  · funext b
    exact congrArg BitVec.toNat (hreg Acceptor.vround hvround b)
  · funext b
    by_cases hb : b = a
    · subst hb
      simpa [deliver, view] using hvalue
    · simp [deliver, view, Function.update_of_ne hb]
  · funext b p vp v
    have hno : ∀ P VP, ¬ (⟨a, h, ((s.acceptor a).ingress r port h).hdr,
        ((s.acceptor a).ingress r port h).egressSpec⟩ : Event A).Promises b i P VP v := by
      rintro P VP ⟨-, h1, hm, hinst, -⟩
      exact (hsaid (.inl h1) hinst).1 hm
    simp only [view, deliver, promised_cons, hno, false_or]
  · funext b p v
    have hno : ∀ P, ¬ (⟨a, h, ((s.acceptor a).ingress r port h).hdr,
        ((s.acceptor a).ingress r port h).egressSpec⟩ : Event A).Votes b i P v := by
      rintro P ⟨-, h2, hm, hinst, -⟩
      exact (hsaid (.inr h2) hinst).2 hm
    simp only [view, deliver, voted_cons, hno, false_or]
  · funext p v
    simp only [view, proposed_deliver r s a port hs]

/-- An answered 1A is a promise of its instance. -/
theorem view_deliver_promise (r : FwdRules) (s : Net A) (a : A) (port : BitVec 9) {h : Headers}
    (hs : h ∈ s.sent) (h1 : h.IsPhase1a) (hi : h.paxos.inst.toNat < instCount)
    (hregs : ((s.acceptor a).ingress r port h).regs = ((s.acceptor a).handlePhase1a h).1)
    (hhdr : ((s.acceptor a).ingress r port h).hdr = ((s.acceptor a).handlePhase1a h).2) :
    (s.deliver r a port h).view h.paxos.inst =
      (s.view h.paxos.inst).promise a h.paxos.proposal.toNat := by
  apply Decree.ext
  · funext b
    by_cases hb : b = a
    · subst hb
      simp [view, deliver, Decree.promise, hregs, Acceptor.handlePhase1a_round, hi]
    · simp [view, deliver, Decree.promise, Function.update_of_ne hb]
  · funext b
    by_cases hb : b = a
    · subst hb
      simp [view, deliver, Decree.promise, hregs, Acceptor.handlePhase1a, Acceptor.vround]
    · simp [view, deliver, Decree.promise, Function.update_of_ne hb]
  · funext b
    by_cases hb : b = a
    · subst hb
      simp [view, deliver, Decree.promise, hregs, Acceptor.handlePhase1a, Acceptor.value]
    · simp [view, deliver, Decree.promise, Function.update_of_ne hb]
  · funext b p vp v
    simp only [view, deliver, promised_cons, Decree.promise, hhdr, Event.Promises,
      Acceptor.handlePhase1a, h1, true_and, eq_iff_iff]
    constructor
    · rintro ⟨P, VP, (⟨rfl, rfl, rfl, rfl⟩ | hold), rfl, rfl⟩
      · exact .inr ⟨rfl, rfl, rfl, rfl⟩
      · exact .inl ⟨P, VP, hold, rfl, rfl⟩
    · rintro (⟨P, VP, hold, rfl, rfl⟩ | ⟨rfl, rfl, rfl, rfl⟩)
      · exact ⟨P, VP, .inr hold, rfl, rfl⟩
      · exact ⟨_, _, .inl ⟨rfl, rfl, rfl, rfl⟩, rfl, rfl⟩
  · funext b p v
    have hno : ¬ h.IsPhase2a := by
      rintro ⟨-, h3⟩
      simp [h1.2] at h3
    simp only [view, deliver, voted_cons, Decree.promise, Event.Votes, hno, false_and, and_false,
      false_or]
  · funext p v
    simp only [view, proposed_deliver r s a port hs, Decree.promise]

/-- An accepted 2A is a vote in its instance. -/
theorem view_deliver_vote (r : FwdRules) (s : Net A) (a : A) (port : BitVec 9) {h : Headers}
    (hs : h ∈ s.sent) (h2 : h.IsPhase2a) (hi : h.paxos.inst.toNat < instCount)
    (hregs : ((s.acceptor a).ingress r port h).regs = ((s.acceptor a).handlePhase2a h).1)
    (hhdr : ((s.acceptor a).ingress r port h).hdr = ((s.acceptor a).handlePhase2a h).2) :
    (s.deliver r a port h).view h.paxos.inst =
      (s.view h.paxos.inst).vote a h.paxos.proposal.toNat h.paxos.val := by
  apply Decree.ext
  · funext b
    by_cases hb : b = a
    · subst hb
      simp [view, deliver, Decree.vote, hregs, Acceptor.handlePhase2a_round, hi]
    · simp [view, deliver, Decree.vote, Function.update_of_ne hb]
  · funext b
    by_cases hb : b = a
    · subst hb
      simp [view, deliver, Decree.vote, hregs, Acceptor.handlePhase2a_vround, hi]
    · simp [view, deliver, Decree.vote, Function.update_of_ne hb]
  · funext b
    by_cases hb : b = a
    · subst hb
      simp [view, deliver, Decree.vote, hregs, Acceptor.handlePhase2a_value, hi]
    · simp [view, deliver, Decree.vote, Function.update_of_ne hb]
  · funext b p vp v
    have hno : ¬ h.IsPhase1a := by
      rintro ⟨-, h3⟩
      simp [h2.2] at h3
    simp only [view, deliver, promised_cons, Decree.vote, Event.Promises, hno, false_and,
      and_false, false_or]
  · funext b p v
    simp only [view, deliver, voted_cons, Decree.vote, hhdr, Event.Votes,
      Acceptor.handlePhase2a, h2, true_and, eq_iff_iff]
    constructor
    · rintro ⟨P, (⟨rfl, rfl, rfl⟩ | hold), rfl⟩
      · exact .inr ⟨rfl, rfl, rfl⟩
      · exact .inl ⟨P, hold, rfl⟩
    · rintro (⟨P, hold, rfl⟩ | ⟨rfl, rfl, rfl⟩)
      · exact ⟨P, .inr hold, rfl⟩
      · exact ⟨_, .inl ⟨rfl, rfl, rfl⟩, rfl⟩
  · funext p v
    simp only [view, proposed_deliver r s a port hs, Decree.vote]

/-- Seen through one instance, a delivery is a voting step or nothing. -/
theorem view_deliver [Fintype A] (r : FwdRules) (s : Net A) (a : A) (port : BitVec 9)
    {h : Headers} (hs : h ∈ s.sent) {i : BitVec 32} (hi : i.toNat < instCount) :
    (s.deliver r a port h).view i = s.view i ∨
      Decree.Step (s.view i) ((s.deliver r a port h).view i) := by
  rcases Acceptor.ingress_cases r (s.acceptor a) port h with
    ⟨hregs, hhdr, -⟩ | ⟨h1, hr, hregs, hhdr⟩ | ⟨h2, hr, hregs, hhdr⟩
  · left
    refine view_deliver_eq r s a port hs (by rw [hregs]) (by rw [hregs]) (by rw [hregs]) ?_
    rintro (h1 | h2) -
    · simp [hhdr, h1.2]
    · simp [hhdr, h2.2]
  · by_cases he : h.paxos.inst = i
    · subst he
      right
      rw [view_deliver_promise r s a port hs h1 hi hregs hhdr]
      exact .promise hr
    · left
      refine view_deliver_eq r s a port hs ?_ (by rw [hregs]; rfl) (by rw [hregs]; rfl) ?_
      · simp [hregs, Acceptor.handlePhase1a_round, he]
      · intro _ hinst
        rw [hhdr] at hinst
        exact absurd hinst he
  · by_cases he : h.paxos.inst = i
    · subst he
      right
      rw [view_deliver_vote r s a port hs h2 hi hregs hhdr]
      exact .vote hr ⟨_, ⟨h, hs, h2, rfl, rfl, rfl⟩, rfl⟩
    · left
      refine view_deliver_eq r s a port hs ?_ ?_ ?_ ?_
      · simp [hregs, Acceptor.handlePhase2a_round, he]
      · simp [hregs, Acceptor.handlePhase2a_vround, he]
      · simp [hregs, Acceptor.handlePhase2a_value, he]
      · intro _ hinst
        rw [hhdr] at hinst
        exact absurd hinst he

omit [DecidableEq A] in
theorem Supported.view [Fintype A] {s : Net A} {i : BitVec 32} {p : BitVec 16} {v : BitVec 32}
    (h : s.Supported i p v) : (s.view i).Supported p.toNat v := by
  obtain ⟨R, hR, ⟨Q, hQ, hcover⟩, hmax⟩ := h
  refine ⟨R.map fun r => (r.1, r.2.1.toNat, r.2.2), ?_, ⟨Q, hQ, ?_⟩, ?_⟩
  · intro r hr
    obtain ⟨t, ht, rfl⟩ := List.mem_map.mp hr
    obtain ⟨e, he, hp, -⟩ := hR t ht
    exact ⟨p, t.2.1, ⟨e, he, hp⟩, rfl, rfl⟩
  · intro a ha
    obtain ⟨t, ht, rfl⟩ := hcover a ha
    exact ⟨_, List.mem_map_of_mem ht, rfl⟩
  · rintro ⟨r, hr, hpos⟩
    obtain ⟨t, ht, rfl⟩ := List.mem_map.mp hr
    obtain ⟨u, hu, huv, hule⟩ := hmax ⟨t, ht, hpos⟩
    refine ⟨_, List.mem_map_of_mem hu, huv, ?_⟩
    intro r' hr'
    obtain ⟨t', ht', rfl⟩ := List.mem_map.mp hr'
    exact hule t' ht'

omit [DecidableEq A] in
/-- Seen through one instance, a permitted send is a proposal or nothing. -/
theorem view_send [Fintype A] [DecidableEq A] (s : Net A) {h : Headers} (hs : s.SendOk h)
    {i : BitVec 32} (hi : i.toNat < instCount) :
    ({ s with sent := h :: s.sent } : Net A).view i = s.view i ∨
      Decree.Step (s.view i) (({ s with sent := h :: s.sent } : Net A).view i) := by
  by_cases hnew : h.IsPhase2a ∧ h.paxos.inst = i
  · obtain ⟨h2, rfl⟩ := hnew
    obtain ⟨hpos, hone, hsup⟩ := hs h2
    right
    have heq : ({ s with sent := h :: s.sent } : Net A).view h.paxos.inst =
        (s.view h.paxos.inst).propose h.paxos.proposal.toNat h.paxos.val := by
      apply Decree.ext <;> try rfl
      funext p v
      simp only [view, Proposed, Decree.propose, List.mem_cons, eq_iff_iff]
      constructor
      · rintro ⟨P, ⟨g, rfl | hg, h2', hinst, rfl, rfl⟩, rfl⟩
        · exact .inr ⟨rfl, rfl⟩
        · exact .inl ⟨_, ⟨g, hg, h2', hinst, rfl, rfl⟩, rfl⟩
      · rintro (⟨P, ⟨g, hg, hrest⟩, rfl⟩ | ⟨rfl, rfl⟩)
        · exact ⟨P, ⟨g, .inr hg, hrest⟩, rfl⟩
        · exact ⟨_, ⟨h, .inl rfl, h2, rfl, rfl, rfl⟩, rfl⟩
    rw [heq]
    refine .propose hpos ?_ (hsup hi).view
    rintro w ⟨P, hP, he⟩
    exact hone w (BitVec.toNat_inj.mp he ▸ hP)
  · left
    apply Decree.ext <;> try rfl
    funext p v
    simp only [view, Proposed, List.mem_cons, eq_iff_iff]
    constructor
    · rintro ⟨P, ⟨g, rfl | hg, h2, hinst, hrest⟩, rfl⟩
      · exact absurd ⟨h2, hinst⟩ hnew
      · exact ⟨P, ⟨g, hg, h2, hinst, hrest⟩, rfl⟩
    · rintro ⟨P, ⟨g, hg, hrest⟩, rfl⟩
      exact ⟨P, ⟨g, .inr hg, hrest⟩, rfl⟩

/-- The 2B `(i, p, v)` left a majority of the acceptors. -/
def MajorityEmitted2b [Fintype A] (s : Net A) (i : BitVec 32) (p : BitVec 16) (v : BitVec 32) :
    Prop :=
  ∃ Q : Finset A, Majority Q ∧ ∀ a ∈ Q, s.Emitted2b a i p v

omit [DecidableEq A] in
theorem MajorityEmitted2b.chosen [Fintype A] {s : Net A} {i : BitVec 32} {p : BitVec 16}
    {v : BitVec 32} (h : s.MajorityEmitted2b i p v) : Chosen (s.view i).voted p.toNat v := by
  obtain ⟨Q, hQ, hvoted⟩ := h
  refine ⟨Q, hQ, fun a ha => ?_⟩
  obtain ⟨e, he, hv, -⟩ := hvoted a ha
  exact ⟨p, ⟨e, he, hv⟩, rfl⟩

end Net

variable [Fintype A]

theorem view_inv (r : FwdRules) {s : Net A} (hs : (acceptors r).Reachable s) {i : BitVec 32}
    (hi : i.toNat < instCount) : (s.view i).Inv := by
  have hkeep {d d' : Decree A (BitVec 32)} (hd : d.Inv) (h : d' = d ∨ Decree.Step d d') :
      d'.Inv := by
    rcases h with rfl | h
    · exact hd
    · exact hd.step h
  refine hs.invariant (P := fun s => (s.view i).Inv) ?_ ?_
  · rintro s rfl
    have he : (⟨fun _ => Acceptor.zero, [], []⟩ : Net A).view i = Decree.initial 0#32 := by
      apply Decree.ext <;> simp [Net.view, Decree.initial, Net.Promised, Net.Voted, Net.Proposed]
    rw [he]
    exact .initial _
  · intro s a _ ih he
    cases a with
    | send h => exact hkeep ih (s.view_send he hi)
    | deliver a port h => exact hkeep ih (s.view_deliver r a port he hi)

/-- Two values that majorities of acceptors emitted in 2B packets of the same
instance are equal, in whatever rounds. -/
theorem emitted2b_agree (r : FwdRules) {s : Net A} (hs : (acceptors r).Reachable s)
    {i : BitVec 32} (hi : i.toNat < instCount) {p q : BitVec 16} {v w : BitVec 32}
    (hv : s.MajorityEmitted2b i p v) (hw : s.MajorityEmitted2b i q w) : v = w :=
  (view_inv r hs hi).agreement hv.chosen hw.chosen

section

local instance threeAcceptors : NeZero 3 := ⟨by decide⟩

/-- Two rounds of one instance on three acceptors: the first round reaches
acceptors 0 and 1, the second 1 and 2 and adopts the value that 1 reports. -/
def twoRounds : List (Label (Fin 3)) :=
  let prepare (p : BitVec 16) : Headers := ⟨true, default, true, ⟨5, p, 0, 0, 1, 0⟩⟩
  let accept (p : BitVec 16) : Headers := ⟨true, default, true, ⟨5, p, 0, 0, 3, 7⟩⟩
  [.send (prepare 1), .deliver 0 1 (prepare 1), .deliver 1 1 (prepare 1),
    .send (accept 1), .deliver 0 1 (accept 1), .deliver 1 1 (accept 1),
    .send (prepare 2), .deliver 1 1 (prepare 2), .deliver 2 1 (prepare 2),
    .send (accept 2), .deliver 1 1 (accept 2), .deliver 2 1 (accept 2)]

end

omit [Fintype A] [DecidableEq A] in
theorem Net.proposed_eq {s : Net A} {i : BitVec 32} {p : BitVec 16} {v : BitVec 32}
    (h : ∀ g ∈ s.sent, g.IsPhase2a → g.paxos.proposal = p → g.paxos.val = v) (w : BitVec 32)
    (hw : s.Proposed i p w) : w = v := by
  obtain ⟨g, hg, h2, -, hp, rfl⟩ := hw
  exact h g hg h2 hp

theorem twoRounds_allowed :
    (acceptors twoPorts).Allowed ⟨fun _ => Acceptor.zero, [], []⟩ twoRounds := by
  refine ⟨?_, ?_, ?_, ?_, ?_, ?_, ?_, ?_, ?_, ?_, ?_, ?_, trivial⟩
  · exact fun h => absurd h (by decide)
  · change _ ∈ Net.sent _; decide
  · change _ ∈ Net.sent _; decide
  · refine fun _ => ⟨by decide, Net.proposed_eq (by decide), fun _ => ?_⟩
    refine ⟨[(0, 0, 0), (1, 0, 0)], ?_, ⟨{0, 1}, by decide, by decide⟩, ?_⟩
    · simp only [List.forall_mem_cons]
      exact ⟨by decide, by decide, List.forall_mem_nil _⟩
    · simp
  · change _ ∈ Net.sent _; decide
  · change _ ∈ Net.sent _; decide
  · exact fun h => absurd h (by decide)
  · change _ ∈ Net.sent _; decide
  · change _ ∈ Net.sent _; decide
  · refine fun _ => ⟨by decide, Net.proposed_eq (by decide), fun _ => ?_⟩
    refine ⟨[(1, 1, 7), (2, 0, 0)], ?_, ⟨{1, 2}, by decide, by decide⟩, fun _ => ?_⟩
    · simp only [List.forall_mem_cons]
      exact ⟨by decide, by decide, List.forall_mem_nil _⟩
    · exact ⟨(1, 1, 7), List.mem_cons_self, rfl, by simp⟩
  · change _ ∈ Net.sent _; decide
  · change _ ∈ Net.sent _; decide

/-- The two rounds of `twoRounds` choose by different majorities. -/
theorem emitted2b_agree_twoRounds :
    ∃ (s : Net (Fin 3)) (v w : BitVec 32), (acceptors twoPorts).Reachable s ∧
      s.MajorityEmitted2b 5 1 v ∧ s.MajorityEmitted2b 5 2 w ∧ v = w := by
  have hs := System.Reachable.run (.init rfl) twoRounds_allowed
  have hv : ((acceptors twoPorts).run ⟨fun _ => Acceptor.zero, [], []⟩
      twoRounds).MajorityEmitted2b 5 1 7 := ⟨{0, 1}, by decide, by decide⟩
  have hw : ((acceptors twoPorts).run ⟨fun _ => Acceptor.zero, [], []⟩
      twoRounds).MajorityEmitted2b 5 2 7 := ⟨{1, 2}, by decide, by decide⟩
  exact ⟨_, _, _, hs, hv, hw, emitted2b_agree twoPorts hs (by decide) hv hw⟩

end P4Survey.NetPaxos
