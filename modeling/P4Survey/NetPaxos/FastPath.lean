import P4Survey.NetPaxos.Agreement
import P4Survey.NetPaxos.Coordinator

/-! # The fast path: one coordinator in front of the acceptors

Client requests pass the coordinator one after the other; behind it the network
may lose, duplicate and reorder packets. Since no two requests get the same
instance number, a 2B of whatever acceptor carries the value of the one request
that was given its instance.
-/

namespace P4Survey.NetPaxos
open Lib

/-- One request and what the coordinator made of it. -/
structure Assignment where
  request : Headers
  answer : Headers
  egressSpec : BitVec 9

/-- The coordinator, its requests in arrival order, and the network behind it. -/
structure FastNet (A : Type*) where
  coord : Coordinator
  assigned : List Assignment
  net : Net A

inductive FastLabel (A : Type*) where
  | request (port : BitVec 9) (h : Headers)
  | deliver (a : A) (port : BitVec 9) (h : Headers)

namespace FastNet

variable {A : Type*}

/-- A request passes the coordinator; its answer joins the network unless dropped. -/
def request (rc : FwdRules) (s : FastNet A) (port : BitVec 9) (h : Headers) : FastNet A :=
  let o := s.coord.ingress rc port h
  { coord := o.regs
    assigned := s.assigned ++ [⟨h, o.hdr, o.egressSpec⟩]
    net := { s.net with
      sent := if o.egressSpec = dropPort then s.net.sent else o.hdr :: s.net.sent } }

end FastNet

/-- At most `2 ^ 32` requests of proposal `p`, numbered from `first`; acceptors in
any state; any delivery behind the coordinator. -/
def fastPath {A : Type*} [DecidableEq A] (rc r : FwdRules) (first : BitVec 32) (p : BitVec 16) :
    System (FastNet A) (FastLabel A) where
  init s := s.coord.nextInst = first ∧ s.assigned = [] ∧ s.net.sent = [] ∧ s.net.log = []
  enabled
    | s, .request port h => h.IsRequest ∧ rc.Connected port ∧ h.paxos.proposal = p ∧
        s.assigned.length < 2 ^ 32
    | s, .deliver _ _ h => h ∈ s.net.sent
  next
    | s, .request port h => s.request rc port h
    | s, .deliver a port h => { s with net := s.net.deliver r a port h }

namespace Assignment

/-- The request left as a 2A for the given instance, with its own proposal and value. -/
def Numbered (x : Assignment) (i : BitVec 32) : Prop :=
  x.answer.IsPhase2a ∧ x.egressSpec ≠ dropPort ∧ x.answer.paxos.inst = i ∧
    x.answer.paxos.proposal = x.request.paxos.proposal ∧
    x.answer.paxos.val = x.request.paxos.val

/-- A packet about the instance this request got, with its proposal and value. -/
def Carries (x : Assignment) (h : Headers) : Prop :=
  (h.paxos.msgtype = 3#16 ∨ h.paxos.msgtype = 4#16) ∧
    x.answer.paxos.inst = h.paxos.inst ∧ x.request.paxos.proposal = h.paxos.proposal ∧
    x.request.paxos.val = h.paxos.val

/-- An acceptor passes on the request it was handed. -/
theorem Carries.ingress {x : Assignment} {h : Headers} (hx : x.Carries h) (r : FwdRules)
    (st : Acceptor) (port : BitVec 9) : x.Carries (st.ingress r port h).hdr := by
  rcases Acceptor.ingress_cases r st port h with ⟨-, hh, -⟩ | ⟨h1, -⟩ | ⟨-, -, -, hh⟩
  · rw [hh]
    exact hx
  · rcases hx.1 with hm | hm
    · exact absurd (h1.2.symm.trans hm) (by decide)
    · exact absurd (h1.2.symm.trans hm) (by decide)
  · rw [hh]
    exact ⟨.inr rfl, hx.2⟩

end Assignment

namespace FastNet

variable {A : Type*}

structure Inv (first : BitVec 32) (s : FastNet A) : Prop where
  next : s.coord.nextInst = first + BitVec.ofNat 32 s.assigned.length
  bound : s.assigned.length ≤ 2 ^ 32
  numbered : ∀ (k : ℕ) (x : Assignment), s.assigned[k]? = some x → x.Numbered (first + BitVec.ofNat 32 k)
  sent : ∀ h ∈ s.net.sent, ∃ x ∈ s.assigned, x.Carries h
  log : ∀ e ∈ s.net.log, ∃ x ∈ s.assigned, x.Carries e.answer

theorem Inv.request {first : BitVec 32} {s : FastNet A} (hs : s.Inv first) {rc : FwdRules}
    {port : BitVec 9} {h : Headers} (hq : h.IsRequest) (hport : rc.Connected port)
    (hlen : s.assigned.length < 2 ^ 32) : (s.request rc port h).Inv first := by
  have hdrop := rc.fwdTbl_ne_drop hport
  have hkeep {g : Headers} (hg : ∃ x ∈ s.assigned, x.Carries g) :
      ∃ x ∈ (s.request rc port h).assigned, x.Carries g := by
    obtain ⟨x, hx, hc⟩ := hg
    exact ⟨x, List.mem_append_left _ hx, hc⟩
  constructor
  · simp only [FastNet.request, Coordinator.ingress_request rc _ port hq,
      Coordinator.increaseSequence_nextInst, hs.next, List.length_append, List.length_singleton,
      BitVec.ofNat_add, BitVec.add_assoc]
  · simpa [FastNet.request] using hlen
  · intro k x hx
    simp only [FastNet.request, Coordinator.ingress_request rc _ port hq] at hx
    by_cases hk : k < s.assigned.length
    · rw [List.getElem?_append_left hk] at hx
      exact hs.numbered k x hx
    · rw [List.getElem?_append_right (Nat.le_of_not_lt hk), List.getElem?_singleton] at hx
      split_ifs at hx with h0
      obtain rfl := Option.some.inj hx
      refine ⟨⟨hq.2.1, rfl⟩, hdrop, ?_, rfl, rfl⟩
      rw [show k = s.assigned.length by omega]
      exact hs.next
  · intro g hg
    simp only [FastNet.request, Coordinator.ingress_request rc _ port hq, hdrop, if_false,
      List.mem_cons] at hg
    rcases hg with rfl | hg
    · refine ⟨_, List.mem_append_right _ (List.mem_singleton_self _), .inl rfl, ?_, rfl, rfl⟩
      rw [Coordinator.ingress_request rc _ port hq]
    · exact hkeep (hs.sent g hg)
  · intro e he
    exact hkeep (hs.log e he)

theorem Inv.deliver [DecidableEq A] {first : BitVec 32} {s : FastNet A} (hs : s.Inv first)
    {r : FwdRules} {a : A} {port : BitVec 9} {h : Headers} (hh : h ∈ s.net.sent) :
    ({ s with net := s.net.deliver r a port h } : FastNet A).Inv first := by
  obtain ⟨x, hx, hc⟩ := hs.sent h hh
  have hans := hc.ingress r (s.net.acceptor a) port
  refine ⟨hs.next, hs.bound, hs.numbered, ?_, ?_⟩
  · intro g hg
    by_cases hd : ((s.net.acceptor a).ingress r port h).egressSpec = dropPort
    · exact hs.sent g (by simpa [Net.deliver, hd] using hg)
    · simp only [Net.deliver, hd, if_false, List.mem_cons] at hg
      rcases hg with rfl | hg
      · exact ⟨x, hx, hans⟩
      · exact hs.sent g hg
  · intro e he
    rcases List.mem_cons.mp he with rfl | he
    · exact ⟨x, hx, hans⟩
    · exact hs.log e he

/-- Two requests that were given the same instance are the same request. -/
theorem Inv.inst_inj {first : BitVec 32} {s : FastNet A} (hs : s.Inv first) {x y : Assignment}
    (hx : x ∈ s.assigned) (hy : y ∈ s.assigned)
    (he : x.answer.paxos.inst = y.answer.paxos.inst) : x = y := by
  obtain ⟨j, hj⟩ := List.mem_iff_getElem?.mp hx
  obtain ⟨k, hk⟩ := List.mem_iff_getElem?.mp hy
  have hj' := (List.getElem?_eq_some_iff.mp hj).1
  have hk' := (List.getElem?_eq_some_iff.mp hk).1
  have hb := hs.bound
  have hjk : first + BitVec.ofNat 32 j = first + BitVec.ofNat 32 k := by
    rw [← (hs.numbered j x hj).2.2.1, ← (hs.numbered k y hk).2.2.1, he]
  have : j = k := by bv_omega
  subst this
  exact Option.some.inj (hj.symm.trans hk)

end FastNet

variable {A : Type*} [DecidableEq A]

theorem fastPath_inv {rc r : FwdRules} {first : BitVec 32} {p : BitVec 16} {s : FastNet A}
    (hs : (fastPath rc r first p).Reachable s) : s.Inv first := by
  refine hs.invariant ?_ ?_
  · rintro s ⟨hn, ha, hsent, hlog⟩
    constructor <;> simp [hn, ha, hsent, hlog]
  · intro s a _ ih he
    cases a with
    | request port h => exact ih.request he.1 he.2.1 he.2.2.2
    | deliver a port h => exact ih.deliver he

/-- The processed packet left the acceptor as a 2B. -/
def Event.Emitted2b (e : Event A) : Prop := e.answer.paxos.msgtype = 4#16 ∧ e.Emitted

instance (e : Event A) : Decidable e.Emitted2b := inferInstanceAs (Decidable (_ ∧ _))

/-- Requests leave as 2A packets with consecutive, distinct instances and their own
values; each 2B carries the value of the request its instance was given to. -/
theorem fastPath_values {rc r : FwdRules} {first : BitVec 32} {p : BitVec 16} {s : FastNet A}
    (hs : (fastPath rc r first p).Reachable s) :
    (∀ (k : ℕ) (x : Assignment), s.assigned[k]? = some x → x.Numbered (first + BitVec.ofNat 32 k)) ∧
    (s.assigned.map fun x => x.answer.paxos.inst).Nodup ∧
    (∀ e ∈ s.net.log, e.Emitted2b → ∃ x ∈ s.assigned,
      x.answer.paxos.inst = e.answer.paxos.inst ∧
      x.request.paxos.proposal = e.answer.paxos.proposal ∧
      x.request.paxos.val = e.answer.paxos.val) ∧
    (∀ e ∈ s.net.log, ∀ e' ∈ s.net.log, e.Emitted2b → e'.Emitted2b →
      e.answer.paxos.inst = e'.answer.paxos.inst →
      e.answer.paxos.proposal = e'.answer.paxos.proposal →
      e.answer.paxos.val = e'.answer.paxos.val) := by
  have hi := fastPath_inv hs
  refine ⟨hi.numbered, ?_, ?_, ?_⟩
  · rw [List.Nodup, List.pairwise_map, List.pairwise_iff_getElem]
    intro j k hj hk hjk he
    have hb := hi.bound
    have hnum (n : ℕ) (hn : n < s.assigned.length) :
        s.assigned[n].answer.paxos.inst = first + BitVec.ofNat 32 n :=
      (hi.numbered n _ (List.getElem?_eq_getElem hn)).2.2.1
    rw [hnum j hj, hnum k hk] at he
    bv_omega
  · intro e he _
    obtain ⟨x, hx, -, hc⟩ := hi.log e he
    exact ⟨x, hx, hc⟩
  · intro e he e' he' _ _ hinst _
    obtain ⟨x, hx, -, hxi, -, hxv⟩ := hi.log e he
    obtain ⟨y, hy, -, hyi, -, hyv⟩ := hi.log e' he'
    have hxy := hi.inst_inj hx hy (by rw [hxi, hyi, hinst])
    rw [← hxv, ← hyv, hxy]

section

local instance twoAcceptors : NeZero 2 := ⟨by decide⟩

/-- Two requests; the 2A of the second overtakes the first at one acceptor. -/
def twoRequests : List (FastLabel (Fin 2)) :=
  let ask (v : BitVec 32) : Headers := ⟨true, default, true, ⟨0, 1, 0, 0, 0, v⟩⟩
  let accept (i v : BitVec 32) : Headers := ⟨true, default, true, ⟨i, 1, 0, 0, 3, v⟩⟩
  [.request 1 (ask 7), .request 1 (ask 9), .deliver 0 1 (accept 1 9), .deliver 0 1 (accept 0 7),
    .deliver 1 1 (accept 0 7)]

end

theorem twoRequests_allowed :
    (fastPath twoPorts twoPorts 0#32 1#16).Allowed
      ⟨Coordinator.zero, [], ⟨fun _ => Acceptor.zero, [], []⟩⟩ twoRequests := by
  refine ⟨⟨by decide, .inl rfl, rfl, by decide⟩, ⟨by decide, .inl rfl, rfl, by decide⟩,
    ?_, ?_, ?_, trivial⟩
  · change _ ∈ Net.sent _; decide
  · change _ ∈ Net.sent _; decide
  · change _ ∈ Net.sent _; decide

/-- After `twoRequests` three 2B packets have left, each with its request's value. -/
theorem fastPath_values_twoRequests :
    ∃ s : FastNet (Fin 2), (fastPath twoPorts twoPorts 0#32 1#16).Reachable s ∧
      s.net.log.length = 3 ∧ (∀ e ∈ s.net.log, e.Emitted2b) ∧
      (∀ e ∈ s.net.log, e.Emitted2b → ∃ x ∈ s.assigned,
        x.answer.paxos.inst = e.answer.paxos.inst ∧
        x.request.paxos.proposal = e.answer.paxos.proposal ∧
        x.request.paxos.val = e.answer.paxos.val) := by
  have hs := System.Reachable.run (.init (by exact ⟨Coordinator.zero_nextInst, rfl, rfl, rfl⟩))
    twoRequests_allowed
  exact ⟨_, hs, rfl, by decide, (fastPath_values hs).2.2.1⟩

end P4Survey.NetPaxos
