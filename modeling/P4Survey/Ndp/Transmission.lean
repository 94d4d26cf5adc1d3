import P4Survey.Ndp.CompositePrio

/-! # The packet on the wire

Both composite queues remember which of their queues is in service, not which packet: at the
end of a transmission they send on whatever packet then stands at the head of that queue.
Here is when this is the packet whose transmission was started.
-/

namespace P4Survey.Ndp

open Lib

namespace CompositeQueue

variable {maxsize : ℤ} {size : ℕ} {q q' : CompositeQueue} {p : QueuePacket} {coin : Bool}

/-- With room for two packets the one that came last is not the one in service. -/
theorem held_receivePacket (hmax : 2 * (size : ℤ) ≤ maxsize) (hf : Fits maxsize (· ≤ size) q)
    (hb : q.Busy) (h : q.Held) (hp : p.isHeader = false → p.size ≤ size)
    (hr : q.receivePacket maxsize p coin = some q') : q'.Held := by
  rcases receivePacket_lanes hr with he | ⟨t, ht, hw⟩
  · rw [he]
    exact h
  · refine (h.same ht.same fun r hlast => ?_).wake (hb.toReady.same ht.same ht.lane) hw
    cases hs : q.serv with
    | invalid =>
      rw [hs] at hlast
      exact hlast
    | high =>
      obtain ⟨l, hl⟩ := ht.high
      rw [hs] at hlast
      change t.enqueuedHigh.getLast? = some r
      rw [hl]
      exact List.mem_getLast?_append_of_mem_getLast? hlast
    | low =>
      rw [hs] at hlast
      change t.enqueuedLow.getLast? = some r
      rcases ht.low with ⟨l, hl⟩ | ⟨hroom, hfull, b, low, hlow, hl⟩
      · rw [hl]
        exact List.mem_getLast?_append_of_mem_getLast? hlast
      · have hne : low ≠ [] := by
          rintro rfl
          have hsum := hf.low
          rw [hlow, totalSize_cons, totalSize_nil] at hsum
          have hbsize := (hf.full b (by rw [hlow]; exact List.mem_cons_self)).2
          have hpsize := hp hfull
          omega
        change q.enqueuedLow.getLast? = some r at hlast
        rw [hlow, List.getLast?_cons_of_ne_nil hne] at hlast
        rw [hl, List.getLast?_cons_of_ne_nil hne]
        exact hlast

theorem held_doNextEvent (hb : q.Busy) (hr : q.doNextEvent = some (p, q')) : q'.Held := by
  obtain ⟨t, -, hpending, -, -, ht⟩ := doNextEvent_lanes hr
  exact Lanes.held_resume (hpending.trans hb.tail_pending) ht

variable (maxsize size) in
/-- The queue under whole packets of a limited size and any headers. -/
abbrev boundedSystem : System (Option CompositeQueue) Event :=
  (system maxsize).restrict fun _ a => a.Sized (· ≤ size)

/-- The packet at the head of the queue in service is the one whose transmission was started,
and it is the one that is sent on. -/
def SendsScheduled (q : CompositeQueue) : Prop :=
  ∀ p ∈ q.pending, (q.lane q.serv).getLast? = some p ∧
    ∀ r q', q.doNextEvent = some (r, q') → r = p

theorem sendsScheduled_of_held (h : q.Held) : q.SendsScheduled := by
  intro p hp
  refine ⟨h p hp, fun r q' hr => ?_⟩
  obtain ⟨t, -, -, -, hlast, -⟩ := doNextEvent_lanes hr
  exact Option.some.inj (hlast.symm.trans (h p hp))

theorem held_reachable (hmax : 2 * (size : ℤ) ≤ maxsize) {s : Option CompositeQueue}
    (h : (boundedSystem maxsize size).Reachable s) :
    ∀ q ∈ s, Fits maxsize (· ≤ size) q ∧ q.Busy ∧ q.Held := by
  induction h with
  | init hs =>
    obtain rfl := hs
    intro q hq
    obtain rfl : initial = q := Option.some.inj hq
    exact ⟨.initial (by omega), Lanes.busy_empty, fun p hp => by cases hp⟩
  | @step s a _ ha ih =>
    intro q' hq'
    obtain ⟨q, rfl, hstep⟩ := Option.bind_eq_some_iff.mp hq'
    obtain ⟨hf, hb, hh⟩ := ih q rfl
    refine ⟨hf.step ha.2 hstep, busy_step hb hstep, ?_⟩
    cases a with
    | arrive p coin => exact held_receivePacket hmax hf hb hh ha.2 hstep
    | complete =>
      obtain ⟨p, hp⟩ := step_complete hstep
      exact held_doNextEvent hb hp

end CompositeQueue

namespace CompositePrioQueue

open CompositeQueue (Event)

variable {maxsize : ℤ} {q q' : CompositePrioQueue} {p : QueuePacket} {coin : Bool}

variable (maxsize) in
/-- If an arrival takes the place of a packet while one of the low queue is in service, there
is a packet with a longer path behind the one in service. -/
def SparesHead (q : CompositePrioQueue) : Event → Prop
  | .arrive p coin => q.serv = .low → ∀ prio, Trims maxsize q p coin prio →
      prio < q.maxPathLenQueued → ∃ b ∈ q.enqueuedLow.dropLast, prio < b.pathLen
  | .complete => True

theorem held_receivePacket (hb : q.Busy) (h : q.Held)
    (hspares : q.SparesHead maxsize (.arrive p coin))
    (hr : q.receivePacket maxsize p coin = .ok q') : q'.Held := by
  rcases receivePacket_lanes hr with ⟨-, he⟩ | ⟨t, ht, hw⟩
  · rw [he]
    exact h
  · refine (h.same ht.same fun r hlast => ?_).wake (hb.toReady.same ht.same ht.lane) hw
    cases hs : q.serv with
    | invalid =>
      rw [hs] at hlast
      exact hlast
    | high =>
      obtain ⟨l, hl⟩ := ht.high
      rw [hs] at hlast
      change t.enqueuedHigh.getLast? = some r
      rw [hl]
      exact List.mem_getLast?_append_of_mem_getLast? hlast
    | low =>
      rw [hs] at hlast
      change q.enqueuedLow.getLast? = some r at hlast
      change t.enqueuedLow.getLast? = some r
      rcases ht.low with ⟨-, hl | hl⟩ | ⟨prio, htrims, hlt, -, hl⟩
      · rw [hl]
        exact hlast
      · rw [hl]
        change ([p] ++ q.enqueuedLow).getLast? = some r
        exact List.mem_getLast?_append_of_mem_getLast? hlast
      · obtain ⟨b, hb, hlong⟩ := hspares hs prio htrims hlt
        have herase : q.enqueuedLow.eraseP (fun b => prio < b.pathLen) =
            q.enqueuedLow.dropLast.eraseP (fun b => prio < b.pathLen) ++ [r] := by
          conv_lhs => rw [← List.dropLast_append_getLast? r hlast]
          exact List.eraseP_append_left (by simpa using hlong) _ hb
        rw [hl, herase, ← List.cons_append, List.getLast?_concat]

theorem held_doNextEvent (hb : q.Busy) (hr : q.doNextEvent = .ok (p, q')) : q'.Held := by
  obtain ⟨t, -, hpending, -, -, ht⟩ := doNextEvent_lanes hr
  exact Lanes.held_resume (hpending.trans hb.tail_pending) ht

/-- The arriving packet is not in the low queue already. -/
def New (q : CompositePrioQueue) : Event → Prop
  | .arrive p _ => p ∉ q.enqueuedLow
  | .complete => True

/-- If only the packet in service has a longer path, it is the one that is trimmed. -/
theorem spares_of_held (hb : q.Busy) (h : q.Held) (hnodup : q.enqueuedLow.Nodup)
    (hnew : p ∉ q.enqueuedLow) (hr : q.receivePacket maxsize p coin = .ok q') (h' : q'.Held) :
    q.SparesHead maxsize (.arrive p coin) := by
  intro hserv prio htrims _
  by_contra hnone
  push Not at hnone
  obtain ⟨x, hx⟩ : ∃ x, q.pending = [x] := by
    have hlen := hb.pending
    rw [hserv, if_neg (by decide)] at hlen
    exact List.length_eq_one_iff.mp hlen
  have hlast : q.enqueuedLow.getLast? = some x := by
    have := h x (by rw [hx]; exact List.mem_singleton_self x)
    rwa [hserv] at this
  have hlow : q.enqueuedLow.dropLast ++ [x] = q.enqueuedLow :=
    List.dropLast_append_getLast? x hlast
  rcases receivePacket_lanes hr with ⟨hnot, -⟩ | ⟨t, ht, hw⟩
  · exact hnot prio htrims
  · have hlane : t.enqueuedLow = p :: q.enqueuedLow.dropLast := by
      rcases ht.low with ⟨hnot, -⟩ | ⟨prio', htrims', -, ⟨b, hb, hlong⟩, hl⟩
      · exact absurd htrims (hnot prio)
      · obtain rfl : prio' = prio := htrims'.eq htrims
        have hxlong : prio' < x.pathLen := by
          rw [← hlow, List.mem_append, List.mem_singleton] at hb
          rcases hb with hb | rfl
          · exact absurd hlong (not_lt.mpr (hnone b hb))
          · exact hlong
        rw [hl]
        conv_lhs => rw [← hlow]
        rw [List.eraseP_append_right _ fun b hb => by simpa using hnone b hb]
        simp [hxlong]
    have hserv' : t.serv = .low := ht.same.serv.trans hserv
    have hsame : q'.toLanes = t := by
      rcases Lanes.wake_cases hw with ⟨-, he⟩ | ⟨hs, -⟩
      · exact he
      · rw [hserv'] at hs
        cases hs
    rw [hsame] at h'
    have hlast' := h' x (by rw [ht.same.pending, hx]; exact List.mem_singleton_self x)
    rw [hserv'] at hlast'
    have hmem : x ∈ p :: q.enqueuedLow.dropLast := hlane ▸ List.mem_of_getLast? hlast'
    rcases List.mem_cons.mp hmem with rfl | hmem
    · exact hnew (List.mem_of_getLast? hlast)
    · rw [← hlow] at hnodup
      exact List.disjoint_of_nodup_append hnodup hmem (List.mem_singleton_self x)

theorem nodup_receivePacket (h : q.enqueuedLow.Nodup) (hnew : p ∉ q.enqueuedLow)
    (hr : q.receivePacket maxsize p coin = .ok q') : q'.enqueuedLow.Nodup := by
  rcases receivePacket_lanes hr with ⟨-, he⟩ | ⟨t, ht, hw⟩
  · rw [he]
    exact h
  · rw [(Lanes.wake_lists hw).1]
    rcases ht.low with ⟨-, hl | hl⟩ | ⟨prio, -, -, -, hl⟩
    · rw [hl]
      exact h
    · rw [hl]
      exact List.nodup_cons.mpr ⟨hnew, h⟩
    · rw [hl]
      have hsub : (q.enqueuedLow.eraseP fun b => prio < b.pathLen).Sublist q.enqueuedLow :=
        List.eraseP_sublist
      exact List.nodup_cons.mpr ⟨fun hp => hnew (hsub.mem hp), h.sublist hsub⟩

theorem nodup_doNextEvent (h : q.enqueuedLow.Nodup) (hr : q.doNextEvent = .ok (p, q')) :
    q'.enqueuedLow.Nodup := by
  obtain ⟨t, -, -, -, hsub, ht⟩ := doNextEvent_lanes hr
  rw [(Lanes.resume_lists ht).1]
  exact h.sublist hsub

/-- The packet at the head of the queue in service is the one whose transmission was started,
and it is the one that is sent on. -/
def SendsScheduled (q : CompositePrioQueue) : Prop :=
  ∀ p ∈ q.pending, (q.lane q.serv).getLast? = some p ∧
    ∀ r q', q.doNextEvent = .ok (r, q') → r = p

theorem sendsScheduled_iff_held : q.SendsScheduled ↔ q.Held := by
  refine ⟨fun h p hp => (h p hp).1, fun h p hp => ⟨h p hp, fun r q' hr => ?_⟩⟩
  obtain ⟨t, -, -, hlast, -, -⟩ := doNextEvent_lanes hr
  exact Option.some.inj (hlast.symm.trans (h p hp))

/-- A condition on the state of a queue that has not failed. -/
def Running (P : CompositePrioQueue → Prop) (s : Except Failure CompositePrioQueue) : Prop :=
  ∀ q, s = .ok q → P q

variable (maxsize) in
/-- The queue with any first value of `_max_path_len_seen`. -/
abbrev anySystem : System (Except Failure CompositePrioQueue) Event := system maxsize (· < 2 ^ 32)

variable (maxsize) in
/-- The same for runs that do not fail, in which no packet arrives that is in the low queue. -/
abbrev newSystem : System (Except Failure CompositePrioQueue) Event :=
  (anySystem maxsize).restrict fun s a =>
    Running (fun q => q.New a ∧ ∃ q', q.step maxsize a = .ok q') s

variable (maxsize) in
/-- The same for steps that meet the condition. -/
abbrev sparingSystem : System (Except Failure CompositePrioQueue) Event :=
  (anySystem maxsize).restrict fun s a => Running (SparesHead maxsize · a) s

theorem step_ok {s : Except Failure CompositePrioQueue} {a : Event}
    (h : (anySystem maxsize).next s a = .ok q') : ∃ q, s = .ok q ∧ q.step maxsize a = .ok q' :=
  bind_eq_ok.mp h

theorem step_complete (h : q.step maxsize .complete = .ok q') :
    ∃ p, q.doNextEvent = .ok (p, q') := by
  obtain ⟨⟨p, r⟩, hr, rfl⟩ := map_eq_ok.mp h
  exact ⟨p, hr⟩

theorem held_step {a : Event} (hb : q.Busy) (h : q.Held) (ha : q.SparesHead maxsize a)
    (hstep : q.step maxsize a = .ok q') : q'.Busy ∧ q'.Held := by
  cases a with
  | arrive p coin => exact ⟨busy_receivePacket hb hstep, held_receivePacket hb h ha hstep⟩
  | complete =>
    obtain ⟨p, hp⟩ := step_complete hstep
    exact ⟨busy_doNextEvent hb hp, held_doNextEvent hb hp⟩

theorem nodup_step {a : Event} (h : q.enqueuedLow.Nodup) (ha : q.New a)
    (hstep : q.step maxsize a = .ok q') : q'.enqueuedLow.Nodup := by
  cases a with
  | arrive p coin => exact nodup_receivePacket h ha hstep
  | complete =>
    obtain ⟨p, hp⟩ := step_complete hstep
    exact nodup_doNextEvent h hp

theorem held_reachable {s : Except Failure CompositePrioQueue}
    (h : (sparingSystem maxsize).Reachable s) :
    Running (fun q => q.Busy ∧ q.Held) s := by
  induction h with
  | init hs =>
    obtain ⟨seen, -, rfl⟩ := hs
    rintro q ⟨⟩
    exact ⟨Lanes.busy_empty, fun p hp => by cases hp⟩
  | @step s a _ ha ih =>
    intro q' hq'
    obtain ⟨q, rfl, hstep⟩ := step_ok hq'
    obtain ⟨hb, hh⟩ := ih q rfl
    exact held_step hb hh (ha.2 q rfl) hstep

/-- In a run without repeated packets each step leaves the packet in service alone exactly if
the condition is met. -/
theorem scheduled_iff_spares {seen : ℕ} {l : List Event}
    (hl : (newSystem maxsize).Allowed (.ok (initial seen)) l) :
    (∀ l', l' <+: l → Running SendsScheduled ((newSystem maxsize).run (.ok (initial seen)) l')) ↔
      ((newSystem maxsize).restrict fun s a => Running (SparesHead maxsize · a) s).Allowed
        (.ok (initial seen)) l := by
  refine System.holds_iff_allowed
    (I := Running fun q => (q.Busy ∧ q.Held) ∧ q.enqueuedLow.Nodup) ?_ ?_ ?_ ?_ hl
  · intro s hs q hq
    exact sendsScheduled_iff_held.mpr (hs q hq).1.2
  · intro s a hs ha hspares q' hq'
    obtain ⟨q, rfl, hstep⟩ := step_ok hq'
    obtain ⟨⟨hb, hh⟩, hnodup⟩ := hs q rfl
    exact ⟨held_step hb hh (hspares q rfl) hstep, nodup_step hnodup (ha.2 q rfl).1 hstep⟩
  · rintro s a hs ha hsends q rfl
    obtain ⟨⟨hb, hh⟩, hnodup⟩ := hs q rfl
    cases a with
    | complete => trivial
    | arrive p coin =>
      obtain ⟨hnew, q', hstep⟩ := ha.2 q rfl
      exact spares_of_held hb hh hnodup hnew hstep (sendsScheduled_iff_held.mp (hsends q' hstep))
  · rintro q ⟨⟩
    exact ⟨⟨Lanes.busy_empty, fun p hp => by cases hp⟩, List.nodup_nil⟩

end CompositePrioQueue

open CompositePrioQueue in
/-- `CompositeQueue` with room for two packets sends on the packet it started to transmit.
`CompositePrioQueue` does so in every run in which no arrival finds a longer path only at the
head of the queue in service, and in no other. -/
theorem transmission_kept (maxsize : ℤ) :
    (∀ size : ℕ, 2 * (size : ℤ) ≤ maxsize → ∀ q : CompositeQueue,
        (CompositeQueue.boundedSystem maxsize size).Reachable (some q) → q.SendsScheduled) ∧
      (∀ q : CompositePrioQueue,
        (sparingSystem maxsize).Reachable (.ok q) → q.SendsScheduled) ∧
      ∀ (seen : ℕ) (l : List CompositeQueue.Event), seen < 2 ^ 32 →
        (newSystem maxsize).Allowed (.ok (initial seen)) l →
        (∀ l', l' <+: l →
          Running SendsScheduled ((newSystem maxsize).run (.ok (initial seen)) l')) →
        ((newSystem maxsize).restrict fun s a => Running (SparesHead maxsize · a) s).Allowed
          (.ok (initial seen)) l := by
  refine ⟨?_, ?_, ?_⟩
  · intro size hmax q hq
    exact CompositeQueue.sendsScheduled_of_held (CompositeQueue.held_reachable hmax hq q rfl).2.2
  · intro q hq
    exact sendsScheduled_iff_held.mpr (held_reachable hq q rfl).2
  · intro seen l _ hl hsends
    exact (scheduled_iff_spares hl).mp hsends

/-- The packet in service has the shortest path, and the third packet takes the place of the
second. -/
def labSpared : List CompositeQueue.Event :=
  [.arrive (labRouted 0 1) false, .arrive (labRouted 1 5) false, .arrive (labRouted 2 2) false]

open CompositePrioQueue in
theorem transmission_kept_spared :
    ∃ q, (anySystem 3000).run (.ok (initial 0)) labSpared = .ok q ∧
      q.pending = [labRouted 0 1] ∧ q.SendsScheduled := by
  have hstart : (sparingSystem 3000).Reachable (.ok (initial 0)) := .init ⟨0, by decide, rfl⟩
  have hallowed : (sparingSystem 3000).Allowed (.ok (initial 0)) labSpared := by
    refine ⟨⟨trivial, ?_⟩, ⟨trivial, ?_⟩, ⟨trivial, ?_⟩, trivial⟩
    · rintro q ⟨⟩ ⟨⟩
    · rintro q ⟨⟩ - prio htrims
      exact absurd htrims.room (by decide)
    · rintro q ⟨⟩ - prio htrims -
      obtain ⟨front, ⟨⟩, hprio⟩ := htrims.prio
      obtain rfl : 2 = prio := Option.some.inj hprio
      exact ⟨labRouted 1 5, by decide, by decide⟩
  exact ⟨_, rfl, rfl, (transmission_kept 3000).2.1 _ (hstart.run hallowed)⟩

open CompositePrioQueue in
/-- The packet in service has the longest path. Its transmission goes on while it is trimmed,
and another packet leaves at the end of it. -/
theorem transmitted_packet_trimmed :
    (anySystem 3000).Allowed (.ok (initial 0)) labTrim ∧
      ∃ q q', (anySystem 3000).run (.ok (initial 0)) labTrim = .ok q ∧
        q.pending = [labRouted 0 5] ∧ q.doNextEvent = .ok (labRouted 1 1, q') := by
  refine ⟨by decide +kernel, _, _, rfl, rfl, rfl⟩

end P4Survey.Ndp
