import P4Survey.Lib.System
import P4Survey.Ndp.Lanes

/-! # The queue of a host and its PAUSE frames

`PriorityQueue` of `queue.cpp`: three queues of which the highest that holds anything is
served, and the state of the link as the other end has asked for it with PAUSE frames. A
failed assertion, `abort` or an access outside of an array ends the simulation, here with
`none`.
-/

namespace P4Survey.Ndp

open Lib

/-- What the queue reads of a packet: `retransmitted` of an `NdpPacket`, `sleepTime` of an
`EthPausePacket`. -/
structure LinkPacket where
  type : PacketType
  size : ℕ
  isHeader : Bool
  retransmitted : Bool
  sleepTime : ℕ
  deriving DecidableEq

/-- `queue_priority_t` without `Q_NONE`. -/
inductive Priority where
  | lo | mid | hi
  deriving DecidableEq

/-- The values of `_state_send`. -/
inductive SendState where
  | paused | ready | pauseReceived
  deriving DecidableEq

/-- `pending` is the number of services whose end is scheduled. -/
structure PriorityQueue where
  queue : Priority → List LinkPacket
  queuesize : Priority → ℤ
  servicing : Option Priority
  stateSend : SendState
  pending : ℕ

namespace PriorityQueue

def initial : PriorityQueue := ⟨fun _ => [], fun _ => 0, none, .ready, 0⟩

def totalQueuesize (q : PriorityQueue) : ℤ := q.queuesize .lo + q.queuesize .mid + q.queuesize .hi

def getPriority (p : LinkPacket) : Option Priority :=
  match p.type with
  | .tcpAck | .ndpAck | .ndpNack | .ndpPull | .ndpLiteAck | .ndpLiteRts | .ndpLitePull => some .hi
  | .ndp => if p.isHeader then some .hi else if p.retransmitted then some .mid else some .lo
  | .tcp | .ip | .ndpLite => some .lo
  | .tcpNack | .ethPause => none

/-- The drain time of the oldest packet of a queue is scheduled. -/
def start (q : PriorityQueue) (prio : Priority) : Option PriorityQueue :=
  if q.queue prio = [] then none
  else some { q with pending := q.pending + 1, servicing := some prio }

def beginService (q : PriorityQueue) : Option PriorityQueue :=
  if q.stateSend ≠ .ready then none
  else if 0 < q.queuesize .hi then q.start .hi
  else if 0 < q.queuesize .mid then q.start .mid
  else if 0 < q.queuesize .lo then q.start .lo
  else some q

/-- A packet has been sent on: go on with the next one unless the link is paused. -/
def resume (q : PriorityQueue) : Option PriorityQueue :=
  if 0 < q.totalQueuesize then
    if q.stateSend = .ready then q.beginService else some q
  else some { q with servicing := none }

def completeService (q : PriorityQueue) : Option PriorityQueue :=
  match q.servicing with
  | none => none
  | some prio =>
    match (q.queue prio).getLast? with
    | none => none
    | some p => resume
        { q with
          queue := Function.update q.queue prio (q.queue prio).dropLast
          queuesize := Function.update q.queuesize prio (q.queuesize prio - p.size)
          stateSend := if q.stateSend = .pauseReceived then .paused else q.stateSend }

/-- The scheduled end of a service. -/
def doNextEvent (q : PriorityQueue) : Option PriorityQueue :=
  completeService { q with pending := q.pending - 1 }

/-- A PAUSE frame: with a sleep time the link is to be quiet, without one it may send. -/
def receivePause (q : PriorityQueue) (sleepTime : ℕ) : Option PriorityQueue :=
  if 0 < sleepTime then
    some { q with stateSend := if 0 < q.totalQueuesize then .pauseReceived else .paused }
  else if 0 < q.totalQueuesize then beginService { q with stateSend := .ready }
  else some { q with stateSend := .ready }

def push (q : PriorityQueue) (prio : Priority) (p : LinkPacket) : PriorityQueue :=
  { q with
    queue := Function.update q.queue prio (p :: q.queue prio)
    queuesize := Function.update q.queuesize prio (q.queuesize prio + p.size) }

def queueLength (q : PriorityQueue) : ℕ :=
  (q.queue .lo).length + (q.queue .mid).length + (q.queue .hi).length

def receivePacket (q : PriorityQueue) (p : LinkPacket) : Option PriorityQueue :=
  if p.type = .ethPause then q.receivePause p.sleepTime
  else match getPriority p with
    | none => none
    | some prio =>
      if q.totalQueuesize = 0 ∧ q.stateSend = .ready then
        if (q.push prio p).queueLength = 1 then (q.push prio p).beginService else none
      else some (q.push prio p)

inductive Event where
  | arrive (p : LinkPacket)
  | complete
  deriving DecidableEq

def step (q : PriorityQueue) : Event → Option PriorityQueue
  | .arrive p => q.receivePacket p
  | .complete => q.doNextEvent

/-- Any arrivals; a service completes when its end was scheduled. -/
def system : System (Option PriorityQueue) Event where
  init s := s = some initial
  enabled
    | none, _ => False
    | some _, .arrive _ => True
    | some q, .complete => 0 < q.pending
  next s a := s.bind fun q => q.step a

instance decidableEnabled : (s : Option PriorityQueue) → (a : Event) →
    Decidable (system.enabled s a)
  | none, _ => isFalse id
  | some _, .arrive _ => isTrue trivial
  | some q, .complete => inferInstanceAs (Decidable (0 < q.pending))

/-- At most one service is scheduled, and its end finds a packet and a priority. -/
structure Served (q : PriorityQueue) : Prop where
  pending : q.pending ≤ 1
  completes : 0 < q.pending → q.servicing ≠ none ∧ ∃ prio, q.queue prio ≠ []

/-- A frame that allows to send comes only while nothing is in service. -/
def ResumesIdle (q : PriorityQueue) : Event → Prop
  | .arrive p => p.type = .ethPause → p.sleepTime = 0 → q.pending = 0
  | .complete => True

instance decidableResumesIdle (q : PriorityQueue) : (a : Event) → Decidable (q.ResumesIdle a)
  | .arrive p => inferInstanceAs (Decidable (p.type = .ethPause → p.sleepTime = 0 → q.pending = 0))
  | .complete => isTrue trivial

variable {q q' : PriorityQueue} {p : LinkPacket} {prio : Priority}

/-- The bytes of the packets of a queue. -/
def bytes (l : List LinkPacket) : ℤ := (l.map fun p => (p.size : ℤ)).sum

theorem bytes_nonneg (l : List LinkPacket) : 0 ≤ bytes l := by
  induction l with
  | nil => exact le_rfl
  | cons p l ih =>
    rw [bytes, List.map_cons, List.sum_cons]
    exact add_nonneg (Int.natCast_nonneg _) ih

theorem bytes_concat (l : List LinkPacket) (p : LinkPacket) : bytes (l ++ [p]) = bytes l + p.size := by
  simp [bytes]

/-- The sizes are right, a service that is scheduled has a packet, and a queue that may send
and has something to send is in service. -/
structure Inv (q : PriorityQueue) : Prop where
  sizes : ∀ prio, q.queuesize prio = bytes (q.queue prio)
  pending : q.pending = 0 ∨
    q.pending = 1 ∧ ∃ prio, q.servicing = some prio ∧ 0 < q.queuesize prio
  idle : q.pending = 0 → q.stateSend = .ready → q.totalQueuesize = 0

theorem start_eq (h : q.start prio = some q') :
    q' = { q with pending := q.pending + 1, servicing := some prio } := by
  unfold start at h
  split_ifs at h
  exact (Option.some.inj h).symm

/-- All that `beginService` does. -/
theorem beginService_cases (h : q.beginService = some q') :
    (∃ prio, 0 < q.queuesize prio ∧
        q' = { q with pending := q.pending + 1, servicing := some prio }) ∨
      (∀ prio, q.queuesize prio ≤ 0) ∧ q' = q := by
  unfold beginService at h
  split_ifs at h with hstate hhi hmid hlo
  · exact .inl ⟨.hi, hhi, start_eq h⟩
  · exact .inl ⟨.mid, hmid, start_eq h⟩
  · exact .inl ⟨.lo, hlo, start_eq h⟩
  · refine .inr ⟨fun prio => ?_, (Option.some.inj h).symm⟩
    cases prio with
    | lo => exact not_lt.mp hlo
    | mid => exact not_lt.mp hmid
    | hi => exact not_lt.mp hhi

theorem queuesize_nonneg (hsizes : ∀ prio, q.queuesize prio = bytes (q.queue prio))
    (prio : Priority) : 0 ≤ q.queuesize prio :=
  hsizes prio ▸ bytes_nonneg (q.queue prio)

theorem totalQueuesize_nonneg (hsizes : ∀ prio, q.queuesize prio = bytes (q.queue prio)) :
    0 ≤ q.totalQueuesize := by
  have hlo := queuesize_nonneg hsizes .lo
  have hmid := queuesize_nonneg hsizes .mid
  have hhi := queuesize_nonneg hsizes .hi
  rw [totalQueuesize]
  omega

theorem queuesize_le_total (hsizes : ∀ prio, q.queuesize prio = bytes (q.queue prio))
    (prio : Priority) : q.queuesize prio ≤ q.totalQueuesize := by
  have hlo := queuesize_nonneg hsizes .lo
  have hmid := queuesize_nonneg hsizes .mid
  have hhi := queuesize_nonneg hsizes .hi
  rw [totalQueuesize]
  cases prio <;> omega

/-- The same without a failed access: every queue with bytes has a packet. -/
theorem beginService_of_pos (hsizes : ∀ prio, q.queuesize prio = bytes (q.queue prio))
    (hready : q.stateSend = .ready) (hpos : 0 < q.totalQueuesize) :
    ∃ prio, 0 < q.queuesize prio ∧
      q.beginService = some { q with pending := q.pending + 1, servicing := some prio } := by
  have hstart (prio : Priority) (hprio : 0 < q.queuesize prio) :
      q.start prio = some { q with pending := q.pending + 1, servicing := some prio } := by
    refine if_neg fun hnil => ?_
    rw [hsizes, hnil] at hprio
    exact lt_irrefl 0 hprio
  rw [beginService, if_neg (not_not.mpr hready)]
  split_ifs with hhi hmid hlo
  · exact ⟨.hi, hhi, hstart .hi hhi⟩
  · exact ⟨.mid, hmid, hstart .mid hmid⟩
  · exact ⟨.lo, hlo, hstart .lo hlo⟩
  · rw [totalQueuesize] at hpos
    omega

/-- A new packet keeps the sizes right. -/
theorem push_sizes (hsizes : ∀ prio, q.queuesize prio = bytes (q.queue prio)) (at' : Priority)
    (p : LinkPacket) (prio : Priority) :
    (q.push at' p).queuesize prio = bytes ((q.push at' p).queue prio) := by
  by_cases heq : prio = at'
  · subst heq
    simp [push, bytes, hsizes, add_comm]
  · simp [push, heq, hsizes]

theorem le_push (prio at' : Priority) (p : LinkPacket) :
    q.queuesize prio ≤ (q.push at' p).queuesize prio := by
  by_cases heq : prio = at'
  · subst heq
    simp [push]
  · simp [push, heq]

/-- So does taking the oldest packet out. -/
theorem pop_sizes (hsizes : ∀ prio, q.queuesize prio = bytes (q.queue prio)) {out : Priority}
    (hlast : (q.queue out).getLast? = some p) (prio : Priority) :
    Function.update q.queuesize out (q.queuesize out - p.size) prio =
      bytes (Function.update q.queue out (q.queue out).dropLast prio) := by
  by_cases heq : prio = out
  · subst heq
    have hsplit := bytes_concat (q.queue prio).dropLast p
    rw [List.dropLast_append_getLast? p hlast] at hsplit
    simp only [Function.update_self, hsizes]
    omega
  · simp [heq, hsizes]

namespace Inv

theorem initial : Inv initial := ⟨fun _ => rfl, .inl rfl, fun _ _ => rfl⟩

theorem total_pos (h : Inv q) (hp : q.pending ≠ 0) : 0 < q.totalQueuesize := by
  obtain ⟨-, prio, -, hpos⟩ := h.pending.resolve_left hp
  exact hpos.trans_le (queuesize_le_total h.sizes prio)

theorem served (h : Inv q) : Served q := by
  rcases h.pending with h0 | ⟨h1, prio, hserv, hpos⟩
  · exact ⟨by omega, fun hp => by omega⟩
  · refine ⟨h1.le, fun _ => ⟨by rw [hserv]; simp, prio, fun hnil => ?_⟩⟩
    rw [h.sizes, hnil] at hpos
    exact lt_irrefl 0 hpos

/-- A service that starts while none is scheduled. -/
theorem begin (hsizes : ∀ prio, q.queuesize prio = bytes (q.queue prio)) (hp : q.pending = 0)
    (h : q.beginService = some q') : Inv q' := by
  rcases beginService_cases h with ⟨prio, hpos, rfl⟩ | ⟨hle, rfl⟩
  · refine ⟨hsizes, .inr ⟨by rw [hp], prio, rfl, hpos⟩, fun h0 => ?_⟩
    change q.pending + 1 = 0 at h0
    omega
  · refine ⟨hsizes, .inl hp, fun _ _ => ?_⟩
    have hzero (prio : Priority) : q'.queuesize prio = 0 :=
      le_antisymm (hle prio) (queuesize_nonneg hsizes prio)
    simp [totalQueuesize, hzero]

theorem receivePause (h : Inv q) {sleepTime : ℕ} (hidle : sleepTime = 0 → q.pending = 0)
    (hr : q.receivePause sleepTime = some q') : Inv q' := by
  unfold PriorityQueue.receivePause at hr
  by_cases hsleep : 0 < sleepTime
  · rw [if_pos hsleep] at hr
    obtain rfl := Option.some.inj hr
    refine ⟨h.sizes, h.pending, fun _ hready => ?_⟩
    split_ifs at hready
  · rw [if_neg hsleep] at hr
    split_ifs at hr with hpos
    · exact begin (q := { q with stateSend := .ready }) h.sizes (hidle (by omega)) hr
    · obtain rfl := Option.some.inj hr
      exact ⟨h.sizes, h.pending, fun _ _ =>
        le_antisymm (not_lt.mp hpos) (totalQueuesize_nonneg h.sizes)⟩

/-- A packet that finds the queue empty and ready starts the service; else the service that
goes on, or the PAUSE that holds it back, stays as it was. -/
theorem enqueue (h : Inv q) {prio : Priority}
    (hr : (if q.totalQueuesize = 0 ∧ q.stateSend = .ready then
        if (q.push prio p).queueLength = 1 then (q.push prio p).beginService else none
      else some (q.push prio p)) = some q') : Inv q' := by
  split_ifs at hr with hempty hone
  · have hp : q.pending = 0 := by
      by_contra hp
      exact (h.total_pos hp).ne' hempty.1
    exact begin (push_sizes h.sizes prio p) hp hr
  · obtain rfl := Option.some.inj hr
    refine ⟨push_sizes h.sizes prio p, ?_, fun hp hready => ?_⟩
    · rcases h.pending with h0 | ⟨h1, serving, hserv, hpos⟩
      · exact .inl h0
      · exact .inr ⟨h1, serving, hserv, hpos.trans_le (le_push serving prio p)⟩
    · exact absurd ⟨h.idle hp hready, hready⟩ hempty

theorem resume (hsizes : ∀ prio, q.queuesize prio = bytes (q.queue prio)) (hp : q.pending = 0)
    (hr : q.resume = some q') : Inv q' := by
  unfold PriorityQueue.resume at hr
  split_ifs at hr with hpos hready
  · exact begin hsizes hp hr
  · obtain rfl := Option.some.inj hr
    exact ⟨hsizes, .inl hp, fun _ h => absurd h hready⟩
  · obtain rfl := Option.some.inj hr
    exact ⟨hsizes, .inl hp, fun _ _ => le_antisymm (not_lt.mp hpos) (totalQueuesize_nonneg hsizes)⟩

theorem doNextEvent (h : Inv q) (hr : q.doNextEvent = some q') : Inv q' := by
  unfold PriorityQueue.doNextEvent completeService at hr
  cases hserv : q.servicing with
  | none => simp [hserv] at hr
  | some prio =>
    cases hlast : (q.queue prio).getLast? with
    | none => simp [hserv, hlast] at hr
    | some p =>
      simp only [hserv, hlast] at hr
      refine resume (pop_sizes h.sizes hlast) ?_ hr
      change q.pending - 1 = 0
      rcases h.pending with h0 | ⟨h1, -⟩ <;> omega

/-- Only a frame that resumes a busy queue breaks the invariant. -/
theorem step (h : Inv q) {a : Event} (hok : q.ResumesIdle a) (hr : q.step a = some q') :
    Inv q' := by
  cases a with
  | arrive p =>
    change q.receivePacket p = some q' at hr
    unfold receivePacket at hr
    by_cases hpause : p.type = .ethPause
    · rw [if_pos hpause] at hr
      exact h.receivePause (hok hpause) hr
    · rw [if_neg hpause] at hr
      cases hprio : getPriority p with
      | none => simp [hprio] at hr
      | some prio =>
        simp only [hprio] at hr
        exact h.enqueue hr
  | complete => exact h.doNextEvent hr

/-- And it does break it: a second service is scheduled. -/
theorem receivePause_busy (h : Inv q) (hp : q.pending ≠ 0) :
    ∃ q', q.receivePause 0 = some q' ∧ ¬ Served q' := by
  have hpos := h.total_pos hp
  obtain ⟨prio, -, hbegin⟩ :=
    beginService_of_pos (q := { q with stateSend := .ready }) h.sizes rfl hpos
  refine ⟨_, (if_neg (lt_irrefl 0)).trans ((if_pos hpos).trans hbegin), fun hserved => ?_⟩
  have hle : q.pending + 1 ≤ 1 := hserved.pending
  omega

end Inv

/-- At most one service is scheduled in each state of a run, and each that completes finds a
packet and a priority, exactly if no frame that allows to send comes during a service. -/
theorem served_iff_resumesIdle (l : List Event) (hl : system.Allowed (some initial) l) :
    (∀ l', l' <+: l → ∀ q ∈ system.run (some initial) l', Served q) ↔
      (system.restrict fun s a => ∀ q ∈ s, ResumesIdle q a).Allowed (some initial) l := by
  refine System.holds_iff_allowed (I := fun s => ∀ q ∈ s, Inv q)
    (P := fun s => ∀ q ∈ s, Served q) (fun s h q hq => (h q hq).served) ?_ ?_ ?_ hl
  · intro s a h _ hok q' hq'
    obtain ⟨q, rfl, hstep⟩ := Option.bind_eq_some_iff.mp hq'
    exact (h q rfl).step (hok q rfl) hstep
  · rintro s a h - hserved q rfl
    cases a with
    | complete => trivial
    | arrive p =>
      intro hpause hsleep
      by_contra hp
      obtain ⟨q', hr, hnot⟩ := (h q rfl).receivePause_busy hp
      refine hnot (hserved q' ?_)
      change q.receivePacket p = some q'
      rw [receivePacket, if_pos hpause, hsleep, hr]
  · rintro q hq
    obtain rfl := Option.some.inj hq
    exact Inv.initial

def dataPacket : LinkPacket := ⟨.ndp, 9000, false, false, 0⟩

def pauseFrame (sleepTime : ℕ) : LinkPacket := ⟨.ethPause, 64, false, false, sleepTime⟩

theorem served_iff_resumesIdle_paused :
    system.Allowed (some initial)
        [.arrive dataPacket, .arrive (pauseFrame 1000), .complete, .arrive dataPacket,
          .arrive (pauseFrame 0), .complete] ∧
      ∀ l', l' <+: [.arrive dataPacket, .arrive (pauseFrame 1000), .complete, .arrive dataPacket,
        .arrive (pauseFrame 0), .complete] → ∀ q ∈ system.run (some initial) l', Served q :=
  ⟨by decide, (served_iff_resumesIdle _ (by decide)).mpr (by decide)⟩

/-- A queue is paused and resumed while its only packet is in flight: two services are
scheduled, and the second one would complete with no packet and no priority. -/
theorem resumed_in_flight :
    system.Allowed (some initial) [.arrive dataPacket, .arrive (pauseFrame 1000),
        .arrive (pauseFrame 0), .complete, .complete] ∧
      (system.run (some initial) [.arrive dataPacket, .arrive (pauseFrame 1000),
        .arrive (pauseFrame 0)]).map PriorityQueue.pending = some 2 ∧
      (system.run (some initial) [.arrive dataPacket, .arrive (pauseFrame 1000),
        .arrive (pauseFrame 0), .complete]).map (fun q => (q.pending, q.servicing)) =
          some (1, none) ∧
      ∀ prio, (system.run (some initial) [.arrive dataPacket, .arrive (pauseFrame 1000),
        .arrive (pauseFrame 0), .complete]).map (fun q => q.queue prio) = some [] := by
  refine ⟨by decide, by decide, by decide, fun prio => ?_⟩
  cases prio <;> decide

end PriorityQueue

end P4Survey.Ndp
