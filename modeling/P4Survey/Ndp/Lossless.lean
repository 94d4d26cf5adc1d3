import P4Survey.Lib.System
import P4Survey.Ndp.PriorityQueue

/-! # A lossless output queue

`LosslessOutputQueue` of `queue_lossless_output.cpp`, and the part of it that
`queue_lossless.cpp` has in the same words: whether the queue may send, whether it
is sending, and the one service event that belongs to it. A failed assertion ends the
simulation, here with `none`.
-/

namespace P4Survey.Ndp

open Lib

/-- `_state_send` and `_sending`. `pending` is the number of services whose end is
scheduled and `begun` the number of transmissions so far; the code reads neither. -/
structure Transmitter where
  stateSend : SendState
  sending : Bool
  pending : ℕ
  begun : ℕ
  deriving DecidableEq

namespace Transmitter

def initial : Transmitter := ⟨.ready, false, 0, 0⟩

/-- `waiting` is the size of `_enqueued`, here and below. -/
def beginService (t : Transmitter) (waiting : ℕ) : Option Transmitter :=
  if t.stateSend = .ready ∧ t.sending = false ∧ waiting ≠ 0 then
    some { t with sending := true, pending := t.pending + 1, begun := t.begun + 1 }
  else none

/-- A PAUSE frame: with a sleep time the queue is to be quiet, without one it may send. -/
def receivePause (t : Transmitter) (waiting sleepTime : ℕ) : Option Transmitter :=
  if 0 < sleepTime then
    some { t with stateSend := if t.sending then .pauseReceived else .paused }
  else if 0 < waiting ∧ t.sending = false then
    beginService { t with stateSend := .ready } waiting
  else some { t with stateSend := .ready }

/-- The last step of an arrival. `waiting` counts the packet that came. -/
def arrive (t : Transmitter) (queueWasEmpty : Bool) (waiting : ℕ) : Option Transmitter :=
  if queueWasEmpty ∧ t.stateSend = .ready then
    if waiting = 1 then t.beginService waiting else none
  else some t

/-- The last steps of a completion, after the packet has been sent on. -/
def settle (t : Transmitter) : Transmitter :=
  { t with
    sending := false
    stateSend := if t.stateSend = .pauseReceived then .paused else t.stateSend }

def resume (t : Transmitter) (waiting : ℕ) : Option Transmitter :=
  if waiting ≠ 0 ∧ t.stateSend = .ready then t.beginService waiting else some t

/-- One service event while a packet is sent and none else, and a queue that may send and
holds something is sending. -/
structure Inv (t : Transmitter) (waiting : ℕ) : Prop where
  pending : t.pending = if t.sending then 1 else 0
  nonempty : t.sending = true → waiting ≠ 0
  busy : t.stateSend = .ready → waiting ≠ 0 → t.sending = true

/-- During a completion: the event has fired and `_sending` is still set. -/
structure Completing (t : Transmitter) : Prop where
  pending : t.pending = 0
  sending : t.sending = true

variable {t t' : Transmitter} {waiting : ℕ}

/-- What may be done to a transmitter that was ready with nothing scheduled: begin exactly
if something waits. -/
theorem beginService_eq (hready : t.stateSend = .ready) (hsend : t.sending = false)
    (hw : waiting ≠ 0) :
    t.beginService waiting =
      some { t with sending := true, pending := t.pending + 1, begun := t.begun + 1 } :=
  if_pos ⟨hready, hsend, hw⟩

theorem Inv.initial : Inv initial 0 := by
  constructor
  · rfl
  · intro h
    cases h
  · intro _ hw
    exact absurd rfl hw

theorem Inv.begun (hpending : t.pending = 0) (hw : waiting ≠ 0) :
    Inv { t with sending := true, pending := t.pending + 1, begun := t.begun + 1 } waiting := by
  constructor
  · change t.pending + 1 = 1
    rw [hpending]
  · intro _
    exact hw
  · intro _ _
    rfl

theorem Inv.pending_eq_zero (h : Inv t waiting) (hsend : t.sending = false) : t.pending = 0 := by
  rw [h.pending, hsend]
  rfl

/-- A frame never fails; it sets whether the queue may send, and a transmission begins only
when it may. -/
theorem Inv.receivePause (h : Inv t waiting) (sleepTime : ℕ) :
    ∃ t', t.receivePause waiting sleepTime = some t' ∧ Inv t' waiting ∧
      (t'.stateSend = .ready ↔ sleepTime = 0) ∧ (t'.begun = t.begun ∨ t'.stateSend = .ready) := by
  rw [Transmitter.receivePause]
  by_cases hsleep : 0 < sleepTime
  · rw [if_pos hsleep]
    have hstate : (if t.sending then SendState.pauseReceived else .paused) ≠ .ready := by
      cases t.sending <;> simp
    refine ⟨_, rfl, ⟨h.pending, h.nonempty, fun hready => absurd hready hstate⟩, ?_, .inl rfl⟩
    exact ⟨fun hready => absurd hready hstate, fun hzero => absurd hzero hsleep.ne'⟩
  · rw [if_neg hsleep]
    have hzero : sleepTime = 0 := Nat.eq_zero_of_not_pos hsleep
    by_cases hidle : 0 < waiting ∧ t.sending = false
    · rw [if_pos hidle,
        beginService_eq (t := { t with stateSend := .ready }) rfl hidle.2 hidle.1.ne']
      exact ⟨_, rfl, Inv.begun (h.pending_eq_zero hidle.2) hidle.1.ne', by simp [hzero], .inr rfl⟩
    · rw [if_neg hidle]
      refine ⟨_, rfl, ⟨h.pending, h.nonempty, fun _ hw => ?_⟩, by simp [hzero], .inl rfl⟩
      cases hsend : t.sending with
      | true => rfl
      | false => exact absurd ⟨Nat.pos_of_ne_zero hw, hsend⟩ hidle

/-- While a packet is passed on a frame begins nothing. -/
theorem Completing.receivePause (h : Completing t) (waiting sleepTime : ℕ) :
    ∃ t', t.receivePause waiting sleepTime = some t' ∧ Completing t' ∧
      (t'.stateSend = .ready ↔ sleepTime = 0) ∧ t'.begun = t.begun := by
  rw [Transmitter.receivePause]
  by_cases hsleep : 0 < sleepTime
  · rw [if_pos hsleep]
    refine ⟨_, rfl, ⟨h.pending, h.sending⟩, ?_, rfl⟩
    simp [h.sending, hsleep.ne']
  · have hbusy : ¬(0 < waiting ∧ t.sending = false) := by simp [h.sending]
    rw [if_neg hsleep, if_neg hbusy]
    exact ⟨_, rfl, ⟨h.pending, h.sending⟩, by simp [Nat.eq_zero_of_not_pos hsleep], rfl⟩

/-- While a service is scheduled there is something to send. -/
theorem Inv.completing (h : Inv t waiting) (hpending : 0 < t.pending) :
    waiting ≠ 0 ∧ Completing { t with pending := t.pending - 1 } := by
  have hsend : t.sending = true := by
    by_contra hsend
    have hzero := h.pending_eq_zero (Bool.not_eq_true _ ▸ hsend)
    omega
  have hone := h.pending
  rw [hsend] at hone
  exact ⟨h.nonempty hsend, Nat.sub_eq_zero_of_le hone.le, hsend⟩

/-- A packet that comes begins a transmission if nothing waited and the queue may send. -/
theorem Inv.arrive (h : Inv t waiting) :
    ∃ t', t.arrive (waiting == 0) (waiting + 1) = some t' ∧ Inv t' (waiting + 1) ∧
      t'.stateSend = t.stateSend ∧ (t'.begun = t.begun ∨ t'.stateSend = .ready) := by
  rw [Transmitter.arrive]
  by_cases hidle : (waiting == 0) = true ∧ t.stateSend = .ready
  · have hzero : waiting = 0 := beq_iff_eq.mp hidle.1
    have hsend : t.sending = false := by
      cases hsend : t.sending with
      | true => exact absurd hzero (h.nonempty hsend)
      | false => rfl
    rw [if_pos hidle, if_pos (by rw [hzero]), beginService_eq hidle.2 hsend (by omega)]
    exact ⟨_, rfl, Inv.begun (h.pending_eq_zero hsend) (by omega), rfl, .inr hidle.2⟩
  · rw [if_neg hidle]
    refine ⟨t, rfl, ⟨h.pending, fun _ => by omega, fun hready _ => ?_⟩, rfl, .inl rfl⟩
    refine h.busy hready fun hzero => ?_
    exact hidle ⟨beq_iff_eq.mpr hzero, hready⟩

/-- The end of a completion goes on with the next packet, if there is one and the queue may
send. -/
theorem Completing.resume (h : Completing t) (waiting : ℕ) :
    ∃ t', t.settle.resume waiting = some t' ∧ Inv t' waiting ∧
      (t'.stateSend = .ready ↔ t.stateSend = .ready) ∧
      (t'.begun = t.begun ∨ t'.stateSend = .ready) := by
  have hstate : t.settle.stateSend = .ready ↔ t.stateSend = .ready := by
    cases hs : t.stateSend <;> simp [settle, hs]
  have hpending : t.settle.pending = 0 := h.pending
  rw [Transmitter.resume]
  by_cases hnext : waiting ≠ 0 ∧ t.settle.stateSend = .ready
  · rw [if_pos hnext, beginService_eq hnext.2 rfl hnext.1]
    exact ⟨_, rfl, Inv.begun hpending hnext.1, hstate, .inr hnext.2⟩
  · rw [if_neg hnext]
    refine ⟨_, rfl, ⟨hpending, ?_, fun hready hw => absurd ⟨hw, hready⟩ hnext⟩, hstate, .inl rfl⟩
    intro hsend
    cases hsend

end Transmitter

/-- What a lossless output queue reads of a data packet. `ref` says which packet it is. -/
structure DataPacket where
  ref : ℕ
  size : ℕ
  flags : BitVec 32
  deriving DecidableEq

/-- `ECN_CE` -/
def ecnCE : BitVec 32 := 1

/-- An `EthPausePacket` or a packet of any other type. -/
inductive LinkFrame where
  | pause (sleepTime : ℕ)
  | data (p : DataPacket)
  deriving DecidableEq

/-- New packets and their virtual queues are at the front of their lists. `notified` has the
packets that were reported to a virtual queue, and which one; the code does not read it. -/
structure LosslessOutputQueue where
  enqueued : List DataPacket
  vq : List ℕ
  queuesize : ℤ
  transmitter : Transmitter
  ecnEnabled : Bool
  k : ℤ
  notified : List (DataPacket × ℕ)
  deriving DecidableEq

namespace LosslessOutputQueue

def initial (ecn : Bool) (k : ℤ) : LosslessOutputQueue :=
  ⟨[], [], 0, .initial, ecn, k, []⟩

/-- The virtual queues are numbers, `none` is `NULL`. -/
def receivePacket (q : LosslessOutputQueue) (pkt : LinkFrame) (prev : Option ℕ) :
    Option LosslessOutputQueue :=
  match pkt with
  | .pause sleepTime =>
    (q.transmitter.receivePause q.enqueued.length sleepTime).map fun t => { q with transmitter := t }
  | .data p =>
    match prev with
    | none => none
    | some v =>
      (q.transmitter.arrive q.enqueued.isEmpty (q.enqueued.length + 1)).map fun t =>
        { q with
          enqueued := p :: q.enqueued
          vq := v :: q.vq
          queuesize := q.queuesize + p.size
          transmitter := t }

/-- The mark of a packet on its way out. -/
def mark (q : LosslessOutputQueue) (p : DataPacket) : DataPacket :=
  if q.ecnEnabled ∧ q.queuesize > q.k then { p with flags := p.flags ||| ecnCE } else p

/-- The packet leaves the queue and its virtual queue hears of it. -/
def depart (q : LosslessOutputQueue) (p : DataPacket) (v : ℕ) : LosslessOutputQueue :=
  { q with
    enqueued := q.enqueued.dropLast
    vq := q.vq.dropLast
    queuesize := q.queuesize - p.size
    notified := q.notified ++ [(q.mark p, v)] }

/-- The PAUSE frames that come back while the packet is reported and sent on. -/
def receiveFrames (waiting : ℕ) (t : Transmitter) : List ℕ → Option Transmitter
  | [] => some t
  | sleepTime :: frames =>
    (t.receivePause waiting sleepTime).bind fun t' => receiveFrames waiting t' frames

/-- `frames` are the sleep times of the frames that come back before the packet is gone. -/
def completeService (q : LosslessOutputQueue) (frames : List ℕ) : Option LosslessOutputQueue :=
  match q.enqueued.getLast?, q.vq.getLast? with
  | some p, some v =>
    let q := q.depart p v
    ((receiveFrames q.enqueued.length q.transmitter frames).bind fun t =>
      t.settle.resume q.enqueued.length).map fun t => { q with transmitter := t }
  | _, _ => none

/-- The scheduled end of a service. -/
def doNextEvent (q : LosslessOutputQueue) (frames : List ℕ) : Option LosslessOutputQueue :=
  let t := q.transmitter
  completeService { q with transmitter := { t with pending := t.pending - 1 } } frames

inductive Event where
  | receive (pkt : LinkFrame) (prev : Option ℕ)
  | complete (frames : List ℕ)
  deriving DecidableEq

def step (q : LosslessOutputQueue) : Event → Option LosslessOutputQueue
  | .receive pkt prev => q.receivePacket pkt prev
  | .complete frames => q.doNextEvent frames

/-- Frames come at any time, data from a virtual queue, and a service completes when its end
was scheduled. -/
def system (ecn : Bool) (k : ℤ) : System (Option LosslessOutputQueue) Event where
  init s := s = some (initial ecn k)
  enabled
    | _, .receive (.pause _) _ => True
    | _, .receive (.data _) prev => prev ≠ none
    | s, .complete _ => ∀ q ∈ s, 0 < q.transmitter.pending
  next s a := s.bind fun q => q.step a

instance decidableEnabled (ecn : Bool) (k : ℤ) (s : Option LosslessOutputQueue) :
    (a : Event) → Decidable ((system ecn k).enabled s a)
  | .receive (.pause _) _ => isTrue trivial
  | .receive (.data _) prev => inferInstanceAs (Decidable (prev ≠ none))
  | .complete _ => inferInstanceAs (Decidable (∀ q ∈ s, 0 < q.transmitter.pending))

/-- The sleep times that an event brings. -/
def Event.frames : Event → List ℕ
  | .receive (.pause sleepTime) _ => [sleepTime]
  | .receive (.data _) _ => []
  | .complete frames => frames

/-- The packet that an event brings, and from where. -/
def Event.arrivals : Event → List (ℕ × ℕ)
  | .receive (.data p) (some v) => [(p.ref, v)]
  | _ => []

/-- The last frame was not a PAUSE. -/
def MaySend (frames : List ℕ) : Prop := ∀ sleepTime ∈ frames.getLast?, sleepTime = 0

/-- The packets in the queue with their virtual queues, the oldest first. -/
def waiting (q : LosslessOutputQueue) : List (ℕ × ℕ) :=
  ((q.enqueued.map DataPacket.ref).zip q.vq).reverse

theorem maySend_concat (frames : List ℕ) (sleepTime : ℕ) :
    MaySend (frames ++ [sleepTime]) ↔ sleepTime = 0 := by
  simp [MaySend]

/-- What a run keeps: the transmitter is right for the number of packets, it may send exactly
if the last frame allows it, and the packets that were reported and those that wait are those
that came, each with its virtual queue. -/
structure Follows (events : List Event) (q : LosslessOutputQueue) : Prop where
  transmitter : q.transmitter.Inv q.enqueued.length
  aligned : q.vq.length = q.enqueued.length
  ready : q.transmitter.stateSend = .ready ↔ MaySend (events.flatMap Event.frames)
  accounts : q.notified.map (fun n => (n.1.ref, n.2)) ++ q.waiting = events.flatMap Event.arrivals

theorem receiveFrames_eq (waiting : ℕ) {t : Transmitter} (h : t.Completing) {frames : List ℕ}
    (hready : t.stateSend = .ready ↔ MaySend frames) (more : List ℕ) :
    ∃ t', receiveFrames waiting t more = some t' ∧ t'.Completing ∧
      (t'.stateSend = .ready ↔ MaySend (frames ++ more)) ∧ t'.begun = t.begun := by
  induction more generalizing t frames with
  | nil =>
    rw [List.append_nil]
    exact ⟨t, rfl, h, hready, rfl⟩
  | cons sleepTime more ih =>
    obtain ⟨t', ht', hc, hstate, hbegun⟩ := h.receivePause waiting sleepTime
    obtain ⟨t'', ht'', hc', hready', hbegun'⟩ :=
      ih hc (hstate.trans (maySend_concat frames sleepTime).symm)
    rw [receiveFrames, ht', Option.bind_some]
    rw [List.append_assoc] at hready'
    exact ⟨t'', ht'', hc', hready', hbegun'.trans hbegun⟩

variable {events : List Event} {q : LosslessOutputQueue}

theorem waiting_push (q : LosslessOutputQueue) (p : DataPacket) (v : ℕ) :
    waiting { q with enqueued := p :: q.enqueued, vq := v :: q.vq } = q.waiting ++ [(p.ref, v)] := by
  simp [waiting]

/-- The oldest packet and the oldest virtual queue belong together. -/
theorem waiting_depart (haligned : q.vq.length = q.enqueued.length) {p : DataPacket} {v : ℕ}
    (hp : q.enqueued.getLast? = some p) (hv : q.vq.getLast? = some v) :
    q.waiting = (p.ref, v) :: (q.depart p v).waiting := by
  have henq := List.dropLast_append_getLast? p hp
  have hvq := List.dropLast_append_getLast? v hv
  have hlen : (q.enqueued.dropLast.map DataPacket.ref).length = q.vq.dropLast.length := by
    simp [haligned]
  change ((q.enqueued.map DataPacket.ref).zip q.vq).reverse = _ ::
    ((q.enqueued.dropLast.map DataPacket.ref).zip q.vq.dropLast).reverse
  conv_lhs => rw [← henq, ← hvq, List.map_append, List.zip_append hlen]
  simp

theorem mark_ref (q : LosslessOutputQueue) (p : DataPacket) : (q.mark p).ref = p.ref := by
  rw [mark]
  split_ifs <;> rfl

theorem Follows.initial (ecn : Bool) (k : ℤ) : Follows [] (initial ecn k) := by
  constructor
  · exact Transmitter.Inv.initial
  · rfl
  · simp [LosslessOutputQueue.initial, Transmitter.initial, MaySend]
  · rfl

/-- A frame leaves the packets as they are. -/
theorem Follows.receivePause (h : Follows events q) (sleepTime : ℕ) (prev : Option ℕ) :
    ∃ q', q.receivePacket (.pause sleepTime) prev = some q' ∧
      Follows (events ++ [.receive (.pause sleepTime) prev]) q' ∧
      (q'.transmitter.begun = q.transmitter.begun ∨ q'.transmitter.stateSend = .ready) := by
  obtain ⟨t, ht, hinv, hstate, hbegun⟩ := h.transmitter.receivePause sleepTime
  refine ⟨{ q with transmitter := t }, ?_, ⟨hinv, h.aligned, ?_, ?_⟩, hbegun⟩
  · rw [receivePacket, ht]
    rfl
  · rw [List.flatMap_append]
    exact hstate.trans (maySend_concat _ sleepTime).symm
  · rw [List.flatMap_append]
    exact h.accounts.trans (List.append_nil _).symm

theorem Follows.receiveData (h : Follows events q) (p : DataPacket) (v : ℕ) :
    ∃ q', q.receivePacket (.data p) (some v) = some q' ∧
      Follows (events ++ [.receive (.data p) (some v)]) q' ∧
      (q'.transmitter.begun = q.transmitter.begun ∨ q'.transmitter.stateSend = .ready) := by
  obtain ⟨t, ht, hinv, hstate, hbegun⟩ := h.transmitter.arrive
  have hempty : q.enqueued.isEmpty = (q.enqueued.length == 0) := by
    cases q.enqueued <;> rfl
  refine ⟨_, by rw [receivePacket, hempty, ht]; rfl, ⟨hinv, ?_, ?_, ?_⟩, hbegun⟩
  · simp [h.aligned]
  · rw [List.flatMap_append]
    refine (hstate ▸ h.ready).trans ?_
    exact (congrArg MaySend (List.append_nil _)).symm ▸ Iff.rfl
  · rw [List.flatMap_append, ← h.accounts]
    change _ ++ waiting { q with enqueued := p :: q.enqueued, vq := v :: q.vq } = _
    rw [waiting_push, ← List.append_assoc]
    rfl

/-- The packet that is being sent, and its virtual queue. -/
theorem Follows.completing (h : Follows events q) (hpending : 0 < q.transmitter.pending) :
    ∃ p v, q.enqueued.getLast? = some p ∧ q.vq.getLast? = some v ∧
      Transmitter.Completing { q.transmitter with pending := q.transmitter.pending - 1 } := by
  obtain ⟨hlen, hc⟩ := h.transmitter.completing hpending
  have hnil : q.enqueued ≠ [] := fun hnil => hlen (by rw [hnil]; rfl)
  have hnil' : q.vq ≠ [] := fun hnil' => hlen (by rw [← h.aligned, hnil']; rfl)
  exact ⟨_, _, List.getLast?_eq_some_getLast hnil, List.getLast?_eq_some_getLast hnil', hc⟩

theorem Follows.complete (h : Follows events q) (hpending : 0 < q.transmitter.pending)
    (frames : List ℕ) :
    ∃ q', q.doNextEvent frames = some q' ∧ Follows (events ++ [.complete frames]) q' ∧
      (q'.transmitter.begun = q.transmitter.begun ∨ q'.transmitter.stateSend = .ready) := by
  obtain ⟨p, v, hp, hv, hc⟩ := h.completing hpending
  obtain ⟨t, ht, hc', hready, hbegun⟩ :=
    receiveFrames_eq q.enqueued.dropLast.length hc h.ready frames
  obtain ⟨t', ht', hinv, hstate, hbegun'⟩ := hc'.resume q.enqueued.dropLast.length
  refine ⟨{ q.depart p v with transmitter := t' }, ?_, ⟨hinv, ?_, ?_, ?_⟩, ?_⟩
  · simp only [doNextEvent, completeService, hp, hv, depart, mark]
    rw [ht, Option.bind_some, ht']
    rfl
  · simp [depart, h.aligned]
  · rw [List.flatMap_append, List.flatMap_singleton]
    exact hstate.trans hready
  · rw [List.flatMap_append, ← h.accounts, waiting_depart h.aligned hp hv]
    change (q.notified ++ [(q.mark p, v)]).map _ ++ (q.depart p v).waiting = _
    simp [mark_ref, Event.arrivals]
  · exact hbegun'.imp (fun heq => heq.trans hbegun) id

/-- Every step: no assertion fails, and a transmission begins only if the queue may send
afterwards. -/
theorem Follows.step (h : Follows events q) {ecn : Bool} {k : ℤ} {a : Event}
    (ha : (system ecn k).enabled (some q) a) :
    ∃ q', q.step a = some q' ∧ Follows (events ++ [a]) q' ∧
      (q'.transmitter.begun = q.transmitter.begun ∨ q'.transmitter.stateSend = .ready) := by
  cases a with
  | complete frames => exact h.complete (ha q rfl) frames
  | receive pkt prev =>
    cases pkt with
    | pause sleepTime => exact h.receivePause sleepTime prev
    | data p =>
      cases prev with
      | none => exact absurd rfl ha
      | some v => exact h.receiveData p v

/-- One service event exactly while `_sending` is set, a queue that may send and holds
packets is sending, the two lists are in step, and each packet that left was reported to the
virtual queue it came from. -/
structure Disciplined (arrivals : List (ℕ × ℕ)) (q : LosslessOutputQueue) : Prop where
  sending : q.transmitter.sending = true ↔ q.transmitter.pending = 1
  pending : q.transmitter.pending ≤ 1
  busy : q.transmitter.stateSend = .ready → q.enqueued ≠ [] → q.transmitter.sending = true
  aligned : q.vq.length = q.enqueued.length
  accounts : q.notified.map (fun n => (n.1.ref, n.2)) ++ q.waiting = arrivals

theorem Follows.disciplined (h : Follows events q) :
    Disciplined (events.flatMap Event.arrivals) q := by
  have hpending := h.transmitter.pending
  constructor
  · cases hsend : q.transmitter.sending <;> simp [hpending, hsend]
  · cases hsend : q.transmitter.sending <;> simp [hpending, hsend]
  · intro hready hnil
    exact h.transmitter.busy hready fun hlen => hnil (List.eq_nil_of_length_eq_zero hlen)
  · exact h.aligned
  · exact h.accounts

theorem follows_run {ecn : Bool} {k : ℤ} {l : List Event}
    (hl : (system ecn k).Allowed (some (initial ecn k)) l) :
    ∃ q, (system ecn k).run (some (initial ecn k)) l = some q ∧ Follows l q := by
  refine hl.history (R := fun l s => ∃ q, s = some q ∧ Follows l q) ?_ ⟨_, rfl, .initial ecn k⟩
  rintro l s a ⟨q, rfl, h⟩ ha
  obtain ⟨q', hq', hfollows, -⟩ := h.step ha
  exact ⟨q', hq', hfollows⟩

/-- No run of a lossless output queue fails an assertion. In each state the service
discipline holds, and a transmission that the last event began was not begun after a
PAUSE. -/
theorem losslessOutputQueue_disciplined (ecn : Bool) (k : ℤ) (l : List Event)
    (hl : (system ecn k).Allowed (some (initial ecn k)) l) :
    ∃ q, (system ecn k).run (some (initial ecn k)) l = some q ∧
      Disciplined (l.flatMap Event.arrivals) q ∧
      ∀ l' a q', l = l' ++ [a] → (system ecn k).run (some (initial ecn k)) l' = some q' →
        q.transmitter.begun ≠ q'.transmitter.begun → MaySend (l.flatMap Event.frames) := by
  obtain ⟨q, hq, hfollows⟩ := follows_run hl
  refine ⟨q, hq, hfollows.disciplined, ?_⟩
  rintro l' a q' rfl hq' hbegun
  rw [System.allowed_append] at hl
  obtain ⟨p, hp, hfollows'⟩ := follows_run hl.1
  obtain rfl := Option.some.inj (hq'.symm.trans hp)
  rw [hp] at hl
  obtain ⟨r, hr, -, hready⟩ := hfollows'.step hl.2.1
  have hlast : (system ecn k).run (some (initial ecn k)) (l' ++ [a]) = some r := by
    rw [System.run_append, hp]
    exact hr
  obtain rfl := Option.some.inj (hq.symm.trans hlast)
  exact hfollows.ready.mp (hready.resolve_left hbegun)

theorem losslessOutputQueue_disciplined_paused :
    ∃ q, (system true 5000).run (some (initial true 5000))
        [.receive (.data ⟨1, 9000, 0⟩) (some 3), .receive (.data ⟨2, 9000, 0⟩) (some 4),
          .receive (.pause 1000) none, .complete [], .receive (.pause 0) none,
          .complete [1000, 0]] = some q ∧
      Disciplined [(1, 3), (2, 4)] q ∧
      ∀ l' a q', [.receive (.data ⟨1, 9000, 0⟩) (some 3), .receive (.data ⟨2, 9000, 0⟩) (some 4),
          .receive (.pause 1000) none, .complete [], .receive (.pause 0) none,
          .complete [1000, 0]] = l' ++ [a] →
        (system true 5000).run (some (initial true 5000)) l' = some q' →
        q.transmitter.begun ≠ q'.transmitter.begun → MaySend [1000, 0, 1000, 0] :=
  losslessOutputQueue_disciplined true 5000 _ (by decide +kernel)

end LosslessOutputQueue

end P4Survey.Ndp
