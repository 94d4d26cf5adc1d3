import Mathlib.Algebra.BigOperators.Group.Finset.Piecewise
import Mathlib.Algebra.Order.BigOperators.Group.Finset
import P4Survey.Lib.Words
import P4Survey.Ndp.Lossless

/-! # A switch of lossless queues

`LosslessQueue` of `queue_lossless.cpp` and `Switch` of `switch.cpp`: each queue tells
the remote ends of all other ports to stop when it is above its high threshold and to
go on when it is below its low one. The remote ends obey the last frame they received
and deliver at most two packets after a PAUSE.
-/

namespace P4Survey.Ndp

open Lib

/-- Sizes are in bytes. The thresholds are `int`. -/
structure LosslessQueue where
  enqueued : List DataPacket
  queuesize : ℤ
  maxsize : ℤ
  transmitter : Transmitter
  stateRecv : SendState
  lowThreshold : ℤ
  highThreshold : ℤ

namespace LosslessQueue

def create (maxsize : ℤ) : LosslessQueue :=
  ⟨[], 0, maxsize, .initial, .ready, 0, int32 maxsize⟩

/-- The headroom is a product of unsigned 32 bit words. -/
def initThresholds (portCount dataPacketSize : ℕ) (q : LosslessQueue) : Option LosslessQueue :=
  let high := int32 (q.maxsize - (portCount * dataPacketSize * 2 % 2 ^ 32 : ℕ))
  let low := int32 (2 * dataPacketSize)
  if 0 < high ∧ low < high then some { q with lowThreshold := low, highThreshold := high }
  else none

/-- The packet makes the queue tell the senders to stop. -/
def Crosses (q : LosslessQueue) (p : DataPacket) : Prop :=
  q.queuesize + p.size > q.highThreshold ∧ q.stateRecv ≠ .paused

/-- Its departure lets them go on. -/
def Unblocks (q : LosslessQueue) (p : DataPacket) : Prop :=
  q.queuesize - p.size < q.lowThreshold ∧ q.stateRecv = .paused

instance decidableCrosses (q : LosslessQueue) (p : DataPacket) : Decidable (q.Crosses p) :=
  inferInstanceAs (Decidable (_ ∧ _))

instance decidableUnblocks (q : LosslessQueue) (p : DataPacket) : Decidable (q.Unblocks p) :=
  inferInstanceAs (Decidable (_ ∧ _))

/-- With the sleep time of the frames that the switch is to send, if any. -/
def receivePacket (q : LosslessQueue) : LinkFrame → Option (LosslessQueue × Option ℕ)
  | .pause sleepTime =>
    (q.transmitter.receivePause q.enqueued.length sleepTime).map fun t =>
      ({ q with transmitter := t }, none)
  | .data p =>
    (q.transmitter.arrive q.enqueued.isEmpty (q.enqueued.length + 1)).map fun t =>
      ({ q with
          enqueued := p :: q.enqueued
          queuesize := q.queuesize + p.size
          stateRecv := if q.Crosses p then .paused else q.stateRecv
          transmitter := t },
        if q.Crosses p then some 1000 else none)

def completeService (q : LosslessQueue) : Option (LosslessQueue × Option ℕ) :=
  match q.enqueued.getLast? with
  | none => none
  | some p =>
    (q.transmitter.settle.resume q.enqueued.dropLast.length).map fun t =>
      ({ q with
          enqueued := q.enqueued.dropLast
          queuesize := q.queuesize - p.size
          stateRecv := if q.Unblocks p then .ready else q.stateRecv
          transmitter := t },
        if q.Unblocks p then some 0 else none)

/-- The scheduled end of a service. -/
def doNextEvent (q : LosslessQueue) : Option (LosslessQueue × Option ℕ) :=
  let t := q.transmitter
  completeService { q with transmitter := { t with pending := t.pending - 1 } }

variable {q : LosslessQueue} {p : DataPacket}

/-- What a packet does to a queue that serves its packets. -/
theorem receiveData_eq (h : q.transmitter.Inv q.enqueued.length) (p : DataPacket) :
    ∃ t : Transmitter, t.Inv (q.enqueued.length + 1) ∧
      q.receivePacket (.data p) = some ({ q with
          enqueued := p :: q.enqueued
          queuesize := q.queuesize + p.size
          stateRecv := if q.Crosses p then .paused else q.stateRecv
          transmitter := t },
        if q.Crosses p then some 1000 else none) := by
  obtain ⟨t, ht, hserved, -⟩ := h.arrive
  have hempty : q.enqueued.isEmpty = (q.enqueued.length == 0) := by
    cases q.enqueued <;> rfl
  refine ⟨t, hserved, ?_⟩
  rw [receivePacket, hempty, ht]
  rfl

/-- And what the end of a service does. -/
theorem doNextEvent_eq (h : q.transmitter.Inv q.enqueued.length)
    (hpending : 0 < q.transmitter.pending) :
    ∃ (p : DataPacket) (t : Transmitter), q.enqueued.getLast? = some p ∧
      t.Inv q.enqueued.dropLast.length ∧
      q.doNextEvent = some ({ q with
          enqueued := q.enqueued.dropLast
          queuesize := q.queuesize - p.size
          stateRecv := if q.Unblocks p then .ready else q.stateRecv
          transmitter := t },
        if q.Unblocks p then some 0 else none) := by
  obtain ⟨hlen, hc⟩ := h.completing hpending
  obtain ⟨t, ht, hserved, -⟩ := hc.resume q.enqueued.dropLast.length
  have hnil : q.enqueued ≠ [] := fun hnil => hlen (by rw [hnil]; rfl)
  have hlast := List.getLast?_eq_some_getLast hnil
  refine ⟨_, t, hlast, hserved, ?_⟩
  rw [doNextEvent, completeService]
  simp only [hlast, ht, Option.map_some]
  rfl

/-- Where the headroom fits into the buffer, the wrap of the product does no harm: the
threshold is a 32 bit word as well. -/
theorem int32_sub_mod_le {maxsize : ℤ} {headroom : ℕ} (hroom : (headroom : ℤ) ≤ maxsize) :
    int32 (maxsize - (headroom % 2 ^ 32 : ℕ)) ≤ maxsize - headroom := by
  rw [int32_sub_mod]
  exact int32_le (sub_nonneg.mpr hroom)

theorem initThresholds_room {portCount dataPacketSize : ℕ} {maxsize : ℤ}
    (hroom : (dataPacketSize : ℤ) * (2 * portCount : ℕ) ≤ maxsize)
    (h : (create maxsize).initThresholds portCount dataPacketSize = some q) :
    ∃ low high, q = ⟨[], 0, maxsize, .initial, .ready, low, high⟩ ∧
      high + dataPacketSize * (2 * portCount : ℕ) ≤ maxsize ∧ low < high ∧ 0 < high := by
  have hprod : ((portCount * dataPacketSize * 2 : ℕ) : ℤ) = dataPacketSize * (2 * portCount : ℕ) := by
    push_cast
    ring
  have hle := int32_sub_mod_le (hprod.trans_le hroom)
  rw [hprod] at hle
  dsimp only [initThresholds, create] at h
  split_ifs at h with hassert
  exact ⟨_, _, (Option.some.inj h).symm, le_sub_iff_add_le.mp hle, hassert.2, hassert.1⟩

end LosslessQueue

/-- The remote end of a port: what it was told last, and how many packets it may still
deliver after the PAUSE. -/
inductive UpstreamSender where
  | running
  | paused (left : ℕ)
  deriving DecidableEq

namespace UpstreamSender

def left : UpstreamSender → ℕ
  | running => 0
  | paused n => n

def MayDeliver : UpstreamSender → Prop
  | running => True
  | paused n => 0 < n

instance decidableMayDeliver : (s : UpstreamSender) → Decidable s.MayDeliver
  | running => isTrue trivial
  | paused n => inferInstanceAs (Decidable (0 < n))

def deliver : UpstreamSender → UpstreamSender
  | running => running
  | paused n => paused (n - 1)

/-- A PAUSE allows two more packets, the next one does not allow others. -/
def hear (s : UpstreamSender) (sleepTime : ℕ) : UpstreamSender :=
  if 0 < sleepTime then
    match s with
    | running => paused 2
    | paused n => paused n
  else running

variable {s : UpstreamSender}

theorem deliver_ne_running (h : s ≠ running) : s.deliver ≠ running := by
  cases s with
  | running => exact absurd rfl h
  | paused n => simp [deliver]

theorem left_deliver_le (s : UpstreamSender) : s.deliver.left ≤ s.left := by
  cases s with
  | running => exact le_rfl
  | paused n => exact Nat.sub_le n 1

theorem hear_pause (h : s ≠ running) : s.hear 1000 = s := by
  cases s with
  | running => exact absurd rfl h
  | paused n => rfl

theorem hear_ne_running (s : UpstreamSender) {sleepTime : ℕ} (h : 0 < sleepTime) :
    s.hear sleepTime ≠ running := by
  unfold hear
  rw [if_pos h]
  cases s <;> simp

theorem left_hear_le (h : s.left ≤ 2) (sleepTime : ℕ) : (s.hear sleepTime).left ≤ 2 := by
  unfold hear
  split_ifs
  · cases s with
    | running => exact le_rfl
    | paused n => exact h
  · exact Nat.zero_le 2

end UpstreamSender

/-- The queues of a switch by port, and the remote ends of the ports. -/
structure Switch (ι : Type*) where
  queue : ι → LosslessQueue
  sender : ι → UpstreamSender

namespace Switch

variable {ι : Type*} [DecidableEq ι]

/-- A frame for every port but that of the queue which has the problem. -/
def sendPause (problem : ι) (sleepTime : ℕ) (sender : ι → UpstreamSender) : ι → UpstreamSender :=
  fun port => if port = problem then sender port else (sender port).hear sleepTime

/-- A queue after an event, and the frames it asked for. -/
def store (s : Switch ι) (port : ι) (r : LosslessQueue × Option ℕ) : Switch ι where
  queue := Function.update s.queue port r.1
  sender := match r.2 with
    | none => s.sender
    | some sleepTime => sendPause port sleepTime s.sender

/-- A packet that came in on the port `via` goes to the queue of the port `out`; a frame comes
from the remote end of a port; a service ends. -/
inductive Event (ι : Type*) where
  | deliver (via out : ι) (p : DataPacket)
  | pause (port : ι) (sleepTime : ℕ)
  | complete (port : ι)

def step (s : Switch ι) : Event ι → Option (Switch ι)
  | .deliver via out p =>
    ((s.queue out).receivePacket (.data p)).map
      ({ s with sender := Function.update s.sender via (s.sender via).deliver }.store out)
  | .pause port sleepTime => ((s.queue port).receivePacket (.pause sleepTime)).map (s.store port)
  | .complete port => (s.queue port).doNextEvent.map (s.store port)

variable [Fintype ι]

/-- All ports of a switch get their thresholds, or an assertion fails. -/
def configureLossless (dataPacketSize : ℕ) (s : Switch ι) : Option (Switch ι) :=
  if ∀ i, ((s.queue i).initThresholds (Fintype.card ι) dataPacketSize).isSome then
    some { s with
      queue := fun i => ((s.queue i).initThresholds (Fintype.card ι) dataPacketSize).getD (s.queue i) }
  else none

/-- A switch with ports of the given sizes. -/
def create (maxsize : ι → ℤ) : Switch ι := ⟨fun i => .create (maxsize i), fun _ => .running⟩

/-- The remote ends deliver what they may, a service completes when its end was scheduled. -/
def system (dataPacketSize : ℕ) (maxsize : ι → ℤ) : System (Option (Switch ι)) (Event ι) where
  init s := s = (create maxsize).configureLossless dataPacketSize ∧ s ≠ none
  enabled s
    | .deliver via _ p => p.size ≤ dataPacketSize ∧ ∀ t ∈ s, (t.sender via).MayDeliver
    | .pause _ _ => True
    | .complete port => ∀ t ∈ s, 0 < (t.queue port).transmitter.pending
  next s a := s.bind fun s => s.step a

instance decidableEnabled (dataPacketSize : ℕ) (maxsize : ι → ℤ) (s : Option (Switch ι)) :
    (a : Event ι) → Decidable ((system dataPacketSize maxsize).enabled s a)
  | .deliver via _ p => inferInstanceAs
      (Decidable (p.size ≤ dataPacketSize ∧ ∀ t ∈ s, (t.sender via).MayDeliver))
  | .pause _ _ => isTrue trivial
  | .complete port => inferInstanceAs
      (Decidable (∀ t ∈ s, 0 < (t.queue port).transmitter.pending))

/-- No packet goes out where it came in, and no queue lets the senders go on while another one
needs them to be quiet. -/
def Undisturbed (s : Switch ι) : Event ι → Prop
  | .deliver via out _ => via ≠ out
  | .pause _ _ => True
  | .complete port => ∀ p ∈ (s.queue port).enqueued.getLast?, (s.queue port).Unblocks p →
      ∀ i, i ≠ port → (s.queue i).stateRecv ≠ .paused

instance decidableUndisturbed (s : Switch ι) : (a : Event ι) → Decidable (s.Undisturbed a)
  | .deliver via out _ => inferInstanceAs (Decidable (via ≠ out))
  | .pause _ _ => isTrue trivial
  | .complete port => inferInstanceAs
      (Decidable (∀ p ∈ (s.queue port).enqueued.getLast?, (s.queue port).Unblocks p →
        ∀ i, i ≠ port → (s.queue i).stateRecv ≠ .paused))

section Headroom

open Finset

variable {sender : ι → UpstreamSender} {i port via : ι} {q : LosslessQueue} {S : ℕ}

/-- The packets that the senders on the other ports may still deliver. -/
def others (i : ι) (sender : ι → UpstreamSender) : ℕ := ∑ j ∈ univ.erase i, (sender j).left

theorem others_le (hleft : ∀ j, (sender j).left ≤ 2) (i : ι) :
    others i sender + 2 ≤ 2 * Fintype.card ι := by
  have hsum := sum_le_card_nsmul (univ.erase i) (fun j => (sender j).left) 2 fun j _ => hleft j
  have hcard := card_erase_add_one (mem_univ i)
  rw [card_univ] at hcard
  rw [smul_eq_mul] at hsum
  rw [others]
  omega

theorem others_congr {sender' : ι → UpstreamSender}
    (h : ∀ j, j ≠ i → (sender' j).left = (sender j).left) : others i sender' = others i sender :=
  sum_congr rfl fun j hj => h j (ne_of_mem_erase hj)

theorem others_mono {sender' : ι → UpstreamSender}
    (h : ∀ j, (sender' j).left ≤ (sender j).left) : others i sender' ≤ others i sender :=
  sum_le_sum fun j _ => h j

/-- A sender on another port that delivers has one packet less to deliver. -/
theorem others_deliver (hne : via ≠ i) {n : ℕ} (hvia : sender via = .paused (n + 1)) :
    others i (Function.update sender via (.paused n)) + 1 = others i sender := by
  have hmem : via ∈ univ.erase i := mem_erase.mpr ⟨hne, mem_univ via⟩
  have hrest : ∀ j ∈ (univ.erase i).erase via,
      (Function.update sender via (.paused n) j).left = (sender j).left := by
    intro j hj
    rw [Function.update_of_ne (ne_of_mem_erase hj)]
  rw [others, others, ← add_sum_erase _ _ hmem, ← add_sum_erase _ _ hmem, sum_congr rfl hrest,
    Function.update_self, hvia]
  simp only [UpstreamSender.left]
  omega

/-- A queue that has not asked for a PAUSE is not above its threshold. One that has is not
disturbed: all other senders are quiet and what they may still deliver fits. -/
structure Guarded (S : ℕ) (i : ι) (q : LosslessQueue) (sender : ι → UpstreamSender) : Prop where
  room : q.highThreshold + S * (2 * Fintype.card ι : ℕ) ≤ q.maxsize
  order : q.lowThreshold < q.highThreshold
  calm : q.stateRecv ≠ .paused → q.queuesize ≤ q.highThreshold
  quiet : q.stateRecv = .paused → ∀ j, j ≠ i → sender j ≠ .running
  bound : q.stateRecv = .paused →
    q.queuesize + S * (others i sender + 1 : ℕ) ≤ q.highThreshold + S * (2 * Fintype.card ι : ℕ)

namespace Guarded

theorem queuesize_le (h : Guarded S i q sender) : q.queuesize ≤ q.maxsize := by
  by_cases hrecv : q.stateRecv = .paused
  · have hbound := h.bound hrecv
    have hroom := h.room
    have hleft : (0 : ℤ) ≤ S * (others i sender + 1 : ℕ) := by positivity
    omega
  · have hcalm := h.calm hrecv
    have hroom := h.room
    have hhead : (0 : ℤ) ≤ S * (2 * Fintype.card ι : ℕ) := by positivity
    omega

/-- What the senders do is of no concern to a queue that has not paused them. -/
theorem of_calm (h : Guarded S i q sender) (hrecv : q.stateRecv ≠ .paused)
    (sender' : ι → UpstreamSender) : Guarded S i q sender' :=
  ⟨h.room, h.order, h.calm, fun hp => absurd hp hrecv, fun hp => absurd hp hrecv⟩

/-- Senders that were quiet stay so, with no more packets to deliver. -/
theorem mono (h : Guarded S i q sender) {sender' : ι → UpstreamSender}
    (hquiet : ∀ j, sender j ≠ .running → sender' j ≠ .running)
    (hleft : others i sender' ≤ others i sender) : Guarded S i q sender' := by
  refine ⟨h.room, h.order, h.calm, fun hp j hj => hquiet j (h.quiet hp j hj), fun hp => ?_⟩
  have hbound := h.bound hp
  have hmul : (S : ℤ) * (others i sender' + 1 : ℕ) ≤ S * (others i sender + 1 : ℕ) := by
    gcongr
  omega

theorem deliver (h : Guarded S i q sender) (via : ι) :
    Guarded S i q (Function.update sender via (sender via).deliver) := by
  refine h.mono (fun j hj => ?_) (others_mono fun j => ?_)
  · by_cases heq : j = via
    · subst heq
      rw [Function.update_self]
      exact UpstreamSender.deliver_ne_running hj
    · rwa [Function.update_of_ne heq]
  · by_cases heq : j = via
    · subst heq
      rw [Function.update_self]
      exact UpstreamSender.left_deliver_le _
    · rw [Function.update_of_ne heq]

/-- A PAUSE for another queue tells the quiet senders nothing new. -/
theorem pause (h : Guarded S i q sender) (port : ι) :
    Guarded S i q (sendPause port 1000 sender) := by
  by_cases hrecv : q.stateRecv = .paused
  · have hsame (j : ι) (hj : j ≠ i) : sendPause port 1000 sender j = sender j := by
      rw [sendPause, UpstreamSender.hear_pause (h.quiet hrecv j hj), ite_self]
    refine ⟨h.room, h.order, h.calm, fun _ j hj => ?_, fun _ => ?_⟩
    · rw [hsame j hj]
      exact h.quiet hrecv j hj
    · rw [others_congr fun j hj => congrArg UpstreamSender.left (hsame j hj)]
      exact h.bound hrecv
  · exact h.of_calm hrecv _

/-- The packet that takes a queue above its threshold: every other sender has two more packets
at most. -/
theorem cross (h : Guarded S i q sender) {sender' : ι → UpstreamSender}
    (hleft : ∀ j, (sender' j).left ≤ 2) {p : DataPacket} (hp : p.size ≤ S) (hc : q.Crosses p)
    (enqueued : List DataPacket) (t : Transmitter) :
    Guarded S i
      { q with
        enqueued := enqueued, queuesize := q.queuesize + p.size, stateRecv := .paused
        transmitter := t }
      (sendPause i 1000 sender') := by
  refine ⟨h.room, h.order, fun hn => absurd rfl hn, fun _ j hj => ?_, fun _ => ?_⟩
  · rw [sendPause, if_neg hj]
    exact UpstreamSender.hear_ne_running _ (by norm_num)
  · have hcalm := h.calm hc.2
    have hleft' (j : ι) : (sendPause i 1000 sender' j).left ≤ 2 := by
      rw [sendPause]
      split_ifs
      · exact hleft j
      · exact UpstreamSender.left_hear_le (hleft j) _
    have hle := others_le hleft' i
    have hmul : (S : ℤ) * (others i (sendPause i 1000 sender') + 1 + 1 : ℕ) ≤
        S * (2 * Fintype.card ι : ℕ) := by
      gcongr
    push_cast [mul_add] at hmul ⊢
    omega

/-- Any other packet from the sender on another port. -/
theorem arrive (h : Guarded S i q sender) (hne : via ≠ i) (hmay : (sender via).MayDeliver)
    {p : DataPacket} (hp : p.size ≤ S) (hc : ¬ q.Crosses p) (enqueued : List DataPacket)
    (t : Transmitter) :
    Guarded S i
      { q with enqueued := enqueued, queuesize := q.queuesize + p.size, transmitter := t }
      (Function.update sender via (sender via).deliver) := by
  have hnext := h.deliver via
  refine ⟨h.room, h.order, fun hrecv => ?_, hnext.quiet, fun hrecv => ?_⟩
  · by_contra hlt
    exact hc ⟨not_le.mp hlt, hrecv⟩
  · have hbound := h.bound hrecv
    cases hvia : sender via with
    | running => exact absurd hvia (h.quiet hrecv via hne)
    | paused n =>
      rw [hvia] at hmay
      obtain ⟨m, rfl⟩ := Nat.exists_eq_succ_of_ne_zero (Nat.pos_iff_ne_zero.mp hmay)
      have hothers := others_deliver hne hvia
      change q.queuesize + p.size + S * (others i (Function.update sender via (.paused m)) + 1 : ℕ)
        ≤ _
      rw [hothers]
      push_cast [mul_add] at hbound ⊢
      omega

/-- A departure only makes room. -/
theorem depart (h : Guarded S i q sender) (p : DataPacket) (enqueued : List DataPacket)
    (t : Transmitter) :
    Guarded S i
      { q with enqueued := enqueued, queuesize := q.queuesize - p.size, transmitter := t }
      sender := by
  refine ⟨h.room, h.order, fun hrecv => ?_, h.quiet, fun hrecv => ?_⟩
  · exact (sub_le_self _ (Int.natCast_nonneg _)).trans (h.calm hrecv)
  · exact (add_le_add_left (sub_le_self _ (Int.natCast_nonneg _)) _).trans (h.bound hrecv)

/-- The queue that lets the senders go on is below its low threshold. -/
theorem unblock (h : Guarded S i q sender) {p : DataPacket} (hu : q.Unblocks p)
    (enqueued : List DataPacket) (t : Transmitter) (sender' : ι → UpstreamSender) :
    Guarded S i
      { q with
        enqueued := enqueued, queuesize := q.queuesize - p.size, stateRecv := .ready
        transmitter := t }
      sender' := by
  refine ⟨h.room, h.order, fun _ => (hu.1.trans h.order).le, ?_, ?_⟩ <;>
  · intro hrecv
    cases hrecv

end Guarded

end Headroom

variable {S : ℕ} {s : Switch ι}

structure Inv (S : ℕ) (s : Switch ι) : Prop where
  served : ∀ i, (s.queue i).transmitter.Inv (s.queue i).enqueued.length
  left : ∀ j, (s.sender j).left ≤ 2
  guarded : ∀ i, Guarded S i (s.queue i) s.sender

namespace Inv

/-- A queue and the senders change, the other queues do not. -/
theorem update {q : LosslessQueue} {sender : ι → UpstreamSender} (h : Inv S s) (port : ι)
    (hserved : q.transmitter.Inv q.enqueued.length) (hleft : ∀ j, (sender j).left ≤ 2)
    (hport : Guarded S port q sender) (hrest : ∀ i, i ≠ port → Guarded S i (s.queue i) sender) :
    Inv S ⟨Function.update s.queue port q, sender⟩ := by
  constructor
  · intro i
    by_cases heq : i = port
    · subst heq
      simpa using hserved
    · simpa [heq] using h.served i
  · exact hleft
  · intro i
    by_cases heq : i = port
    · subst heq
      simpa using hport
    · simpa [heq] using hrest i heq

omit [Fintype ι] in
theorem left_sendPause {sender : ι → UpstreamSender} (hleft : ∀ j, (sender j).left ≤ 2) (port : ι)
    (sleepTime : ℕ) (j : ι) : (sendPause port sleepTime sender j).left ≤ 2 := by
  rw [sendPause]
  split_ifs
  · exact hleft j
  · exact UpstreamSender.left_hear_le (hleft j) sleepTime

theorem left_deliver (h : Inv S s) (via j : ι) :
    (Function.update s.sender via (s.sender via).deliver j).left ≤ 2 := by
  by_cases heq : j = via
  · subst heq
    rw [Function.update_self]
    exact (UpstreamSender.left_deliver_le _).trans (h.left j)
  · rw [Function.update_of_ne heq]
    exact h.left j

theorem deliver (h : Inv S s) {via out : ι} {p : DataPacket} (hp : p.size ≤ S)
    (hmay : (s.sender via).MayDeliver) (hne : via ≠ out) :
    ∃ s', s.step (.deliver via out p) = some s' ∧ Inv S s' := by
  obtain ⟨t, hserved, ht⟩ := LosslessQueue.receiveData_eq (h.served out) p
  simp only [Switch.step, ht, Option.map_some, store]
  refine ⟨_, rfl, ?_⟩
  by_cases hc : (s.queue out).Crosses p
  · simp only [if_pos hc]
    refine h.update out hserved (left_sendPause (h.left_deliver via) out 1000) ?_ fun i _ => ?_
    · exact (h.guarded out).cross (h.left_deliver via) hp hc _ t
    · exact ((h.guarded i).deliver via).pause out
  · simp only [if_neg hc]
    refine h.update out hserved (h.left_deliver via) ?_ fun i _ => (h.guarded i).deliver via
    exact (h.guarded out).arrive hne hmay hp hc _ t

theorem pause (h : Inv S s) (port : ι) (sleepTime : ℕ) :
    ∃ s', s.step (.pause port sleepTime) = some s' ∧ Inv S s' := by
  obtain ⟨t, ht, hserved, -⟩ := (h.served port).receivePause sleepTime
  simp only [Switch.step, LosslessQueue.receivePacket, ht, Option.map_some, store]
  refine ⟨_, rfl, h.update port hserved h.left ?_ fun i _ => h.guarded i⟩
  have hport := h.guarded port
  exact ⟨hport.room, hport.order, hport.calm, hport.quiet, hport.bound⟩

theorem complete (h : Inv S s) {port : ι} (hpending : 0 < (s.queue port).transmitter.pending)
    (hok : s.Undisturbed (.complete port)) :
    ∃ s', s.step (.complete port) = some s' ∧ Inv S s' := by
  obtain ⟨p, t, hlast, hserved, ht⟩ := LosslessQueue.doNextEvent_eq (h.served port) hpending
  simp only [Switch.step, ht, Option.map_some, store]
  refine ⟨_, rfl, ?_⟩
  by_cases hu : (s.queue port).Unblocks p
  · have hcalm := hok p hlast hu
    simp only [if_pos hu]
    refine h.update port hserved (left_sendPause h.left port 0) ?_ fun i hi => ?_
    · exact (h.guarded port).unblock hu _ t _
    · exact (h.guarded i).of_calm (hcalm i hi) _
  · simp only [if_neg hu]
    exact h.update port hserved h.left ((h.guarded port).depart p _ t) fun i _ => h.guarded i

/-- Ports with room for two packets from each port start with nothing to guard against. -/
theorem configured {maxsize : ι → ℤ}
    (hroom : ∀ i, (S : ℤ) * (2 * Fintype.card ι : ℕ) ≤ maxsize i)
    (h : (create maxsize).configureLossless S = some s) : Inv S s := by
  rw [configureLossless] at h
  split_ifs at h with hall
  obtain rfl := Option.some.inj h
  have hqueue (i : ι) : ∃ q, LosslessQueue.initThresholds (Fintype.card ι) S
      (LosslessQueue.create (maxsize i)) = some q :=
    Option.isSome_iff_exists.mp (hall i)
  refine ⟨fun i => ?_, fun _ => Nat.zero_le 2, fun i => ?_⟩ <;>
    obtain ⟨q, hq⟩ := hqueue i <;>
    obtain ⟨low, high, rfl, hfits, horder, hhigh⟩ :=
      LosslessQueue.initThresholds_room (hroom i) hq <;>
    simp only [create, hq, Option.getD_some]
  · exact Transmitter.Inv.initial
  · exact ⟨hfits, horder, fun _ => hhigh.le, nofun, nofun⟩

theorem step (h : Inv S s) {maxsize : ι → ℤ} {a : Event ι}
    (ha : (system S maxsize).enabled (some s) a) (hok : s.Undisturbed a) :
    ∃ s', s.step a = some s' ∧ Inv S s' := by
  cases a with
  | deliver via out p => exact h.deliver ha.1 (ha.2 s rfl) hok
  | pause port sleepTime => exact h.pause port sleepTime
  | complete port => exact h.complete (ha s rfl) hok

end Inv

/-- No queue of a switch is ever above its size, if every buffer has room for two packets from
each port and in no step a packet leaves where it came in, or a queue lets the senders go on
that another queue has stopped. -/
theorem queuesize_le_maxsize (S : ℕ) (maxsize : ι → ℤ)
    (hroom : ∀ i, (S : ℤ) * (2 * Fintype.card ι : ℕ) ≤ maxsize i) {s₀ : Option (Switch ι)}
    (hs : (system S maxsize).init s₀) (l : List (Event ι))
    (hl : ((system S maxsize).restrict fun s a => ∀ t ∈ s, t.Undisturbed a).Allowed s₀ l) :
    ∃ s, (system S maxsize).run s₀ l = some s ∧
      ∀ i, (s.queue i).queuesize ≤ (s.queue i).maxsize := by
  obtain ⟨s₀, rfl⟩ := Option.ne_none_iff_exists'.mp hs.2
  have hrun := hl.history (R := fun _ s => ∃ t, s = some t ∧ Inv S t) ?_
    ⟨_, rfl, .configured hroom hs.1.symm⟩
  · rw [System.run_restrict] at hrun
    obtain ⟨s, heq, hinv⟩ := hrun
    exact ⟨s, heq, fun i => (hinv.guarded i).queuesize_le⟩
  · rintro l s a ⟨t, rfl, hinv⟩ ⟨ha, hok⟩
    exact hinv.step ha (hok t rfl)

/-- Three ports of nine packets: the high threshold is three packets, the low one two. -/
def ninePackets : Fin 3 → ℤ := fun _ => 13500

def fullPacket : DataPacket := ⟨0, 1500, 0⟩

section

local instance threePorts : NeZero 3 := ⟨by decide⟩

/-- Ports 1 and 2 are congested, the senders 0 and 2 are to be quiet for port 1. -/
def congestion : List (Event (Fin 3)) :=
  .pause 1 1000 :: List.replicate 3 (.deliver 0 2 fullPacket) ++
    List.replicate 4 (.deliver 0 1 fullPacket)

end

theorem queuesize_le_maxsize_congestion :
    ∃ s, (system 1500 ninePackets).run ((create ninePackets).configureLossless 1500)
        (congestion ++ [.deliver 0 2 fullPacket, .deliver 2 1 fullPacket, .complete 2]) = some s ∧
      ∀ i, (s.queue i).queuesize ≤ (s.queue i).maxsize :=
  queuesize_le_maxsize 1500 ninePackets (by decide) ⟨rfl, by decide +kernel⟩ _ (by decide +kernel)

/-- Port 2 is congested too and drains first. Its resume lets sender 0 go on, which no longer
heeds the PAUSE of port 1. No packet goes out where it came in. -/
theorem resume_overrides_pause :
    (system 1500 ninePackets).Allowed ((create ninePackets).configureLossless 1500)
        (congestion ++ .deliver 1 2 fullPacket :: List.replicate 3 (.complete 2) ++
          List.replicate 6 (.deliver 0 1 fullPacket)) ∧
      ((system 1500 ninePackets).run ((create ninePackets).configureLossless 1500)
        (congestion ++ .deliver 1 2 fullPacket :: List.replicate 3 (.complete 2) ++
          List.replicate 6 (.deliver 0 1 fullPacket))).map (fun s =>
            ((s.queue 1).queuesize, (s.queue 1).maxsize)) = some (15000, 13500) :=
  ⟨by decide +kernel, by decide +kernel⟩

end Switch

end P4Survey.Ndp
