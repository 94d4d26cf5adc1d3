import P4Survey.Lib.System
import P4Survey.Ndp.Lanes

/-! # The queue that cuts what comes too late

`CutPayloadQueue` of `cpqueue.cpp`: one queue of packets and headers. A packet that does not
fit into the first half of it loses its payload on arrival, and what does not fit into the
queue even so is dropped. A failed assertion ends the simulation.
-/

namespace P4Survey.Ndp

open Lib

/-- `pending` is the number of services whose end is scheduled; `sending` says that a packet
is being sent on, so that the service is not complete. The code reads neither. -/
structure CutPayloadQueue where
  enqueued : List QueuePacket
  queuesize : ℤ
  numHeaders : ℕ
  numAcks : ℕ
  numNacks : ℕ
  numPulls : ℕ
  numDrops : ℕ
  numStripped : ℕ
  pending : ℕ
  sending : Bool
  deriving DecidableEq

namespace CutPayloadQueue

/-- The assertions: a packet that is stripped has a payload, a service has a packet. -/
inductive Fault where
  | header | empty
  deriving DecidableEq

def initial : CutPayloadQueue := ⟨[], 0, 0, 0, 0, 0, 0, 0, 0, false⟩

def threshold (maxsize : ℕ) : ℤ := (maxsize : ℤ) / 2

def beginService (q : CutPayloadQueue) : Except Fault CutPayloadQueue :=
  if q.enqueued = [] then .error .empty else .ok { q with pending := q.pending + 1 }

def countServed (q : CutPayloadQueue) : PacketType → CutPayloadQueue
  | .ndpAck => { q with numAcks := q.numAcks + 1 }
  | .ndpNack => { q with numNacks := q.numNacks + 1 }
  | .ndpPull => { q with numPulls := q.numPulls + 1 }
  | _ => { q with numHeaders := q.numHeaders + 1 }

/-- `completeService` until the packet is sent on. -/
def completeService (q : CutPayloadQueue) : Except Fault CutPayloadQueue :=
  match q.enqueued.getLast? with
  | none => .error .empty
  | some p => .ok
      { q.countServed p.type with
        enqueued := q.enqueued.dropLast
        queuesize := q.queuesize - p.size
        pending := q.pending - 1
        sending := true }

/-- The rest of `completeService`. -/
def resume (q : CutPayloadQueue) : Except Fault CutPayloadQueue :=
  if q.enqueued = [] then .ok { q with sending := false }
  else beginService { q with sending := false }

/-- The last part of `receivePacket`: the packet is as large as it will be. -/
def enqueue (maxsize : ℕ) (q : CutPayloadQueue) (p : QueuePacket) :
    Except Fault CutPayloadQueue :=
  if maxsize < q.queuesize + p.size then .ok { q with numDrops := q.numDrops + 1 }
  else
    let q' := { q with enqueued := p :: q.enqueued, queuesize := q.queuesize + p.size }
    if q.enqueued = [] then q'.beginService else .ok q'

/-- Whether the packet has a payload is not looked at before it is cut. -/
def receivePacket (maxsize : ℕ) (q : CutPayloadQueue) (p : QueuePacket) :
    Except Fault CutPayloadQueue :=
  if threshold maxsize < q.queuesize + p.size then
    match p.stripPayload with
    | none => .error .header
    | some p' => enqueue maxsize { q with numStripped := q.numStripped + 1 } p'
  else enqueue maxsize q p

inductive Event where
  | arrive (p : QueuePacket)
  | complete
  | resume
  deriving DecidableEq

def step (maxsize : ℕ) (q : CutPayloadQueue) : Event → Except Fault CutPayloadQueue
  | .arrive p => q.receivePacket maxsize p
  | .complete => q.completeService
  | .resume => q.resume

/-- Any arrivals at any time, also while a packet is sent on; a service completes when its
end was scheduled. -/
def system (maxsize : ℕ) : System (Except Fault CutPayloadQueue) Event where
  init s := s = .ok initial
  enabled
    | .error _, _ => False
    | .ok _, .arrive _ => True
    | .ok q, .complete => 0 < q.pending ∧ q.sending = false
    | .ok q, .resume => q.sending = true
  next s a := s.bind fun q => q.step maxsize a

instance decidableEnabled (maxsize : ℕ) : (s : Except Fault CutPayloadQueue) → (a : Event) →
    Decidable ((system maxsize).enabled s a)
  | .error _, _ => isFalse id
  | .ok _, .arrive _ => isTrue trivial
  | .ok q, .complete => inferInstanceAs (Decidable (0 < q.pending ∧ q.sending = false))
  | .ok q, .resume => inferInstanceAs (Decidable (q.sending = true))

/-- No header has been cut, and the queue is not over its limit. -/
def Handles (maxsize : ℕ) : Except Fault CutPayloadQueue → Prop
  | .ok q => q.queuesize ≤ maxsize
  | .error f => f ≠ .header

/-- What comes without payload finds room in the first half of the queue. -/
def HeaderFits (maxsize : ℕ) : Except Fault CutPayloadQueue → Event → Prop
  | .ok q, .arrive p => p.isHeader = true → q.queuesize + p.size ≤ threshold maxsize
  | _, _ => True

instance decidableHeaderFits (maxsize : ℕ) : (s : Except Fault CutPayloadQueue) →
    (a : Event) → Decidable (HeaderFits maxsize s a)
  | .ok q, .arrive p =>
    inferInstanceAs (Decidable (p.isHeader = true → q.queuesize + p.size ≤ threshold maxsize))
  | .ok _, .complete => isTrue trivial
  | .ok _, .resume => isTrue trivial
  | .error _, _ => isTrue trivial

variable {maxsize : ℕ} {q q' : CutPayloadQueue} {p : QueuePacket}

/-- The size is that of what is queued, and within the limit. -/
structure Inv (maxsize : ℕ) (q : CutPayloadQueue) : Prop where
  size : q.queuesize = totalSize q.enqueued
  bound : q.queuesize ≤ maxsize

/-- What is known after a step: the sizes are right, unless a service found no packet. -/
def Sound (maxsize : ℕ) : Except Fault CutPayloadQueue → Prop
  | .ok q => Inv maxsize q
  | .error f => f = .empty

theorem Sound.handles {s : Except Fault CutPayloadQueue} (h : Sound maxsize s) :
    Handles maxsize s := by
  cases s with
  | ok q => exact h.bound
  | error f =>
    rw [show f = .empty from h]
    exact Fault.noConfusion

theorem Inv.initial : Inv maxsize initial := ⟨rfl, Int.natCast_nonneg maxsize⟩

theorem Inv.beginService (h : Inv maxsize q) : Sound maxsize q.beginService := by
  rw [CutPayloadQueue.beginService]
  split_ifs
  · rfl
  · exact ⟨h.size, h.bound⟩

theorem Inv.resume (h : Inv maxsize q) : Sound maxsize q.resume := by
  have hsent : Inv maxsize { q with sending := false } := ⟨h.size, h.bound⟩
  rw [CutPayloadQueue.resume]
  split_ifs
  · exact hsent
  · exact hsent.beginService

/-- A packet of any size keeps the limit. -/
theorem Inv.enqueue (h : Inv maxsize q) (p : QueuePacket) :
    Sound maxsize (enqueue maxsize q p) := by
  rw [CutPayloadQueue.enqueue]
  by_cases hfull : maxsize < q.queuesize + p.size
  · rw [if_pos hfull]
    exact ⟨h.size, h.bound⟩
  · rw [if_neg hfull]
    have hpushed : Inv maxsize
        { q with enqueued := p :: q.enqueued, queuesize := q.queuesize + p.size } := by
      constructor
      · rw [totalSize_cons, ← h.size, add_comm]
      · exact not_lt.mp hfull
    dsimp only
    split_ifs
    · exact hpushed.beginService
    · exact hpushed

theorem Inv.completeService (h : Inv maxsize q) : Sound maxsize q.completeService := by
  rw [CutPayloadQueue.completeService]
  cases hlast : q.enqueued.getLast? with
  | none => rfl
  | some p =>
    have hsplit : q.enqueued = q.enqueued.dropLast ++ [p] :=
      (List.dropLast_append_getLast? p hlast).symm
    have hsize : q.queuesize = totalSize q.enqueued.dropLast + p.size := by
      rw [h.size, hsplit, totalSize_append, List.dropLast_concat]
      simp
    constructor
    · change q.queuesize - p.size = totalSize q.enqueued.dropLast
      rw [hsize, add_sub_cancel_right]
    · exact (sub_le_self _ (Int.natCast_nonneg p.size)).trans h.bound

/-- A packet is cut without harm exactly if it has a payload or does not have to be cut. -/
theorem Inv.receivePacket (h : Inv maxsize q)
    (hfits : p.isHeader = true → q.queuesize + p.size ≤ threshold maxsize) :
    Sound maxsize (q.receivePacket maxsize p) := by
  rw [CutPayloadQueue.receivePacket]
  by_cases hlate : threshold maxsize < q.queuesize + p.size
  · rw [if_pos hlate]
    have hpayload : p.isHeader = false :=
      Bool.eq_false_iff.mpr fun hheader => absurd (hfits hheader) (not_le.mpr hlate)
    rw [QueuePacket.stripPayload_eq.mpr ⟨hpayload, rfl⟩]
    have hcut : Inv maxsize { q with numStripped := q.numStripped + 1 } := ⟨h.size, h.bound⟩
    exact hcut.enqueue _
  · rw [if_neg hlate]
    exact h.enqueue p

theorem receivePacket_header (hheader : p.isHeader = true)
    (hlate : threshold maxsize < q.queuesize + p.size) :
    q.receivePacket maxsize p = .error .header := by
  rw [receivePacket, if_pos hlate, QueuePacket.stripPayload, if_pos hheader]

theorem Sound.next {s : Except Fault CutPayloadQueue} {a : Event} (h : Sound maxsize s)
    (henabled : (system maxsize).enabled s a) (hfits : HeaderFits maxsize s a) :
    Sound maxsize ((system maxsize).next s a) := by
  cases s with
  | error f => exact absurd henabled id
  | ok q =>
    cases a with
    | arrive p => exact Inv.receivePacket h hfits
    | complete => exact Inv.completeService h
    | resume => exact Inv.resume h

theorem next_of_not_headerFits {s : Except Fault CutPayloadQueue} {a : Event}
    (hfits : ¬HeaderFits maxsize s a) : (system maxsize).next s a = .error .header := by
  cases s with
  | error f => exact absurd trivial hfits
  | ok q =>
    cases a with
    | arrive p =>
      obtain ⟨hheader, hlate⟩ := Classical.not_imp.mp hfits
      exact receivePacket_header hheader (not_le.mp hlate)
    | complete => exact absurd trivial hfits
    | resume => exact absurd trivial hfits

/-- The limit is kept in any case: where a header is cut the simulation ends. -/
theorem inv_of_reachable {s : Except Fault CutPayloadQueue} (h : (system maxsize).Reachable s) :
    ∀ q, s = .ok q → Inv maxsize q := by
  induction h with
  | init hs =>
    rintro q rfl
    cases hs
    exact Inv.initial
  | @step s a _ henabled ih =>
    intro q' hq'
    cases s with
    | error f => exact absurd henabled id
    | ok q =>
      by_cases hfits : HeaderFits maxsize (.ok q) a
      · have hnext := Sound.next (s := .ok q) (ih q rfl) henabled hfits
        rwa [hq'] at hnext
      · rw [next_of_not_headerFits hfits] at hq'
        cases hq'

/-- No header is cut and the limit is kept in every state of a run exactly if whatever comes
without payload finds room in the first half of the queue. -/
theorem handles_iff_headers_fit (maxsize : ℕ) (l : List Event)
    (hl : (system maxsize).Allowed (.ok initial) l) :
    (∀ l', l' <+: l → Handles maxsize ((system maxsize).run (.ok initial) l')) ↔
      ((system maxsize).restrict (HeaderFits maxsize)).Allowed (.ok initial) l :=
  System.holds_iff_allowed (fun _ h => h.handles) (fun _ _ h he hok => h.next he hok)
    (fun s a _ _ hnext => by
      by_contra hfits
      rw [next_of_not_headerFits hfits] at hnext
      exact hnext rfl)
    (show Sound maxsize (.ok initial) from Inv.initial) hl

/-- A data packet of 1500 bytes. -/
def dataPacket (ref : ℕ) : QueuePacket := ⟨ref, .ndp, 1500, false, false, false, 0⟩

/-- An ACK. -/
def ackPacket (ref : ℕ) : QueuePacket := ⟨ref, .ndpAck, ackSize, true, false, false, 0⟩

/-- The ACK comes to an empty queue; the second data packet is cut. -/
theorem handles_iff_headers_fit_two :
    (∀ l', l' <+: [.arrive (ackPacket 0), .arrive (dataPacket 1), .arrive (dataPacket 2),
        .complete, .resume] →
      Handles 4500 ((system 4500).run (.ok initial) l')) ↔
      ((system 4500).restrict (HeaderFits 4500)).Allowed (.ok initial)
        [.arrive (ackPacket 0), .arrive (dataPacket 1), .arrive (dataPacket 2), .complete,
          .resume] :=
  handles_iff_headers_fit 4500 _ (by decide)

/-- An ACK that comes behind a data packet is to be cut, and the simulation ends. -/
theorem ack_is_cut :
    (system 3000).Allowed (.ok initial) [.arrive (dataPacket 0), .arrive (ackPacket 1)] ∧
      ¬Handles 3000 ((system 3000).run (.ok initial)
        [.arrive (dataPacket 0), .arrive (ackPacket 1)]) :=
  ⟨by decide, fun h => h rfl⟩

end CutPayloadQueue

end P4Survey.Ndp
