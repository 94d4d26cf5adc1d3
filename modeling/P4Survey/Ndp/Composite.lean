import P4Survey.Lib.System
import P4Survey.Ndp.Lanes

/-! # The queue that turns packets into headers

`CompositeQueue` of `compositequeue.cpp`. A packet that finds the low queue full is
stripped of its payload or, by a coin toss, takes the place of the one that came last.
A header that finds the high queue full is returned to its sender or dropped.
-/

namespace P4Survey.Ndp

open Lib

structure CompositeQueue extends Lanes where
  queuesizeLow : ℤ
  queuesizeHigh : ℤ
  numPackets : ℕ
  numHeaders : ℕ
  numAcks : ℕ
  numNacks : ℕ
  numPulls : ℕ
  numDrops : ℕ
  numStripped : ℕ
  numBounced : ℕ
  deriving DecidableEq

namespace CompositeQueue

def initial : CompositeQueue := ⟨.empty, 0, 0, 0, 0, 0, 0, 0, 0, 0, 0⟩

/-- A step that only concerns the service. -/
def onLanes (f : Lanes → Option Lanes) (q : CompositeQueue) : Option CompositeQueue :=
  (f q.toLanes).map fun t => { q with toLanes := t }

def beginService : CompositeQueue → Option CompositeQueue := onLanes Lanes.beginService

def wake : CompositeQueue → Option CompositeQueue := onLanes Lanes.wake

def pushLow (q : CompositeQueue) (p : QueuePacket) : CompositeQueue :=
  { q with enqueuedLow := p :: q.enqueuedLow, queuesizeLow := q.queuesizeLow + p.size }

def pushHigh (q : CompositeQueue) (p : QueuePacket) : CompositeQueue :=
  { q with enqueuedHigh := p :: q.enqueuedHigh, queuesizeHigh := q.queuesizeHigh + p.size }

def countServed (q : CompositeQueue) : PacketType → CompositeQueue
  | .ndpAck => { q with numAcks := q.numAcks + 1 }
  | .ndpNack => { q with numNacks := q.numNacks + 1 }
  | .ndpPull => { q with numPulls := q.numPulls + 1 }
  | _ => { q with numHeaders := q.numHeaders + 1 }

/-- The packet that `completeService` sends on, and the queue without it. -/
def dequeue (q : CompositeQueue) : Option (QueuePacket × CompositeQueue) :=
  match q.serv with
  | .low => q.enqueuedLow.getLast?.map fun p => (p,
      { q with
        enqueuedLow := q.enqueuedLow.dropLast
        queuesizeLow := q.queuesizeLow - p.size
        numPackets := q.numPackets + 1 })
  | .high => q.enqueuedHigh.getLast?.map fun p => (p, countServed
      { q with
        enqueuedHigh := q.enqueuedHigh.dropLast
        queuesizeHigh := q.queuesizeHigh - p.size } p.type)
  | .invalid => none

def completeService (q : CompositeQueue) : Option (QueuePacket × CompositeQueue) := do
  let (p, q) ← q.dequeue
  let q ← q.onLanes Lanes.resume
  some (p, q)

/-- The scheduled end of a transmission. -/
def doNextEvent (q : CompositeQueue) : Option (QueuePacket × CompositeQueue) :=
  completeService { q with pending := q.pending.tail }

/-- Whether a packet for which there is no room goes back to its sender. -/
def Returns (p : QueuePacket) : Prop := p.reverseRoute = true ∧ p.bounced = false

instance (p : QueuePacket) : Decidable (Returns p) := inferInstanceAs (Decidable (_ ∧ _))

variable (maxsize : ℤ)

/-- The header of a packet that made room. -/
def placeBooted (q : CompositeQueue) (b : QueuePacket) : CompositeQueue :=
  if maxsize < q.queuesizeHigh + b.size then
    if Returns b then { q with numBounced := q.numBounced + 1 }
    else q
  else q.pushHigh b

/-- The packet that came last makes room. -/
def bootPacket (q : CompositeQueue) : Option CompositeQueue :=
  match q.enqueuedLow with
  | [] => none
  | b :: low => b.stripPayload.map <| placeBooted maxsize
      { q with
        enqueuedLow := low
        queuesizeLow := q.queuesizeLow - b.size
        numStripped := q.numStripped + 1 }

/-- The second half of `receivePacket`, for headers and for what is left of a packet. -/
def receiveHeader (q : CompositeQueue) (p : QueuePacket) : Option CompositeQueue :=
  if p.isHeader = false then none
  else if maxsize < q.queuesizeHigh + p.size then
    if Returns p then some { q with numBounced := q.numBounced + 1 }
    else some { q with numDrops := q.numDrops + 1 }
  else (q.pushHigh p).wake

/-- `coin` is the outcome of `drand() < 0.5`. -/
def receivePacket (q : CompositeQueue) (p : QueuePacket) (coin : Bool) : Option CompositeQueue :=
  if p.isHeader then q.receiveHeader maxsize p
  else if q.queuesizeLow + p.size ≤ maxsize ∨ coin then
    (if maxsize < q.queuesizeLow + p.size then q.bootPacket maxsize else some q).bind fun q =>
      if q.queuesizeLow + p.size ≤ maxsize then (q.pushLow p).wake else none
  else p.stripPayload.bind <| receiveHeader maxsize { q with numStripped := q.numStripped + 1 }

/-- What happens at a queue. -/
inductive Event where
  | arrive (p : QueuePacket) (coin : Bool)
  | complete
  deriving DecidableEq

def step (q : CompositeQueue) : Event → Option CompositeQueue
  | .arrive p coin => q.receivePacket maxsize p coin
  | .complete => q.doNextEvent.map Prod.snd

/-- The queue under any arrivals. A service completes when its end was scheduled; after a
failed assertion nothing happens any more. -/
def system : System (Option CompositeQueue) Event where
  init s := s = some initial
  enabled
    | none, _ => False
    | some _, .arrive _ _ => True
    | some q, .complete => q.pending ≠ []
  next s a := s.bind fun q => q.step maxsize a

instance decidableEnabled : (s : Option CompositeQueue) → (a : Event) →
    Decidable ((system maxsize).enabled s a)
  | none, _ => isFalse id
  | some _, .arrive _ _ => isTrue trivial
  | some q, .complete => inferInstanceAs (Decidable (q.pending ≠ []))

variable {maxsize} {q q' : CompositeQueue} {p : QueuePacket} {coin : Bool}

theorem onLanes_eq {f : Lanes → Option Lanes} (h : q.onLanes f = some q') :
    ∃ t, f q.toLanes = some t ∧ q' = { q with toLanes := t } := by
  rw [onLanes, Option.map_eq_some_iff] at h
  obtain ⟨t, ht, rfl⟩ := h
  exact ⟨t, ht, rfl⟩

variable (maxsize) in
theorem placeBooted_cases (q : CompositeQueue) (b : QueuePacket) :
    maxsize < q.queuesizeHigh + b.size ∧
        (Returns b ∧ q.placeBooted maxsize b = { q with numBounced := q.numBounced + 1 } ∨
          ¬ Returns b ∧ q.placeBooted maxsize b = q) ∨
      q.queuesizeHigh + b.size ≤ maxsize ∧ q.placeBooted maxsize b = q.pushHigh b := by
  unfold placeBooted
  split_ifs with hfull hret
  · exact .inl ⟨hfull, .inl ⟨hret, rfl⟩⟩
  · exact .inl ⟨hfull, .inr ⟨hret, rfl⟩⟩
  · exact .inr ⟨not_lt.mp hfull, rfl⟩

theorem bootPacket_eq (h : q.bootPacket maxsize = some q') :
    ∃ b low r, q.enqueuedLow = b :: low ∧ b.stripPayload = some r ∧
      q' = placeBooted maxsize
        { q with
          enqueuedLow := low
          queuesizeLow := q.queuesizeLow - b.size
          numStripped := q.numStripped + 1 } r := by
  unfold bootPacket at h
  split at h
  next => cases h
  next b low hlow =>
    obtain ⟨r, hr, rfl⟩ := Option.map_eq_some_iff.mp h
    exact ⟨b, low, r, hlow, hr, rfl⟩

theorem receiveHeader_cases (h : q.receiveHeader maxsize p = some q') :
    p.isHeader = true ∧
      (maxsize < q.queuesizeHigh + p.size ∧
          (Returns p ∧ q' = { q with numBounced := q.numBounced + 1 } ∨
            ¬ Returns p ∧ q' = { q with numDrops := q.numDrops + 1 }) ∨
        q.queuesizeHigh + p.size ≤ maxsize ∧ (q.pushHigh p).wake = some q') := by
  unfold receiveHeader at h
  split_ifs at h with hhead hfull hret
  · exact ⟨by simpa using hhead, .inl ⟨hfull, .inl ⟨hret, (Option.some.inj h).symm⟩⟩⟩
  · exact ⟨by simpa using hhead, .inl ⟨hfull, .inr ⟨hret, (Option.some.inj h).symm⟩⟩⟩
  · exact ⟨by simpa using hhead, .inr ⟨not_lt.mp hfull, h⟩⟩

/-- An arrival goes to the high queue, whole or stripped, or to the low queue, with or without another
packet making room. -/
theorem receivePacket_cases (h : q.receivePacket maxsize p coin = some q') :
    p.isHeader = true ∧ q.receiveHeader maxsize p = some q' ∨
      (p.isHeader = false ∧ ∃ q₁,
        (q.queuesizeLow + p.size ≤ maxsize ∧ q₁ = q ∨
          maxsize < q.queuesizeLow + p.size ∧ coin = true ∧ q.bootPacket maxsize = some q₁) ∧
        q₁.queuesizeLow + p.size ≤ maxsize ∧ (q₁.pushLow p).wake = some q') ∨
      p.isHeader = false ∧ maxsize < q.queuesizeLow + p.size ∧ coin = false ∧
        ∃ r, p.stripPayload = some r ∧
          receiveHeader maxsize { q with numStripped := q.numStripped + 1 } r = some q' := by
  unfold receivePacket at h
  split at h
  next hhead => exact .inl ⟨hhead, h⟩
  next hhead =>
    rw [Bool.not_eq_true] at hhead
    split at h
    next hlow =>
      obtain ⟨q₁, h₁, h⟩ := Option.bind_eq_some_iff.mp h
      refine .inr (.inl ⟨hhead, q₁, ?_, ?_⟩)
      · split_ifs at h₁ with hfull
        · exact .inr ⟨hfull, hlow.resolve_left (not_le.mpr hfull), h₁⟩
        · exact .inl ⟨not_lt.mp hfull, (Option.some.inj h₁).symm⟩
      · split_ifs at h with hroom
        exact ⟨hroom, h⟩
    next hlow =>
      obtain ⟨r, hr, h⟩ := Option.bind_eq_some_iff.mp h
      rw [not_or, not_le, Bool.not_eq_true] at hlow
      exact .inr (.inr ⟨hhead, hlow.1, hlow.2, r, hr, h⟩)

theorem dequeue_cases (h : q.dequeue = some (p, q')) :
    (q.serv = .low ∧ ∃ low, q.enqueuedLow = low ++ [p] ∧ q' =
        { q with
          enqueuedLow := low
          queuesizeLow := q.queuesizeLow - p.size
          numPackets := q.numPackets + 1 }) ∨
      q.serv = .high ∧ ∃ high, q.enqueuedHigh = high ++ [p] ∧ q' = countServed
        { q with
          enqueuedHigh := high
          queuesizeHigh := q.queuesizeHigh - p.size } p.type := by
  unfold dequeue at h
  split at h
  next hserv =>
    obtain ⟨r, hr, he⟩ := Option.map_eq_some_iff.mp h
    obtain ⟨rfl, rfl⟩ := Prod.ext_iff.mp he
    exact .inl ⟨hserv, _, (List.dropLast_append_getLast? _ hr).symm, rfl⟩
  next hserv =>
    obtain ⟨r, hr, he⟩ := Option.map_eq_some_iff.mp h
    obtain ⟨rfl, rfl⟩ := Prod.ext_iff.mp he
    exact .inr ⟨hserv, _, (List.dropLast_append_getLast? _ hr).symm, rfl⟩
  next => cases h

theorem doNextEvent_eq (h : q.doNextEvent = some (p, q')) :
    ∃ q₁ : CompositeQueue, dequeue { q with pending := q.pending.tail } = some (p, q₁) ∧
      q₁.onLanes Lanes.resume = some q' := by
  obtain ⟨⟨r, q₁⟩, h₁, h⟩ := Option.bind_eq_some_iff.mp h
  obtain ⟨q₂, h₂, h⟩ := Option.bind_eq_some_iff.mp h
  cases h
  exact ⟨q₁, h₁, h₂⟩

@[simp] theorem countServed_toLanes (q : CompositeQueue) (t : PacketType) :
    (q.countServed t).toLanes = q.toLanes := by
  cases t <;> rfl

@[simp] theorem countServed_queuesizeLow (q : CompositeQueue) (t : PacketType) :
    (q.countServed t).queuesizeLow = q.queuesizeLow := by
  cases t <;> rfl

@[simp] theorem countServed_queuesizeHigh (q : CompositeQueue) (t : PacketType) :
    (q.countServed t).queuesizeHigh = q.queuesizeHigh := by
  cases t <;> rfl

/-- The two sizes are right and within the bound, and only whole packets are in the low
queue. `P` is what is known of their sizes. -/
structure Fits (maxsize : ℤ) (P : ℕ → Prop) (q : CompositeQueue) : Prop where
  low : q.queuesizeLow = totalSize q.enqueuedLow
  high : q.queuesizeHigh = totalSize q.enqueuedHigh
  low_le : q.queuesizeLow ≤ maxsize
  high_le : q.queuesizeHigh ≤ maxsize
  full : ∀ p ∈ q.enqueuedLow, p.isHeader = false ∧ P p.size

namespace Fits

variable {P : ℕ → Prop}

theorem initial (h : 0 ≤ maxsize) : Fits maxsize P initial :=
  ⟨rfl, rfl, h, h, fun p hp => by cases hp⟩

theorem lanes (h : Fits maxsize P q) {t : Lanes}
    (ht : t.enqueuedLow = q.enqueuedLow ∧ t.enqueuedHigh = q.enqueuedHigh) :
    Fits maxsize P { q with toLanes := t } := by
  refine ⟨?_, ?_, h.low_le, h.high_le, ?_⟩
  · change q.queuesizeLow = totalSize t.enqueuedLow
    rw [ht.1, h.low]
  · change q.queuesizeHigh = totalSize t.enqueuedHigh
    rw [ht.2, h.high]
  · intro p hp
    change p ∈ t.enqueuedLow at hp
    rw [ht.1] at hp
    exact h.full p hp

theorem wake (h : Fits maxsize P q) (hw : q.wake = some q') : Fits maxsize P q' := by
  obtain ⟨t, ht, rfl⟩ := onLanes_eq hw
  exact h.lanes (Lanes.wake_lists ht)

theorem pushHigh (h : Fits maxsize P q) (hroom : q.queuesizeHigh + p.size ≤ maxsize) :
    Fits maxsize P (q.pushHigh p) :=
  ⟨h.low, by simp [CompositeQueue.pushHigh, h.high, add_comm], h.low_le, hroom, h.full⟩

theorem pushLow (h : Fits maxsize P q) (hroom : q.queuesizeLow + p.size ≤ maxsize)
    (hp : p.isHeader = false ∧ P p.size) : Fits maxsize P (q.pushLow p) := by
  refine ⟨by simp [CompositeQueue.pushLow, h.low, add_comm], h.high, hroom, h.high_le, ?_⟩
  intro r hr
  rcases List.mem_cons.mp hr with rfl | hr
  · exact hp
  · exact h.full r hr

theorem bootPacket (h : Fits maxsize P q) (hb : q.bootPacket maxsize = some q') :
    Fits maxsize P q' := by
  obtain ⟨b, low, r, hlow, -, rfl⟩ := bootPacket_eq hb
  have hlow' := h.low
  rw [hlow, totalSize_cons] at hlow'
  have h₁ : Fits maxsize P { q with
      enqueuedLow := low
      queuesizeLow := q.queuesizeLow - b.size
      numStripped := q.numStripped + 1 } := by
    refine ⟨?_, h.high, ?_, h.high_le, fun p hp => h.full p (hlow ▸ List.mem_cons_of_mem b hp)⟩
    · change q.queuesizeLow - b.size = totalSize low
      omega
    · change q.queuesizeLow - b.size ≤ maxsize
      have := h.low_le
      omega
  rcases placeBooted_cases maxsize { q with
      enqueuedLow := low
      queuesizeLow := q.queuesizeLow - b.size
      numStripped := q.numStripped + 1 } r with ⟨-, ⟨-, he⟩ | ⟨-, he⟩⟩ | ⟨hroom, he⟩
  · rw [he]
    exact ⟨h₁.low, h₁.high, h₁.low_le, h₁.high_le, h₁.full⟩
  · rw [he]
    exact h₁
  · rw [he]
    exact h₁.pushHigh hroom

theorem receiveHeader (h : Fits maxsize P q) (hr : q.receiveHeader maxsize p = some q') :
    Fits maxsize P q' := by
  obtain ⟨-, ⟨-, ⟨-, rfl⟩ | ⟨-, rfl⟩⟩ | ⟨hroom, hw⟩⟩ := receiveHeader_cases hr
  · exact ⟨h.low, h.high, h.low_le, h.high_le, h.full⟩
  · exact ⟨h.low, h.high, h.low_le, h.high_le, h.full⟩
  · exact (h.pushHigh hroom).wake hw

theorem receivePacket (h : Fits maxsize P q) (hp : p.isHeader = false → P p.size)
    (hr : q.receivePacket maxsize p coin = some q') : Fits maxsize P q' := by
  rcases receivePacket_cases hr with ⟨-, hh⟩ | ⟨hfull, q₁, hq₁, hroom, hw⟩ | ⟨-, -, -, r, -, hh⟩
  · exact h.receiveHeader hh
  · have h₁ : Fits maxsize P q₁ := by
      rcases hq₁ with ⟨-, rfl⟩ | ⟨-, -, hb⟩
      · exact h
      · exact h.bootPacket hb
    exact (h₁.pushLow hroom ⟨hfull, hp hfull⟩).wake hw
  · have h₁ : Fits maxsize P { q with numStripped := q.numStripped + 1 } :=
      ⟨h.low, h.high, h.low_le, h.high_le, h.full⟩
    exact h₁.receiveHeader hh

theorem doNextEvent (h : Fits maxsize P q) (hr : q.doNextEvent = some (p, q')) :
    Fits maxsize P q' := by
  obtain ⟨q₁, hd, hres⟩ := doNextEvent_eq hr
  obtain ⟨t, ht, rfl⟩ := onLanes_eq hres
  refine lanes ?_ (Lanes.resume_lists ht)
  have hsize : (0 : ℤ) ≤ p.size := Int.natCast_nonneg _
  rcases dequeue_cases hd with ⟨-, low, hlow, rfl⟩ | ⟨-, high, hhigh, rfl⟩
  · have hsum := h.low
    rw [show q.enqueuedLow = low ++ [p] from hlow] at hsum
    simp only [totalSize_append, totalSize_cons, totalSize_nil] at hsum
    have hle := h.low_le
    refine ⟨by change q.queuesizeLow - p.size = totalSize low; omega, h.high,
      by change q.queuesizeLow - p.size ≤ maxsize; omega, h.high_le, fun r hr' => ?_⟩
    exact h.full r (by rw [show q.enqueuedLow = low ++ [p] from hlow]; simp [hr'])
  · have hsum := h.high
    rw [show q.enqueuedHigh = high ++ [p] from hhigh] at hsum
    simp only [totalSize_append, totalSize_cons, totalSize_nil] at hsum
    have hle := h.high_le
    refine ⟨?_, ?_, ?_, ?_, ?_⟩
    all_goals simp only [countServed_toLanes, countServed_queuesizeLow, countServed_queuesizeHigh]
    · exact h.low
    · omega
    · exact h.low_le
    · omega
    · exact h.full

end Fits

/-- What a packet of the low queue that made room leaves. -/
theorem bootPacket_lanes (h : q.bootPacket maxsize = some q') :
    Lanes.SameService q.toLanes q'.toLanes ∧ (∃ b, q.enqueuedLow = b :: q'.enqueuedLow) ∧
      ∃ l, q'.enqueuedHigh = l ++ q.enqueuedHigh := by
  obtain ⟨b, low, r, hlow, -, rfl⟩ := bootPacket_eq h
  rcases placeBooted_cases maxsize { q with
      enqueuedLow := low
      queuesizeLow := q.queuesizeLow - b.size
      numStripped := q.numStripped + 1 } r with ⟨-, ⟨-, he⟩ | ⟨-, he⟩⟩ | ⟨-, he⟩
  · rw [he]
    exact ⟨⟨rfl, rfl, rfl, rfl⟩, ⟨b, hlow⟩, [], rfl⟩
  · rw [he]
    exact ⟨⟨rfl, rfl, rfl, rfl⟩, ⟨b, hlow⟩, [], rfl⟩
  · rw [he]
    exact ⟨⟨rfl, rfl, rfl, rfl⟩, ⟨b, hlow⟩, [r], rfl⟩

/-- What an arrival leaves in the queues before the service is considered. -/
structure Queues (maxsize : ℤ) (q : CompositeQueue) (p : QueuePacket) (t : Lanes) : Prop where
  same : Lanes.SameService q.toLanes t
  high : ∃ l, t.enqueuedHigh = l ++ q.enqueuedHigh
  low : (∃ l, t.enqueuedLow = l ++ q.enqueuedLow) ∨
    maxsize < q.queuesizeLow + p.size ∧ p.isHeader = false ∧
      ∃ b low, q.enqueuedLow = b :: low ∧ t.enqueuedLow = p :: low

theorem queues_pushHigh (q : CompositeQueue) (p r : QueuePacket) :
    Queues maxsize q p (q.pushHigh r).toLanes :=
  ⟨⟨rfl, rfl, rfl, rfl⟩, ⟨[r], rfl⟩, .inl ⟨[], rfl⟩⟩

theorem queues_pushLow (q : CompositeQueue) (p : QueuePacket) :
    Queues maxsize q p (q.pushLow p).toLanes :=
  ⟨⟨rfl, rfl, rfl, rfl⟩, ⟨[], rfl⟩, .inl ⟨[p], rfl⟩⟩

theorem queues_boot (hb : q.bootPacket maxsize = some q') (hfull : p.isHeader = false)
    (hroom : maxsize < q.queuesizeLow + p.size) : Queues maxsize q p (q'.pushLow p).toLanes := by
  obtain ⟨⟨hserv, hcrt, hpending, hservices⟩, ⟨b, hlow⟩, hhigh⟩ := bootPacket_lanes hb
  exact ⟨⟨hserv, hcrt, hpending, hservices⟩, hhigh, .inr ⟨hroom, hfull, b, _, hlow, rfl⟩⟩

theorem receiveHeader_lanes (h : q.receiveHeader maxsize p = some q') :
    q'.toLanes = q.toLanes ∨ (q.pushHigh p).toLanes.wake = some q'.toLanes := by
  obtain ⟨-, ⟨-, ⟨-, rfl⟩ | ⟨-, rfl⟩⟩ | ⟨-, hw⟩⟩ := receiveHeader_cases h
  · exact .inl rfl
  · exact .inl rfl
  · obtain ⟨t, ht, rfl⟩ := onLanes_eq hw
    exact .inr ht

theorem receivePacket_lanes (h : q.receivePacket maxsize p coin = some q') :
    q'.toLanes = q.toLanes ∨ ∃ t, Queues maxsize q p t ∧ t.wake = some q'.toLanes := by
  rcases receivePacket_cases h with ⟨-, hh⟩ | ⟨hfull, q₁, hq₁, -, hw⟩ | ⟨-, -, -, r, -, hh⟩
  · exact (receiveHeader_lanes hh).imp_right fun ht => ⟨_, queues_pushHigh q p p, ht⟩
  · right
    obtain ⟨t, ht, rfl⟩ := onLanes_eq hw
    refine ⟨_, ?_, ht⟩
    rcases hq₁ with ⟨-, rfl⟩ | ⟨hroom, -, hb⟩
    · exact queues_pushLow q₁ p
    · exact queues_boot hb hfull hroom
  · exact (receiveHeader_lanes hh).imp_right fun ht => ⟨_, queues_pushHigh q p r, ht⟩

/-- An arrival does not empty a queue. -/
theorem Queues.lane {t : Lanes} (h : Queues maxsize q p t) (s : Serv) (hs : q.lane s ≠ []) :
    t.lane s ≠ [] := by
  cases s with
  | invalid => exact hs
  | low =>
    rcases h.low with ⟨l, hl⟩ | ⟨-, -, b, low, -, hl⟩
    · change t.enqueuedLow ≠ []
      rw [hl]
      exact List.append_ne_nil_of_right_ne_nil _ hs
    · change t.enqueuedLow ≠ []
      rw [hl]
      exact List.cons_ne_nil _ _
  | high =>
    obtain ⟨l, hl⟩ := h.high
    change t.enqueuedHigh ≠ []
    rw [hl]
    exact List.append_ne_nil_of_right_ne_nil _ hs

theorem busy_receivePacket (h : q.Busy) (hr : q.receivePacket maxsize p coin = some q') :
    q'.Busy := by
  rcases receivePacket_lanes hr with he | ⟨t, ht, hw⟩
  · rw [he]
    exact h
  · exact (h.toReady.same ht.same ht.lane).busy_of_wake hw

/-- A service ends, and the packet that leaves was the oldest of its queue. -/
theorem doNextEvent_lanes (h : q.doNextEvent = some (p, q')) :
    ∃ t : Lanes, t.crt = q.crt ∧ t.pending = q.pending.tail ∧ t.services = q.services ∧
      (q.lane q.serv).getLast? = some p ∧ t.resume = some q'.toLanes := by
  obtain ⟨q₁, hd, hres⟩ := doNextEvent_eq h
  obtain ⟨t, ht, rfl⟩ := onLanes_eq hres
  refine ⟨q₁.toLanes, ?_⟩
  rcases dequeue_cases hd with ⟨hserv, low, hlow, rfl⟩ | ⟨hserv, high, hhigh, rfl⟩
  · have hlast : (q.lane q.serv).getLast? = some p := by
      rw [show q.serv = .low from hserv]
      change q.enqueuedLow.getLast? = some p
      rw [show q.enqueuedLow = low ++ [p] from hlow, List.getLast?_concat]
    exact ⟨rfl, rfl, rfl, hlast, ht⟩
  · have hlast : (q.lane q.serv).getLast? = some p := by
      rw [show q.serv = .high from hserv]
      change q.enqueuedHigh.getLast? = some p
      rw [show q.enqueuedHigh = high ++ [p] from hhigh, List.getLast?_concat]
    simp only [countServed_toLanes] at ht ⊢
    exact ⟨trivial, trivial, trivial, hlast, ht⟩

theorem busy_doNextEvent (h : q.Busy) (hr : q.doNextEvent = some (p, q')) : q'.Busy := by
  obtain ⟨t, hcrt, hpending, -, -, ht⟩ := doNextEvent_lanes hr
  exact Lanes.busy_of_resume (hcrt ▸ h.crt) (hpending.trans h.tail_pending) ht

theorem exists_onLanes {f : Lanes → Option Lanes} (h : ∃ t, f q.toLanes = some t) :
    ∃ q', q.onLanes f = some q' := by
  obtain ⟨t, ht⟩ := h
  exact ⟨{ q with toLanes := t }, by rw [onLanes, ht]; rfl⟩

theorem exists_receiveHeader (q : CompositeQueue) (hp : p.isHeader = true) :
    ∃ q', q.receiveHeader maxsize p = some q' := by
  unfold receiveHeader
  rw [hp]
  simp only [Bool.true_eq_false, if_false]
  split_ifs
  · exact ⟨_, rfl⟩
  · exact ⟨_, rfl⟩
  · exact exists_onLanes (Lanes.exists_wake fun h => List.cons_ne_nil _ _ h.2)

theorem exists_stripPayload (hp : p.isHeader = false) : ∃ r, p.stripPayload = some r :=
  ⟨_, QueuePacket.stripPayload_eq.mpr ⟨hp, rfl⟩⟩

theorem placeBooted_queuesizeLow (q : CompositeQueue) (b : QueuePacket) :
    (q.placeBooted maxsize b).queuesizeLow = q.queuesizeLow := by
  rcases placeBooted_cases maxsize q b with ⟨-, ⟨-, he⟩ | ⟨-, he⟩⟩ | ⟨-, he⟩
  all_goals rw [he]
  rfl

section Sized

variable {size : ℕ}

/-- A packet of the same size that makes room makes enough of it. -/
theorem Fits.exists_bootPacket (h : Fits maxsize (· = size) q) (hsize : (size : ℤ) ≤ maxsize)
    (hroom : maxsize < q.queuesizeLow + size) :
    ∃ q', q.bootPacket maxsize = some q' ∧ q'.queuesizeLow + size ≤ maxsize := by
  cases hlow : q.enqueuedLow with
  | nil =>
    have hzero := h.low
    rw [hlow, totalSize_nil] at hzero
    omega
  | cons b low =>
    obtain ⟨hb, hbsize⟩ := h.full b (by rw [hlow]; exact List.mem_cons_self)
    obtain ⟨r, hr⟩ := exists_stripPayload hb
    refine ⟨_, by rw [CompositeQueue.bootPacket, hlow]; simp only [hr]; rfl, ?_⟩
    rw [placeBooted_queuesizeLow]
    have hle := h.low_le
    change q.queuesizeLow - b.size + size ≤ maxsize
    omega

/-- No assertion fails on arrival. -/
theorem Fits.exists_receivePacket (h : Fits maxsize (· = size) q) (hsize : (size : ℤ) ≤ maxsize)
    (hp : p.isHeader = false → p.size = size) :
    ∃ q', q.receivePacket maxsize p coin = some q' := by
  unfold CompositeQueue.receivePacket
  split
  next hhead => exact exists_receiveHeader q hhead
  next hhead =>
    rw [Bool.not_eq_true] at hhead
    have hpsize := hp hhead
    split
    next hlow =>
      have hmade : ∃ q₁, (if maxsize < q.queuesizeLow + p.size then q.bootPacket maxsize
          else some q) = some q₁ ∧ q₁.queuesizeLow + p.size ≤ maxsize := by
        split_ifs with hroom
        · rw [hpsize] at hroom ⊢
          exact h.exists_bootPacket hsize hroom
        · exact ⟨q, rfl, not_lt.mp hroom⟩
      obtain ⟨q₁, hq₁, hroom⟩ := hmade
      rw [hq₁, Option.bind_some, if_pos hroom]
      exact exists_onLanes (Lanes.exists_wake fun h => List.cons_ne_nil _ _ h.1)
    next =>
      obtain ⟨r, hr⟩ := exists_stripPayload hhead
      rw [hr, Option.bind_some]
      obtain ⟨-, rfl⟩ := QueuePacket.stripPayload_eq.mp hr
      exact exists_receiveHeader _ rfl

end Sized

theorem exists_dequeue (hserv : q.serv ≠ .invalid) (hlane : q.lane q.serv ≠ []) :
    ∃ p q', q.dequeue = some (p, q') := by
  unfold dequeue
  split
  next hs =>
    rw [hs] at hlane
    have hlast : q.enqueuedLow.getLast? = some _ := List.getLast?_eq_some_getLast hlane
    rw [hlast]
    exact ⟨_, _, rfl⟩
  next hs =>
    rw [hs] at hlane
    have hlast : q.enqueuedHigh.getLast? = some _ := List.getLast?_eq_some_getLast hlane
    rw [hlast]
    exact ⟨_, _, rfl⟩
  next hs => exact absurd hs hserv

/-- A scheduled service completes. -/
theorem exists_doNextEvent (h : q.Busy) (hp : q.pending ≠ []) :
    ∃ p q', q.doNextEvent = some (p, q') := by
  have hserv : q.serv ≠ .invalid := fun hs => hp (h.pending_nil hs)
  obtain ⟨p, q₁, hd⟩ := exists_dequeue (q := { q with pending := q.pending.tail }) hserv
    (h.lane hserv)
  obtain ⟨q', hq'⟩ := exists_onLanes (Lanes.exists_resume q₁.toLanes)
  refine ⟨p, q', ?_⟩
  rw [doNextEvent, completeService, hd]
  change (q₁.onLanes Lanes.resume).bind _ = _
  rw [hq']
  rfl

/-- What is known of the sizes of the whole packets that arrive. -/
def Event.Sized (P : ℕ → Prop) : Event → Prop
  | .arrive p _ => p.isHeader = false → P p.size
  | .complete => True

instance (P : ℕ → Prop) [DecidablePred P] : (a : Event) → Decidable (a.Sized P)
  | .arrive p _ => inferInstanceAs (Decidable (p.isHeader = false → P p.size))
  | .complete => isTrue trivial

variable (maxsize) in
/-- The queue under whole packets of one size and any headers. -/
abbrev sizedSystem (size : ℕ) : System (Option CompositeQueue) Event :=
  (system maxsize).restrict fun _ a => a.Sized (· = size)

section Sized

variable {size : ℕ} {a : Event}

theorem step_complete (h : q.step maxsize .complete = some q') :
    ∃ p, q.doNextEvent = some (p, q') := by
  obtain ⟨⟨p, r⟩, hr, rfl⟩ := Option.map_eq_some_iff.mp h
  exact ⟨p, hr⟩

theorem busy_step (h : q.Busy) (hstep : q.step maxsize a = some q') : q'.Busy := by
  cases a with
  | arrive p coin => exact busy_receivePacket h hstep
  | complete =>
    obtain ⟨p, hp⟩ := step_complete hstep
    exact busy_doNextEvent h hp

theorem Fits.step {P : ℕ → Prop} (h : Fits maxsize P q) (ha : a.Sized P)
    (hstep : q.step maxsize a = some q') : Fits maxsize P q' := by
  cases a with
  | arrive p coin => exact h.receivePacket ha hstep
  | complete =>
    obtain ⟨p, hp⟩ := step_complete hstep
    exact h.doNextEvent hp

theorem Fits.exists_step (h : Fits maxsize (· = size) q) (hb : q.Busy)
    (hsize : (size : ℤ) ≤ maxsize) (ha : (sizedSystem maxsize size).enabled (some q) a) :
    ∃ q', q.step maxsize a = some q' := by
  cases a with
  | arrive p coin => exact h.exists_receivePacket hsize ha.2
  | complete =>
    obtain ⟨p, q', hq'⟩ := exists_doNextEvent hb ha.1
    exact ⟨q', by rw [CompositeQueue.step, hq']; rfl⟩

/-- In every state that is reached the sizes are right and no assertion has failed. -/
theorem sized_reachable {s : Option CompositeQueue} (hsize : (size : ℤ) ≤ maxsize)
    (h : (sizedSystem maxsize size).Reachable s) :
    ∃ q, s = some q ∧ Fits maxsize (· = size) q ∧ q.Busy := by
  induction h with
  | init hs =>
    exact ⟨_, hs, Fits.initial ((Int.natCast_nonneg size).trans hsize), Lanes.busy_empty⟩
  | @step s a _ ha ih =>
    obtain ⟨q, rfl, hf, hb⟩ := ih
    obtain ⟨q', hq'⟩ := hf.exists_step hb hsize ha
    exact ⟨q', hq', hf.step ha.2 hq', busy_step hb hq'⟩

/-- Both queues hold a packet. -/
def Waiting (s : Option CompositeQueue) : Prop :=
  ∀ q ∈ s, q.enqueuedLow ≠ [] ∧ q.enqueuedHigh ≠ []

instance : (s : Option CompositeQueue) → Decidable (Waiting s)
  | none => isTrue fun _ h => by cases h
  | some q => decidable_of_iff (q.enqueuedLow ≠ [] ∧ q.enqueuedHigh ≠ [])
      ⟨fun h _ hr => Option.some.inj hr ▸ h, fun h => h q rfl⟩

/-- While both queues wait an arrival starts no service and a completion starts the next. -/
theorem rotated_step {q₀ : Lanes} {n : ℕ} (hrot : Lanes.Rotated q₀ n q.toLanes) (hb : q.Busy)
    (hq : Waiting (some q)) (hq' : Waiting (some q')) (hstep : q.step maxsize a = some q') :
    Lanes.Rotated q₀ (n + if a = .complete then 1 else 0) q'.toLanes := by
  cases a with
  | arrive p coin =>
    rcases receivePacket_lanes hstep with he | ⟨t, ht, hw⟩
    · rw [he]
      exact hrot
    · have hserv : t.serv ≠ .invalid := by
        rw [ht.same.serv]
        exact fun hs => (hq q rfl).1 (hb.idle hs).1
      rcases Lanes.wake_cases hw with ⟨-, he⟩ | ⟨hs, -⟩
      · rw [he]
        exact ⟨ht.same.services.trans hrot.services, by rw [ht.same.crt]; exact hrot.crt⟩
      · exact absurd hs hserv
  | complete =>
    obtain ⟨p, hp⟩ := step_complete hstep
    obtain ⟨t, hcrt, -, hservices, -, hres⟩ := doNextEvent_lanes hp
    obtain ⟨hlow, hhigh⟩ := hq' q' rfl
    rcases Lanes.resume_cases hres with ⟨⟨he, -⟩, -⟩ | hbegins
    · exact absurd ((Lanes.resume_lists hres).1.trans he) hlow
    · refine hrot.begins ?_ ?_ hb.crt hbegins hlow hhigh
      · exact hservices
      · exact hcrt

theorem rotated_run {q₀ : Lanes} {n : ℕ} {l : List Event} (hsize : (size : ℤ) ≤ maxsize)
    (hf : Fits maxsize (· = size) q) (hb : q.Busy) (hrot : Lanes.Rotated q₀ n q.toLanes)
    (hl : (sizedSystem maxsize size).Allowed (some q) l)
    (hwait : ∀ k ≤ l.length, Waiting ((sizedSystem maxsize size).run (some q) (l.take k))) :
    ∃ q', (sizedSystem maxsize size).run (some q) l = some q' ∧
      Lanes.Rotated q₀ (n + l.count .complete) q'.toLanes := by
  induction l generalizing q n with
  | nil => exact ⟨q, rfl, hrot⟩
  | cons a l ih =>
    obtain ⟨q₁, hq₁⟩ := hf.exists_step hb hsize hl.1
    have hnext : (sizedSystem maxsize size).next (some q) a = some q₁ := hq₁
    have htake (k : ℕ) (hk : k ≤ l.length) :
        Waiting ((sizedSystem maxsize size).run (some q₁) (l.take k)) := by
      have := hwait (k + 1) (by simpa using hk)
      rwa [List.take_succ_cons, System.run, hnext] at this
    have hstep := rotated_step hrot hb (hwait 0 (Nat.zero_le _)) (htake 0 (Nat.zero_le _)) hq₁
    have hallowed := hl.2
    rw [hnext] at hallowed
    obtain ⟨q', hrun, hrot'⟩ := ih (hf.step hl.1.2 hq₁) (busy_step hb hq₁) hstep hallowed htake
    refine ⟨q', by rw [System.run, hnext, hrun], ?_⟩
    rw [List.count_cons, add_comm (l.count _), ← add_assoc]
    simpa using hrot'

end Sized

end CompositeQueue

open CompositeQueue in
/-- The two sizes are the bytes that are queued, no assertion fails, and while both queues
wait one service in eleven is for the low one. -/
theorem composite_invariants (maxsize : ℤ) (size : ℕ) (hsize : (size : ℤ) ≤ maxsize)
    (s : Option CompositeQueue) (hs : (sizedSystem maxsize size).Reachable s) :
    ∃ q, s = some q ∧
      q.queuesizeLow = totalSize q.enqueuedLow ∧ q.queuesizeLow ≤ maxsize ∧
      q.queuesizeHigh = totalSize q.enqueuedHigh ∧ q.queuesizeHigh ≤ maxsize ∧
      (q.serv = .invalid ↔ q.enqueuedLow = [] ∧ q.enqueuedHigh = []) ∧
      ∀ l, (sizedSystem maxsize size).Allowed (some q) l →
        (∀ k ≤ l.length, Waiting ((sizedSystem maxsize size).run (some q) (l.take k))) →
        ∃ q' begun, (sizedSystem maxsize size).run (some q) l = some q' ∧
          q'.services = q.services ++ begun ∧ begun.length = l.count .complete ∧
          ∀ w, w <:+: begun → w.length = 11 → w.count .low = 1 := by
  obtain ⟨q, rfl, hf, hb⟩ := sized_reachable hsize hs
  refine ⟨q, rfl, hf.low, hf.low_le, hf.high, hf.high_le, hb.invalid_iff, ?_⟩
  intro l hl hwait
  obtain ⟨q', hrun, hrot⟩ := rotated_run hsize hf hb (Lanes.rotated_refl _) hl hwait
  refine ⟨q', _, hrun, hrot.services, by simp, ?_⟩
  rintro w ⟨a, b, hab⟩ hlen
  exact hrot.count_low ⟨a, b, by rw [hrot.services, hab]⟩ hlen

/-- A packet of 500 bytes and an acknowledgement of one flow. -/
def labData : QueuePacket := ⟨0, .ndp, 500, false, false, true, 1⟩

def labAck : QueuePacket := ⟨1, .ndpAck, 64, true, false, true, 1⟩

def labArrivals : List CompositeQueue.Event :=
  List.replicate 3 (.arrive labData false) ++ List.replicate 12 (.arrive labAck false)

open CompositeQueue in
/-- Three packets and twelve acknowledgements: the first packet is served when it comes, and
nine acknowledgements before the next one. -/
theorem composite_invariants_lab :
    ∃ q q', (sizedSystem 1500 500).run (some initial) labArrivals = some q ∧
      (sizedSystem 1500 500).run (some q) (List.replicate 11 .complete) = some q' ∧
      ∃ begun, q'.services = q.services ++ begun ∧ begun.length = 11 ∧
        begun.count .low = 1 := by
  have hreach : (sizedSystem 1500 500).Reachable
      ((sizedSystem 1500 500).run (some initial) labArrivals) :=
    System.Reachable.run (.init rfl) (by decide +kernel)
  obtain ⟨q, hq, -, -, -, -, -, hwin⟩ := composite_invariants 1500 500 (by decide) _ hreach
  have hallowed : (sizedSystem 1500 500).Allowed
      ((sizedSystem 1500 500).run (some initial) labArrivals)
      (List.replicate 11 .complete) := by decide +kernel
  have hwait : ∀ k ≤ (List.replicate 11 Event.complete).length,
      Waiting ((sizedSystem 1500 500).run
        ((sizedSystem 1500 500).run (some initial) labArrivals)
        ((List.replicate 11 Event.complete).take k)) := by decide +kernel
  rw [hq] at hallowed hwait
  obtain ⟨q', begun, hrun, hservices, hlen, hcount⟩ := hwin _ hallowed hwait
  have hlen' : begun.length = 11 := hlen.trans (by decide)
  exact ⟨q, q', hq, hrun, begun, hservices, hlen', hcount begun List.infix_rfl hlen'⟩

namespace CompositeQueue

variable (maxsize : ℤ) (q : CompositeQueue)

def served : ℕ := q.numPackets + q.numHeaders + q.numAcks + q.numNacks + q.numPulls

def queued : ℕ := q.enqueuedLow.length + q.enqueuedHigh.length

/-- The packets that the queue knows what became of. -/
def accounts : ℕ := q.served + q.queued + q.numBounced + q.numDrops

def Event.arrivals : Event → ℕ
  | .arrive _ _ => 1
  | .complete => 0

/-- The packet that has to make room finds none for its header and cannot go back. -/
def LosesBooted : Event → Prop
  | .arrive p coin => p.isHeader = false ∧ maxsize < q.queuesizeLow + p.size ∧ coin = true ∧
      ∃ b ∈ q.enqueuedLow.head?, maxsize < q.queuesizeHigh + b.strippedSize ∧ ¬ Returns b
  | .complete => False

instance : (a : Event) → Decidable (q.LosesBooted maxsize a)
  | .arrive _ _ => inferInstanceAs (Decidable (_ ∧ _ ∧ _ ∧ ∃ b ∈ _, _))
  | .complete => isFalse id

variable {maxsize q} {q' : CompositeQueue} {p : QueuePacket} {coin : Bool} {a : Event}

theorem accounts_lanes {t : Lanes}
    (ht : t.enqueuedLow = q.enqueuedLow ∧ t.enqueuedHigh = q.enqueuedHigh) :
    accounts { q with toLanes := t } = q.accounts := by
  simp only [accounts, served, queued, ht.1, ht.2]

theorem accounts_wake (h : q.wake = some q') : q'.accounts = q.accounts := by
  obtain ⟨t, ht, rfl⟩ := onLanes_eq h
  exact accounts_lanes (Lanes.wake_lists ht)

@[simp] theorem accounts_pushHigh : (q.pushHigh p).accounts = q.accounts + 1 := by
  simp only [accounts, served, queued, pushHigh, List.length_cons]
  omega

@[simp] theorem accounts_pushLow : (q.pushLow p).accounts = q.accounts + 1 := by
  simp only [accounts, served, queued, pushLow, List.length_cons]
  omega

theorem accounts_receiveHeader (h : q.receiveHeader maxsize p = some q') :
    q'.accounts = q.accounts + 1 := by
  obtain ⟨-, ⟨-, ⟨-, rfl⟩ | ⟨-, rfl⟩⟩ | ⟨-, hw⟩⟩ := receiveHeader_cases h
  · simp only [accounts, served, queued]
    omega
  · simp only [accounts, served, queued]
    omega
  · rw [accounts_wake hw, accounts_pushHigh]

/-- The packet that makes room is queued again, goes back or is lost without a count. -/
theorem accounts_bootPacket (h : q.bootPacket maxsize = some q') :
    (q'.accounts = q.accounts ∧
        ∀ b ∈ q.enqueuedLow.head?, maxsize < q.queuesizeHigh + b.strippedSize → Returns b) ∨
      q'.accounts + 1 = q.accounts ∧
        ∃ b ∈ q.enqueuedLow.head?, maxsize < q.queuesizeHigh + b.strippedSize ∧ ¬ Returns b := by
  obtain ⟨b, low, r, hlow, hr, rfl⟩ := bootPacket_eq h
  obtain ⟨-, rfl⟩ := QueuePacket.stripPayload_eq.mp hr
  have hhead : q.enqueuedLow.head? = some b := by rw [hlow]; rfl
  rw [hhead]
  have hlength : q.enqueuedLow.length = low.length + 1 := by rw [hlow]; rfl
  rcases placeBooted_cases maxsize { q with
      enqueuedLow := low
      queuesizeLow := q.queuesizeLow - b.size
      numStripped := q.numStripped + 1 } { b with isHeader := true, size := b.strippedSize }
    with ⟨hfull, ⟨hret, he⟩ | ⟨hret, he⟩⟩ | ⟨hroom, he⟩
  · left
    refine ⟨?_, fun c hc _ => Option.some.inj hc ▸ hret⟩
    rw [he]
    simp only [accounts, served, queued, hlength]
    omega
  · right
    refine ⟨?_, b, rfl, hfull, hret⟩
    rw [he]
    simp only [accounts, served, queued, hlength]
    omega
  · left
    refine ⟨?_, fun c hc hfull => absurd hroom (not_le.mpr (Option.some.inj hc ▸ hfull))⟩
    rw [he, accounts_pushHigh]
    simp only [accounts, served, queued, hlength]
    omega

theorem accounts_receivePacket (h : q.receivePacket maxsize p coin = some q') :
    q'.accounts + (if q.LosesBooted maxsize (.arrive p coin) then 1 else 0) = q.accounts + 1 := by
  rcases receivePacket_cases h with ⟨hp, hh⟩ | ⟨hp, q₁, hq₁, -, hw⟩ | ⟨-, -, hcoin, r, -, hh⟩
  · have hnot : ¬ q.LosesBooted maxsize (.arrive p coin) := fun hl =>
      Bool.false_ne_true (hl.1.symm.trans hp)
    rw [if_neg hnot, add_zero, accounts_receiveHeader hh]
  · rw [accounts_wake hw, accounts_pushLow]
    rcases hq₁ with ⟨hroom, rfl⟩ | ⟨hroom, hcoin, hb⟩
    · have hnot : ¬ q₁.LosesBooted maxsize (.arrive p coin) := fun hl =>
        absurd hl.2.1 (not_lt.mpr hroom)
      rw [if_neg hnot, add_zero]
    · rcases accounts_bootPacket hb with ⟨he, hret⟩ | ⟨he, hlost⟩
      · have hnot : ¬ q.LosesBooted maxsize (.arrive p coin) := by
          rintro ⟨-, -, -, b, hb, hfull, hback⟩
          exact hback (hret b hb hfull)
        rw [if_neg hnot, he, add_zero]
      · rw [if_pos ⟨hp, hroom, hcoin, hlost⟩]
        omega
  · have hnot : ¬ q.LosesBooted maxsize (.arrive p coin) := fun hl =>
      Bool.false_ne_true (hcoin.symm.trans hl.2.2.1)
    rw [if_neg hnot, add_zero, accounts_receiveHeader hh]
    rfl

theorem accounts_countServed (t : PacketType) : (q.countServed t).accounts = q.accounts + 1 := by
  have hlanes : (q.countServed t).queued = q.queued := by
    simp only [queued, countServed_toLanes]
  simp only [accounts, hlanes]
  cases t <;> simp only [countServed, served] <;> omega

theorem accounts_doNextEvent (h : q.doNextEvent = some (p, q')) : q'.accounts = q.accounts := by
  obtain ⟨q₁, hd, hres⟩ := doNextEvent_eq h
  obtain ⟨t, ht, rfl⟩ := onLanes_eq hres
  rw [accounts_lanes (Lanes.resume_lists ht)]
  rcases dequeue_cases hd with ⟨-, low, hlow, rfl⟩ | ⟨-, high, hhigh, rfl⟩
  · have hlength : q.enqueuedLow.length = low.length + 1 := by
      rw [show q.enqueuedLow = low ++ [p] from hlow, List.length_append]
      rfl
    simp only [accounts, served, queued, hlength]
    omega
  · have hlength : q.enqueuedHigh.length = high.length + 1 := by
      rw [show q.enqueuedHigh = high ++ [p] from hhigh, List.length_append]
      rfl
    rw [accounts_countServed]
    simp only [accounts, served, queued, hlength]
    omega

/-- Each step counts each packet once, except where a packet that made room is lost. -/
theorem accounts_step (h : q.step maxsize a = some q') :
    q'.accounts + (if q.LosesBooted maxsize a then 1 else 0) = q.accounts + a.arrivals := by
  cases a with
  | arrive p coin => exact accounts_receivePacket h
  | complete =>
    obtain ⟨p, hp⟩ := step_complete h
    have hnot : ¬ q.LosesBooted maxsize .complete := id
    rw [if_neg hnot, accounts_doNextEvent hp]
    rfl

/-- No step of the run loses a packet that made room. -/
abbrev countingSystem (maxsize : ℤ) : System (Option CompositeQueue) Event :=
  (system maxsize).restrict fun s a => ∀ q ∈ s, ¬ q.LosesBooted maxsize a

theorem run_none (l : List Event) : (system maxsize).run none l = none := by
  induction l with
  | nil => rfl
  | cons a l ih => exact ih

theorem accounts_run {l : List Event} (hl : (system maxsize).Allowed (some q) l)
    (hrun : (system maxsize).run (some q) l = some q') :
    q'.accounts ≤ q.accounts + (l.map Event.arrivals).sum ∧
      (q'.accounts = q.accounts + (l.map Event.arrivals).sum ↔
        (countingSystem maxsize).Allowed (some q) l) := by
  induction l generalizing q with
  | nil =>
    obtain rfl : q = q' := Option.some.inj hrun
    exact ⟨le_rfl, by simp [System.Allowed]⟩
  | cons a l ih =>
    obtain ⟨ha, hl⟩ := hl
    rw [System.run] at hrun
    cases hstep : q.step maxsize a with
    | none =>
      rw [show (system maxsize).next (some q) a = none from hstep, run_none] at hrun
      cases hrun
    | some q₁ =>
      have hnext : (system maxsize).next (some q) a = some q₁ := hstep
      rw [hnext] at hrun hl
      obtain ⟨hle, hiff⟩ := ih hl hrun
      have hone := accounts_step hstep
      have hallowed : (countingSystem maxsize).Allowed (some q) (a :: l) ↔
          ¬ q.LosesBooted maxsize a ∧ (countingSystem maxsize).Allowed (some q₁) l := by
        change (_ ∧ ∀ r ∈ some q, _) ∧ (countingSystem maxsize).Allowed (q.step maxsize a) l ↔ _
        rw [hstep]
        simp [ha]
      rw [hallowed, ← hiff, List.map_cons, List.sum_cons]
      split_ifs at hone with hlost
      · refine ⟨by omega, fun he => by omega, fun he => absurd hlost he.1⟩
      · refine ⟨by omega, fun he => ⟨hlost, by omega⟩, fun he => by omega⟩

end CompositeQueue

open CompositeQueue in
/-- The counters account for every packet that arrived exactly in the runs in which no
packet that had to make room was lost. -/
theorem composite_accounts_iff (maxsize : ℤ) (l : List CompositeQueue.Event) (q : CompositeQueue)
    (hl : (system maxsize).Allowed (some initial) l)
    (hrun : (system maxsize).run (some initial) l = some q) :
    (l.map Event.arrivals).sum = q.served + q.queued + q.numBounced + q.numDrops ↔
      (countingSystem maxsize).Allowed (some initial) l := by
  have h := (accounts_run hl hrun).2
  rw [← h]
  change _ = q.accounts ↔ _
  simp only [show initial.accounts = 0 from rfl, zero_add]
  exact eq_comm

open CompositeQueue in
/-- While there is room every packet is accounted for. -/
theorem composite_accounts_iff_lab :
    ∃ q, (system 1500).run (some initial) labArrivals = some q ∧
      (labArrivals.map Event.arrivals).sum = q.served + q.queued + q.numBounced + q.numDrops := by
  obtain ⟨q, hq⟩ : ∃ q, (system 1500).run (some initial) labArrivals = some q :=
    Option.isSome_iff_exists.mp (by decide +kernel)
  refine ⟨q, hq, ?_⟩
  exact (composite_accounts_iff 1500 labArrivals q (by decide +kernel) hq).mpr (by decide +kernel)

/-- A packet of 1500 bytes whose route has no reverse. -/
def labOneWay (ref : ℕ) : QueuePacket := ⟨ref, .ndp, 1500, false, false, false, 1⟩

/-- Twenty-three acknowledgements fill the high queue, and a second packet takes the place of
the first. -/
def labLosing : List CompositeQueue.Event :=
  .arrive (labOneWay 0) false :: List.replicate 23 (.arrive labAck false) ++
    [.arrive (labOneWay 2) true]

open CompositeQueue in
/-- The first packet is gone and no counter tells. -/
theorem booted_packet_uncounted :
    (system 1500).Allowed (some initial) labLosing ∧
      (labLosing.map Event.arrivals).sum = 25 ∧
      ∃ q, (system 1500).run (some initial) labLosing = some q ∧
        q.served + q.queued + q.numBounced + q.numDrops = 24 := by
  refine ⟨by decide +kernel, by decide +kernel, ?_⟩
  refine ⟨((system 1500).run (some initial) labLosing).get (by decide +kernel), ?_, ?_⟩
  · exact (Option.some_get _).symm
  · decide +kernel

end P4Survey.Ndp
