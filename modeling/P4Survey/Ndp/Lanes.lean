import Mathlib.Tactic

/-! # Two queues on one link

What `compositequeue.cpp` and `compositeprioqueue.cpp` share: a queue of packets
and a queue of headers, of which the second is served ten times as often. Packets
are added at the front of a queue and served from its back. A failed assertion
ends the simulation, here with `none`.
-/

namespace P4Survey.Ndp

/-- `packet_type` of `network.h`. -/
inductive PacketType where
  | ip | tcp | tcpAck | tcpNack | ndp | ndpAck | ndpNack | ndpPull | ndpLite | ndpLiteAck
  | ndpLitePull | ndpLiteRts | ethPause
  deriving DecidableEq

/-- What a queue reads of a packet. `ref` says which packet it is, `reverseRoute` whether
its route has a reverse. -/
structure QueuePacket where
  ref : ℕ
  type : PacketType
  size : ℕ
  isHeader : Bool
  bounced : Bool
  reverseRoute : Bool
  pathLen : ℕ
  deriving DecidableEq

/-- `ACKSIZE`, the size of a packet without payload. -/
def ackSize : ℕ := 64

namespace QueuePacket

/-- The size after the payload is gone: only `NdpPacket` changes it. -/
def strippedSize (p : QueuePacket) : ℕ := if p.type = .ndp then ackSize else p.size

/-- A header has no payload to strip. -/
def stripPayload (p : QueuePacket) : Option QueuePacket :=
  if p.isHeader then none else some { p with isHeader := true, size := p.strippedSize }

theorem stripPayload_eq {p p' : QueuePacket} :
    p.stripPayload = some p' ↔
      p.isHeader = false ∧ p' = { p with isHeader := true, size := p.strippedSize } := by
  cases hp : p.isHeader with
  | false => simp [stripPayload, hp, eq_comm]
  | true => simp [stripPayload, hp]

end QueuePacket

/-- The bytes of the packets in a queue. -/
def totalSize (l : List QueuePacket) : ℤ := (l.map fun p => (p.size : ℤ)).sum

@[simp] theorem totalSize_nil : totalSize [] = 0 := rfl

@[simp] theorem totalSize_cons (p : QueuePacket) (l : List QueuePacket) :
    totalSize (p :: l) = p.size + totalSize l := rfl

@[simp] theorem totalSize_append (l l' : List QueuePacket) :
    totalSize (l ++ l') = totalSize l + totalSize l' := by
  simp [totalSize]

/-- `_serv`: the queue in service. -/
inductive Serv where
  | invalid | low | high
  deriving DecidableEq

/-- The queues and the service of them. `pending` holds the packets whose end of
transmission is scheduled and `services` the queues that were served so far; neither is
read by the code. -/
structure Lanes where
  enqueuedLow : List QueuePacket
  enqueuedHigh : List QueuePacket
  serv : Serv
  crt : ℕ
  pending : List QueuePacket
  services : List Serv
  deriving DecidableEq

namespace Lanes

def ratioHigh : ℕ := 10

def ratioLow : ℕ := 1

def empty : Lanes := ⟨[], [], .invalid, 0, [], []⟩

def lane (q : Lanes) : Serv → List QueuePacket
  | .invalid => []
  | .low => q.enqueuedLow
  | .high => q.enqueuedHigh

/-- The drain time of a packet is scheduled. -/
def start (q : Lanes) (s : Serv) (p : QueuePacket) : Lanes :=
  { q with serv := s, pending := q.pending ++ [p], services := q.services ++ [s] }

/-- `_crt` goes round. -/
def nextCrt (crt : ℕ) : ℕ := if ratioHigh + ratioLow ≤ crt + 1 then 0 else crt + 1

def beginService (q : Lanes) : Option Lanes :=
  match q.enqueuedHigh.getLast?, q.enqueuedLow.getLast? with
  | some h, some l =>
    let crt := nextCrt q.crt
    if crt < ratioHigh then some ({ q with crt := crt }.start .high h)
    else if crt < ratioHigh + ratioLow then some ({ q with crt := crt }.start .low l)
    else none
  | some h, none => some (q.start .high h)
  | none, some l => some (q.start .low l)
  | none, none => none

/-- The last step of an arrival: start to serve if nothing is in service. -/
def wake (q : Lanes) : Option Lanes := if q.serv = .invalid then q.beginService else some q

/-- The last step of a service: start the next one if anything is queued. -/
def resume (q : Lanes) : Option Lanes :=
  if q.enqueuedHigh = [] ∧ q.enqueuedLow = [] then some { q with serv := .invalid }
  else beginService { q with serv := .invalid }

/-- Which queue has its turn when both wait. -/
def turn (crt : ℕ) : Serv := if crt % 11 < 10 then .high else .low

/-- All that `beginService` does. -/
structure Begins (q q' : Lanes) : Prop where
  low : q'.enqueuedLow = q.enqueuedLow
  high : q'.enqueuedHigh = q.enqueuedHigh
  packet : ∃ p, (q'.lane q'.serv).getLast? = some p ∧ q'.pending = q.pending ++ [p]
  services : q'.services = q.services ++ [q'.serv]
  crt : q.crt < 11 → q'.crt < 11
  turn : q.crt < 11 → q.enqueuedLow ≠ [] → q.enqueuedHigh ≠ [] →
    q'.crt % 11 = (q.crt + 1) % 11 ∧ q'.serv = turn (q.crt + 1)

variable {q q' : Lanes}

theorem nextCrt_lt (crt : ℕ) : nextCrt crt < 11 := by
  unfold nextCrt ratioHigh ratioLow
  split_ifs <;> omega

theorem nextCrt_eq {crt : ℕ} (h : crt < 11) : nextCrt crt = (crt + 1) % 11 := by
  unfold nextCrt ratioHigh ratioLow
  split_ifs <;> omega

theorem turn_of_nextCrt {crt : ℕ} (h : crt < 11) :
    turn (crt + 1) = if nextCrt crt < ratioHigh then .high else .low := by
  rw [turn, nextCrt_eq h]
  rfl

theorem begins (h : q.beginService = some q') : Begins q q' := by
  unfold beginService at h
  split at h
  next p r hhigh hlow =>
    have hmod : q.crt < 11 → nextCrt q.crt % 11 = (q.crt + 1) % 11 := fun hc => by
      rw [nextCrt_eq hc, Nat.mod_mod]
    by_cases hturn : nextCrt q.crt < ratioHigh
    · rw [if_pos hturn] at h
      cases h
      refine ⟨rfl, rfl, ⟨p, hhigh, rfl⟩, rfl, fun _ => nextCrt_lt q.crt, fun hc _ _ => ?_⟩
      exact ⟨hmod hc, by rw [turn_of_nextCrt hc, if_pos hturn]; rfl⟩
    · rw [if_neg hturn] at h
      simp only [if_pos (show nextCrt q.crt < ratioHigh + ratioLow from nextCrt_lt q.crt)] at h
      cases h
      refine ⟨rfl, rfl, ⟨r, hlow, rfl⟩, rfl, fun _ => nextCrt_lt q.crt, fun hc _ _ => ?_⟩
      exact ⟨hmod hc, by rw [turn_of_nextCrt hc, if_neg hturn]; rfl⟩
  next p hhigh hlow =>
    cases h
    exact ⟨rfl, rfl, ⟨p, hhigh, rfl⟩, rfl, id,
      fun _ hne _ => absurd (List.getLast?_eq_none_iff.mp hlow) hne⟩
  next p hhigh hlow =>
    cases h
    exact ⟨rfl, rfl, ⟨p, hlow, rfl⟩, rfl, id,
      fun _ _ hne => absurd (List.getLast?_eq_none_iff.mp hhigh) hne⟩
  next => cases h

theorem exists_beginService (h : ¬ (q.enqueuedLow = [] ∧ q.enqueuedHigh = [])) :
    ∃ q', q.beginService = some q' := by
  unfold beginService
  split
  next =>
    by_cases hturn : nextCrt q.crt < ratioHigh
    · exact ⟨_, if_pos hturn⟩
    · rw [if_neg hturn]
      exact ⟨_, if_pos (nextCrt_lt q.crt)⟩
  next => exact ⟨_, rfl⟩
  next => exact ⟨_, rfl⟩
  next hhigh hlow =>
    exact absurd ⟨List.getLast?_eq_none_iff.mp hlow, List.getLast?_eq_none_iff.mp hhigh⟩ h

/-- One service at a time. An idle queue may still hold a packet that has just come. -/
structure Ready (q : Lanes) : Prop where
  crt : q.crt < 11
  lane : q.serv ≠ .invalid → q.lane q.serv ≠ []
  pending : q.pending.length = if q.serv = .invalid then 0 else 1

/-- Between two events: nothing waits unless something is in service. -/
structure Busy (q : Lanes) : Prop extends Ready q where
  idle : q.serv = .invalid → q.enqueuedLow = [] ∧ q.enqueuedHigh = []

theorem busy_empty : Busy empty := ⟨⟨by decide, fun h => absurd rfl h, rfl⟩, fun _ => ⟨rfl, rfl⟩⟩

theorem Busy.invalid_iff (h : Busy q) :
    q.serv = .invalid ↔ q.enqueuedLow = [] ∧ q.enqueuedHigh = [] := by
  refine ⟨h.idle, fun ⟨hlow, hhigh⟩ => ?_⟩
  by_contra hne
  apply h.lane hne
  cases q.serv with
  | invalid => rfl
  | low => exact hlow
  | high => exact hhigh

theorem Begins.busy (h : Begins q q') (hcrt : q.crt < 11) (hpending : q.pending = []) :
    Busy q' := by
  obtain ⟨p, hlast, hp⟩ := h.packet
  have hne : q'.lane q'.serv ≠ [] := List.ne_nil_of_mem (List.mem_of_getLast? hlast)
  have hserv : q'.serv ≠ .invalid := fun hs => hne (by rw [hs]; rfl)
  refine ⟨⟨h.crt hcrt, fun _ => hne, ?_⟩, fun hs => absurd hs hserv⟩
  rw [hp, hpending, if_neg hserv]
  rfl

theorem wake_cases (h : q.wake = some q') :
    q.serv ≠ .invalid ∧ q' = q ∨ q.serv = .invalid ∧ Begins q q' := by
  unfold wake at h
  split_ifs at h with hs
  · exact .inr ⟨hs, begins h⟩
  · exact .inl ⟨hs, (Option.some.inj h).symm⟩

theorem resume_cases (h : q.resume = some q') :
    (q.enqueuedLow = [] ∧ q.enqueuedHigh = []) ∧ q' = { q with serv := .invalid } ∨
      Begins { q with serv := .invalid } q' := by
  unfold resume at h
  split_ifs at h with he
  · exact .inl ⟨he.symm, (Option.some.inj h).symm⟩
  · exact .inr (begins h)

theorem wake_lists (h : q.wake = some q') :
    q'.enqueuedLow = q.enqueuedLow ∧ q'.enqueuedHigh = q.enqueuedHigh := by
  rcases wake_cases h with ⟨-, rfl⟩ | ⟨-, hb⟩
  · exact ⟨rfl, rfl⟩
  · exact ⟨hb.low, hb.high⟩

theorem resume_lists (h : q.resume = some q') :
    q'.enqueuedLow = q.enqueuedLow ∧ q'.enqueuedHigh = q.enqueuedHigh := by
  rcases resume_cases h with ⟨-, rfl⟩ | hb
  · exact ⟨rfl, rfl⟩
  · exact ⟨hb.low, hb.high⟩

theorem Ready.pending_nil (h : Ready q) (hs : q.serv = .invalid) : q.pending = [] := by
  rw [← List.length_eq_zero_iff, h.pending, if_pos hs]

theorem Ready.tail_pending (h : Ready q) : q.pending.tail = [] := by
  have hlen := h.pending
  rw [← List.length_eq_zero_iff, List.length_tail]
  split_ifs at hlen <;> omega

/-- An arrival that ends in `wake` may only have changed what is queued. -/
structure SameService (q q' : Lanes) : Prop where
  serv : q'.serv = q.serv
  crt : q'.crt = q.crt
  pending : q'.pending = q.pending
  services : q'.services = q.services

theorem Ready.same (h : Ready q) (hs : SameService q q')
    (hlane : ∀ s, q.lane s ≠ [] → q'.lane s ≠ []) : Ready q' := by
  refine ⟨hs.crt ▸ h.crt, ?_, ?_⟩
  · rw [hs.serv]
    exact fun hne => hlane _ (h.lane hne)
  · rw [hs.pending, hs.serv, h.pending]

theorem Ready.busy_of_wake (h : Ready q) (hw : q.wake = some q') : Busy q' := by
  rcases wake_cases hw with ⟨hs, rfl⟩ | ⟨hs, hb⟩
  · exact ⟨h, fun hs' => absurd hs' hs⟩
  · exact hb.busy h.crt (h.pending_nil hs)

/-- An arrival that leaves a packet does not end the simulation. -/
theorem exists_wake (hne : ¬ (q.enqueuedLow = [] ∧ q.enqueuedHigh = [])) :
    ∃ q', q.wake = some q' := by
  by_cases hs : q.serv = .invalid
  · obtain ⟨q', hq'⟩ := exists_beginService hne
    exact ⟨q', by rw [Lanes.wake, if_pos hs, hq']⟩
  · exact ⟨q, if_neg hs⟩

theorem exists_resume (q : Lanes) : ∃ q', q.resume = some q' := by
  by_cases he : q.enqueuedHigh = [] ∧ q.enqueuedLow = []
  · exact ⟨_, if_pos he⟩
  · obtain ⟨q', hq'⟩ := exists_beginService (q := { q with serv := .invalid })
      fun h => he h.symm
    exact ⟨q', by rw [Lanes.resume, if_neg he, hq']⟩

theorem busy_of_resume (hcrt : q.crt < 11) (hpending : q.pending = [])
    (hr : q.resume = some q') : Busy q' := by
  rcases resume_cases hr with ⟨he, rfl⟩ | hb
  · refine ⟨⟨hcrt, fun h => absurd rfl h, ?_⟩, fun _ => he⟩
    change q.pending.length = 0
    rw [hpending]
    rfl
  · exact hb.busy hcrt hpending

/-- The packet whose end of transmission is scheduled is the one to be served. -/
def Held (q : Lanes) : Prop := ∀ p ∈ q.pending, (q.lane q.serv).getLast? = some p

theorem Begins.held (h : Begins q q') (hpending : q.pending = []) : Held q' := by
  obtain ⟨p, hlast, hp⟩ := h.packet
  intro r hr
  rw [hp, hpending, List.nil_append, List.mem_singleton] at hr
  rw [hr, hlast]

theorem Held.same (h : Held q) (hs : SameService q q')
    (hlane : ∀ p, (q.lane q.serv).getLast? = some p → (q'.lane q.serv).getLast? = some p) :
    Held q' := by
  intro p hp
  rw [hs.pending] at hp
  rw [hs.serv]
  exact hlane p (h p hp)

theorem Held.wake (h : Held q) (hr : Ready q) (hw : q.wake = some q') : Held q' := by
  rcases wake_cases hw with ⟨-, rfl⟩ | ⟨hs, hb⟩
  · exact h
  · exact hb.held (hr.pending_nil hs)

theorem held_resume (hpending : q.pending = []) (hw : q.resume = some q') : Held q' := by
  rcases resume_cases hw with ⟨-, rfl⟩ | hb
  · intro p hp
    rw [hpending] at hp
    cases hp
  · exact hb.held hpending

/-- The next `n` services began with packets in both queues. -/
structure Rotated (q : Lanes) (n : ℕ) (q' : Lanes) : Prop where
  services : q'.services = q.services ++ (List.range' (q.crt + 1) n).map turn
  crt : q'.crt % 11 = (q.crt + n) % 11

theorem rotated_refl (q : Lanes) : Rotated q 0 q := ⟨by simp, rfl⟩

theorem turn_congr {a b : ℕ} (h : a % 11 = b % 11) : turn a = turn b := by
  rw [turn, turn, h]

theorem Rotated.begins {q₁ q₂ : Lanes} {n : ℕ} (h : Rotated q n q')
    (hservices : q₁.services = q'.services) (hcrt : q₁.crt = q'.crt) (hlt : q'.crt < 11)
    (hb : Begins q₁ q₂) (hlow : q₂.enqueuedLow ≠ []) (hhigh : q₂.enqueuedHigh ≠ []) :
    Rotated q (n + 1) q₂ := by
  rw [hb.low] at hlow
  rw [hb.high] at hhigh
  obtain ⟨hc, hs⟩ := hb.turn (hcrt ▸ hlt) hlow hhigh
  have hnext : (q₁.crt + 1) % 11 = (q.crt + 1 + n) % 11 := by
    have := h.crt
    omega
  constructor
  · rw [hb.services, hservices, h.services, hs, turn_congr hnext, List.range'_concat]
    simp
  · omega

/-- A low turn comes once in eleven. -/
theorem count_turn (s : ℕ) : ((List.range' s 11).map turn).count .low = 1 := by
  have hr : s % 11 < 11 := Nat.mod_lt s (by decide)
  have hs : ∀ i, turn (s + i) = turn (s % 11 + i) := fun i => turn_congr (by omega)
  have hmap : (List.range' s 11).map turn = (List.range' (s % 11) 11).map turn := by
    simp only [List.range'_eq_map_range, List.map_map, Function.comp_def, hs]
  rw [hmap]
  generalize s % 11 = r at hr
  interval_cases r <;> decide

/-- While both queues wait, any eleven services in a row hold one of the low queue. -/
theorem Rotated.count_low {n : ℕ} {w : List Serv} (h : Rotated q n q')
    (hw : ∃ a b, q'.services = q.services ++ (a ++ w ++ b)) (hlen : w.length = 11) :
    w.count .low = 1 := by
  obtain ⟨a, b, hab⟩ := hw
  rw [h.services, List.append_cancel_left_eq, List.map_eq_append_iff] at hab
  obtain ⟨u, v, huv, hu, -⟩ := hab
  obtain ⟨k, -, rfl, -⟩ := List.range'_eq_append_iff.mp huv
  obtain ⟨u₁, u₂, hu₁₂, -, rfl⟩ := List.map_eq_append_iff.mp hu
  obtain ⟨j, -, rfl, rfl⟩ := List.range'_eq_append_iff.mp hu₁₂
  rw [List.length_map, List.length_range'] at hlen
  rw [hlen]
  exact count_turn _

end Lanes

end P4Survey.Ndp
