import Mathlib.Algebra.BigOperators.Group.Finset.Basic
import P4Survey.Lib.Loop
import P4Survey.Ndp.Composite

/-! # The queue that prefers short paths

`CompositePrioQueue` of `compositeprioqueue.cpp`. Like `CompositeQueue`, but a packet that
finds the low queue full may take the place of one with a longer path, wherever that one
stands in the queue. For this the queue counts how many packets of each path length it holds
and remembers the greatest of these lengths.
-/

namespace P4Survey.Ndp

open Lib

/-- `MAX_PATH_LEN`; there is a counter for each length up to it. -/
def maxPathLen : ℕ := 20

/-- How the simulation ends early: by `assert`, by `abort`, or by an access outside of a
container, of which nothing can be said. -/
inductive Failure where
  | assertion | abort | undefined
  deriving DecidableEq

structure CompositePrioQueue extends Lanes where
  queuesizeLow : ℤ
  queuesizeHigh : ℤ
  numPackets : ℕ
  numHeaders : ℕ
  numAcks : ℕ
  numNacks : ℕ
  numPulls : ℕ
  numDrops : ℕ
  stripped : ℕ
  dropped : ℕ
  enqueuedPathLens : ℕ → ℕ
  maxPathLenQueued : ℕ
  maxPathLenSeen : ℕ

namespace CompositePrioQueue

/-- The constructor does not set `_max_path_len_seen`. -/
def initial (seen : ℕ) : CompositePrioQueue :=
  ⟨.empty, 0, 0, 0, 0, 0, 0, 0, 0, 0, 0, fun _ => 0, 0, seen⟩

def onLanes (f : Lanes → Option Lanes) (q : CompositePrioQueue) :
    Except Failure CompositePrioQueue :=
  match f q.toLanes with
  | some t => .ok { q with toLanes := t }
  | none => .error .assertion

def beginService : CompositePrioQueue → Except Failure CompositePrioQueue :=
  onLanes Lanes.beginService

def wake : CompositePrioQueue → Except Failure CompositePrioQueue := onLanes Lanes.wake

/-- The loop of `check_queued`: `maxpath` and `total_queued` after the first `n` lengths. -/
def countQueued (lens : ℕ → ℕ) : ℕ → ℕ × ℕ
  | 0 => (0, 0)
  | n + 1 =>
    if 0 < lens n then (n, (countQueued lens n).2 + lens n) else countQueued lens n

def checkQueued (q : CompositePrioQueue) : Except Failure CompositePrioQueue :=
  if (countQueued q.enqueuedPathLens maxPathLen).1 = q.maxPathLenQueued ∧
    (countQueued q.enqueuedPathLens maxPathLen).2 ≤ 8 then .ok q else .error .assertion

/-- The greatest length that is queued, from `i` on downwards. -/
def findFrom (lens : ℕ → ℕ) : ℕ → Option ℕ
  | 0 => if 0 < lens 0 then some 0 else none
  | i + 1 => if 0 < lens (i + 1) then some (i + 1) else findFrom lens i

/-- The search starts at `_max_path_len_seen`, read as a signed number. -/
def findMaxPathLenQueued (q : CompositePrioQueue) : Except Failure CompositePrioQueue :=
  if q.enqueuedLow = [] then .ok { q with maxPathLenQueued := 0 }
  else if 2 ^ 31 ≤ q.maxPathLenSeen then checkQueued { q with maxPathLenQueued := 0 }
  else if maxPathLen < q.maxPathLenSeen then .error .undefined
  else match findFrom q.enqueuedPathLens q.maxPathLenSeen with
    | some i => .ok { q with maxPathLenQueued := i }
    | none => checkQueued { q with maxPathLenQueued := 0 }

def enqueuePacket (q : CompositePrioQueue) (p : QueuePacket) :
    Except Failure CompositePrioQueue :=
  if maxPathLen < p.pathLen then .error .undefined
  else checkQueued
    { q with
      enqueuedLow := p :: q.enqueuedLow
      queuesizeLow := q.queuesizeLow + p.size
      maxPathLenQueued := max q.maxPathLenQueued p.pathLen
      maxPathLenSeen := if q.maxPathLenQueued < p.pathLen then max q.maxPathLenSeen p.pathLen
        else q.maxPathLenSeen
      enqueuedPathLens := Function.update q.enqueuedPathLens p.pathLen
        (q.enqueuedPathLens p.pathLen + 1) }

/-- The greatest length is looked for again if its last packet has left. -/
def refreshMax (q : CompositePrioQueue) (pathLen : ℕ) : Except Failure CompositePrioQueue :=
  if pathLen = q.maxPathLenQueued ∧ q.enqueuedPathLens pathLen = 0 then q.findMaxPathLenQueued
  else .ok q

/-- The housekeeping for a packet that has left the low queue. -/
def forget (q : CompositePrioQueue) (pathLen : ℕ) : Except Failure CompositePrioQueue :=
  if maxPathLen < pathLen then .error .undefined
  else if q.enqueuedPathLens pathLen = 0 then .error .assertion
  else (refreshMax
    { q with
      enqueuedPathLens := Function.update q.enqueuedPathLens pathLen
        (q.enqueuedPathLens pathLen - 1) } pathLen).bind checkQueued

def dequeueLowPacket (q : CompositePrioQueue) :
    Except Failure (QueuePacket × CompositePrioQueue) :=
  match q.enqueuedLow.getLast? with
  | none => .error .assertion
  | some p => (forget
      { q with
        enqueuedLow := q.enqueuedLow.dropLast
        queuesizeLow := q.queuesizeLow - p.size
        numPackets := q.numPackets + 1 } p.pathLen).map fun q => (p, q)

def countServed (q : CompositePrioQueue) : PacketType → CompositePrioQueue
  | .ndpAck => { q with numAcks := q.numAcks + 1 }
  | .ndpNack => { q with numNacks := q.numNacks + 1 }
  | .ndpPull => { q with numPulls := q.numPulls + 1 }
  | _ => { q with numHeaders := q.numHeaders + 1 }

def dequeueHighPacket (q : CompositePrioQueue) :
    Except Failure (QueuePacket × CompositePrioQueue) :=
  match q.enqueuedHigh.getLast? with
  | none => .error .assertion
  | some p => ((countServed
      { q with
        enqueuedHigh := q.enqueuedHigh.dropLast
        queuesizeHigh := q.queuesizeHigh - p.size } p.type).checkQueued).map fun q => (p, q)

def completeService (q : CompositePrioQueue) :
    Except Failure (QueuePacket × CompositePrioQueue) :=
  (match q.serv with
    | .low => q.dequeueLowPacket
    | .high => q.dequeueHighPacket
    | .invalid => .error .assertion).bind fun r =>
      (r.2.onLanes Lanes.resume).map fun q => (r.1, q)

/-- The scheduled end of a transmission. -/
def doNextEvent (q : CompositePrioQueue) : Except Failure (QueuePacket × CompositePrioQueue) :=
  completeService { q with pending := q.pending.tail }

def pushHigh (q : CompositePrioQueue) (p : QueuePacket) : CompositePrioQueue :=
  { q with enqueuedHigh := p :: q.enqueuedHigh, queuesizeHigh := q.queuesizeHigh + p.size }

variable (maxsize : ℤ)

/-- The header of a packet that was trimmed. -/
def placeTrimmed (q : CompositePrioQueue) (b : QueuePacket) : CompositePrioQueue :=
  if maxsize < q.queuesizeHigh + b.size then { q with dropped := q.dropped + 1 }
  else pushHigh { q with stripped := q.stripped + 1 } b

/-- From the tail of the queue on, the first packet with a path longer than `prio` is
trimmed. -/
def trimLowPriorityPacket (q : CompositePrioQueue) (prio : ℕ) :
    Except Failure CompositePrioQueue :=
  if prio < q.maxPathLenQueued then
    match q.enqueuedLow.find? fun p => prio < p.pathLen with
    | none => .error .abort
    | some b => (forget
        { q with
          enqueuedLow := q.enqueuedLow.eraseP fun p => prio < p.pathLen
          queuesizeLow := q.queuesizeLow - b.size } b.pathLen).bind fun q =>
      match b.stripPayload with
      | none => .error .assertion
      | some b => (q.placeTrimmed maxsize b).checkQueued
  else .error .assertion

/-- The second half of `receivePacket`, for headers and for what is left of a packet. -/
def receiveHeader (q : CompositePrioQueue) (p : QueuePacket) :
    Except Failure CompositePrioQueue :=
  if p.isHeader = false then .error .assertion
  else if maxsize < q.queuesizeHigh + p.size then .ok { q with numDrops := q.numDrops + 1 }
  else (q.pushHigh p).wake

/-- The path length above which a packet may be trimmed, for an arrival that finds the low
queue full; `none` if it is trimmed itself. The difference is one of unsigned numbers. -/
def trimPrio (q : CompositePrioQueue) (p front : QueuePacket) (coin : Bool) : Option ℕ :=
  if p.pathLen < q.maxPathLenQueued then some p.pathLen
  else if p.pathLen = front.pathLen ∧ coin then some ((p.pathLen + (2 ^ 32 - 1)) % 2 ^ 32)
  else none

/-- `coin` is the outcome of `drand() < 0.5`. -/
def receivePacket (q : CompositePrioQueue) (p : QueuePacket) (coin : Bool) :
    Except Failure CompositePrioQueue :=
  if p.isHeader then q.receiveHeader maxsize p
  else if q.queuesizeLow + p.size ≤ maxsize then (q.enqueuePacket p).bind wake
  else match q.enqueuedLow.head? with
    | none => .error .undefined
    | some front => match q.trimPrio p front coin with
      | some prio => (q.trimLowPriorityPacket maxsize prio).bind fun q =>
          if q.queuesizeLow + p.size ≤ maxsize then (q.enqueuePacket p).bind wake
          else .error .assertion
      | none => match p.stripPayload with
        | none => .error .assertion
        | some r => receiveHeader maxsize { q with stripped := q.stripped + 1 } r

def step (q : CompositePrioQueue) : CompositeQueue.Event → Except Failure CompositePrioQueue
  | .arrive p coin => q.receivePacket maxsize p coin
  | .complete => q.doNextEvent.map Prod.snd

/-- The queue under any arrivals. `first` is what is known of the first value of
`_max_path_len_seen`. -/
def system (first : ℕ → Prop) : System (Except Failure CompositePrioQueue) CompositeQueue.Event where
  init s := ∃ seen, first seen ∧ s = .ok (initial seen)
  enabled
    | .error _, _ => False
    | .ok _, .arrive _ _ => True
    | .ok q, .complete => q.pending ≠ []
  next s a := s.bind fun q => q.step maxsize a

instance decidableEnabled (first : ℕ → Prop) : (s : Except Failure CompositePrioQueue) →
    (a : CompositeQueue.Event) → Decidable ((system maxsize first).enabled s a)
  | .error _, _ => isFalse id
  | .ok _, .arrive _ _ => isTrue trivial
  | .ok q, .complete => inferInstanceAs (Decidable (q.pending ≠ []))

/-- How many packets of a queue have a path of the given length. -/
def countLen (l : List QueuePacket) (i : ℕ) : ℕ := l.countP fun p => p.pathLen = i

theorem countLen_cons (p : QueuePacket) (l : List QueuePacket) (i : ℕ) :
    countLen (p :: l) i = countLen l i + if p.pathLen = i then 1 else 0 := by
  simp [countLen, List.countP_cons]

theorem update_countLen (p : QueuePacket) (l : List QueuePacket) :
    Function.update (countLen l) p.pathLen (countLen l p.pathLen + 1) = countLen (p :: l) := by
  funext i
  rw [Function.update_apply, countLen_cons]
  by_cases hi : i = p.pathLen
  · rw [if_pos hi, if_pos hi.symm, hi]
  · rw [if_neg hi, if_neg (Ne.symm hi), add_zero]

theorem countLen_append (l l' : List QueuePacket) (i : ℕ) :
    countLen (l ++ l') i = countLen l i + countLen l' i := by
  simp [countLen]

theorem countLen_pos {l : List QueuePacket} {i : ℕ} :
    0 < countLen l i ↔ ∃ p ∈ l, p.pathLen = i := by
  simp [countLen, List.countP_pos_iff]

/-- The counters of all lengths count every packet. -/
theorem sum_countLen {n : ℕ} {l : List QueuePacket} (h : ∀ p ∈ l, p.pathLen < n) :
    ∑ i ∈ Finset.range n, countLen l i = l.length := by
  induction l with
  | nil => simp [countLen]
  | cons p l ih =>
    have hp := h p List.mem_cons_self
    simp only [countLen_cons, Finset.sum_add_distrib, Finset.sum_ite_eq, Finset.mem_range, hp,
      if_true, List.length_cons]
    rw [ih fun r hr => h r (List.mem_cons_of_mem p hr)]

/-- The greatest length with a positive count, 0 if there is none. -/
structure Greatest (lens : ℕ → ℕ) (m : ℕ) : Prop where
  le : ∀ i, 0 < lens i → i ≤ m
  attained : m = 0 ∨ 0 < lens m

variable {lens lens' : ℕ → ℕ} {m m' n : ℕ}

theorem Greatest.eq (h : Greatest lens m) (h' : Greatest lens m') : m = m' := by
  rcases h.attained with hm | hm
  · rcases h'.attained with hm' | hm'
    · omega
    · have := h.le m' hm'
      omega
  · have := h'.le m hm
    rcases h'.attained with hm' | hm'
    · omega
    · have := h.le m' hm'
      omega

/-- One more packet raises the maximum to the length of its path. -/
theorem Greatest.cons {l : List QueuePacket} (h : Greatest (countLen l) m) (p : QueuePacket) :
    Greatest (countLen (p :: l)) (max p.pathLen m) := by
  constructor
  · intro i hi
    rw [countLen_cons] at hi
    split_ifs at hi with he
    · omega
    · exact (h.le i hi).trans (le_max_right _ _)
  · rcases max_choice p.pathLen m with he | he
    · rw [he]
      exact .inr (countLen_pos.mpr ⟨p, List.mem_cons_self, rfl⟩)
    · rw [he, countLen_cons]
      exact h.attained.imp_right fun hpos => by omega

theorem countQueued_snd (lens : ℕ → ℕ) (n : ℕ) :
    (countQueued lens n).2 = ∑ i ∈ Finset.range n, lens i := by
  induction n with
  | zero => rfl
  | succ n ih =>
    rw [Finset.sum_range_succ, ← ih, countQueued]
    split_ifs with h
    · rfl
    · omega

theorem countQueued_fst (lens : ℕ → ℕ) (n : ℕ) :
    (∀ i < n, 0 < lens i → i ≤ (countQueued lens n).1) ∧
      ((countQueued lens n).1 = 0 ∨ 0 < lens (countQueued lens n).1) := by
  induction n with
  | zero => exact ⟨fun i hi => absurd hi (Nat.not_lt_zero i), .inl rfl⟩
  | succ n ih =>
    rw [countQueued]
    split_ifs with h
    · exact ⟨fun i hi _ => Nat.lt_succ_iff.mp hi, .inr h⟩
    · refine ⟨fun i hi hpos => ?_, ih.2⟩
      rcases Nat.lt_succ_iff_lt_or_eq.mp hi with hlt | rfl
      · exact ih.1 i hlt hpos
      · exact absurd hpos h

/-- The search downwards stops at the greatest length if it starts high enough. -/
theorem exists_findFrom (hle : ∀ i, 0 < lens i → i ≤ n) (hpos : ∃ i, 0 < lens i) :
    ∃ m, findFrom lens n = some m ∧ Greatest lens m := by
  obtain ⟨j, hj⟩ := hpos
  induction n with
  | zero =>
    obtain rfl : j = 0 := Nat.le_zero.mp (hle j hj)
    exact ⟨0, if_pos hj, hle, .inl rfl⟩
  | succ n ih =>
    by_cases h : 0 < lens (n + 1)
    · exact ⟨n + 1, if_pos h, hle, .inr h⟩
    · rw [findFrom, if_neg h]
      refine ih fun i hi => ?_
      rcases Nat.le_succ_iff.mp (hle i hi) with hlt | rfl
      · exact hlt
      · exact absurd hi h

variable {q q' : CompositePrioQueue} {p : QueuePacket} {coin : Bool} {maxsize}

/-- The checks pass while the counters are right and few packets are queued. -/
theorem checkQueued_eq (hlens : q.enqueuedPathLens = countLen q.enqueuedLow)
    (hmax : Greatest q.enqueuedPathLens q.maxPathLenQueued)
    (hlt : ∀ p ∈ q.enqueuedLow, p.pathLen < maxPathLen) (hlen : q.enqueuedLow.length ≤ 8) :
    q.checkQueued = .ok q := by
  have htotal : (countQueued q.enqueuedPathLens maxPathLen).2 ≤ 8 := by
    rw [countQueued_snd, hlens, sum_countLen hlt]
    exact hlen
  have hmaxpath : (countQueued q.enqueuedPathLens maxPathLen).1 = q.maxPathLenQueued := by
    obtain ⟨hle, hatt⟩ := countQueued_fst q.enqueuedPathLens maxPathLen
    refine Greatest.eq ⟨fun i hi => hle i ?_ hi, hatt⟩ hmax
    rw [hlens, countLen_pos] at hi
    obtain ⟨p, hp, rfl⟩ := hi
    exact hlt p hp
  exact if_pos ⟨hmaxpath, htotal⟩

/-- The cached maximum is brought up to date when the last packet of the longest path has
left. -/
theorem exists_findMax (hlens : q.enqueuedPathLens = countLen q.enqueuedLow)
    (hle : ∀ i, 0 < q.enqueuedPathLens i → i ≤ q.maxPathLenSeen)
    (hseen : q.maxPathLenSeen < maxPathLen) :
    ∃ m, q.findMaxPathLenQueued = .ok { q with maxPathLenQueued := m } ∧
      Greatest q.enqueuedPathLens m := by
  unfold findMaxPathLenQueued
  by_cases hlow : q.enqueuedLow = []
  · refine ⟨0, if_pos hlow, ?_, .inl rfl⟩
    intro i hi
    rw [hlens, hlow] at hi
    exact absurd hi (lt_irrefl 0)
  · obtain ⟨p, hp⟩ := List.exists_mem_of_ne_nil _ hlow
    have hpos : ∃ i, 0 < q.enqueuedPathLens i := by
      refine ⟨p.pathLen, ?_⟩
      rw [hlens, countLen_pos]
      exact ⟨p, hp, rfl⟩
    obtain ⟨m, hm, hgreatest⟩ := exists_findFrom hle hpos
    have hsmall : q.maxPathLenSeen < 20 := hseen
    refine ⟨m, ?_, hgreatest⟩
    rw [if_neg hlow, if_neg (by omega), if_neg (not_lt.mpr hseen.le), hm]

/-- The housekeeping for a packet that has left is right. -/
theorem exists_forget {len : ℕ}
    (hlens : ∀ i, q.enqueuedPathLens i = countLen q.enqueuedLow i + if len = i then 1 else 0)
    (hmax : Greatest q.enqueuedPathLens q.maxPathLenQueued)
    (hmaxseen : q.maxPathLenQueued ≤ q.maxPathLenSeen) (hseen : q.maxPathLenSeen < maxPathLen)
    (hlt : ∀ p ∈ q.enqueuedLow, p.pathLen < maxPathLen) (hlen : q.enqueuedLow.length ≤ 8) :
    ∃ m ≤ q.maxPathLenQueued, Greatest (countLen q.enqueuedLow) m ∧ q.forget len =
      .ok { q with enqueuedPathLens := countLen q.enqueuedLow, maxPathLenQueued := m } := by
  have hone : q.enqueuedPathLens len = countLen q.enqueuedLow len + 1 := by
    rw [hlens, if_pos rfl]
  have hlenmax : len ≤ q.maxPathLenQueued := hmax.le len (by omega)
  have hless (i : ℕ) (hi : 0 < countLen q.enqueuedLow i) : i ≤ q.maxPathLenQueued :=
    hmax.le i (by rw [hlens]; omega)
  have hupdate : Function.update q.enqueuedPathLens len (q.enqueuedPathLens len - 1) =
      countLen q.enqueuedLow := by
    funext i
    rw [Function.update_apply]
    split_ifs with h
    · rw [h, hone, Nat.add_sub_cancel]
    · rw [hlens, if_neg (Ne.symm h), add_zero]
  unfold forget
  rw [if_neg (by omega), if_neg (by omega), hupdate]
  by_cases hlast : len = q.maxPathLenQueued ∧ countLen q.enqueuedLow len = 0
  · obtain ⟨m, hm, hgreatest⟩ := exists_findMax (q := { q with
      enqueuedPathLens := countLen q.enqueuedLow }) rfl
      (fun i hi => (hless i hi).trans hmaxseen) hseen
    refine ⟨m, ?_, hgreatest, ?_⟩
    · rcases hgreatest.attained with rfl | hpos
      · exact Nat.zero_le _
      · exact hless m hpos
    · rw [refreshMax, if_pos hlast, hm]
      exact checkQueued_eq rfl hgreatest hlt hlen
  · have hgreatest : Greatest (countLen q.enqueuedLow) q.maxPathLenQueued := by
      refine ⟨hless, ?_⟩
      rcases hmax.attained with h | h
      · exact .inl h
      · by_cases he : len = q.maxPathLenQueued
        · right
          have : countLen q.enqueuedLow len ≠ 0 := fun h0 => hlast ⟨he, h0⟩
          rw [← he]
          omega
        · rw [hlens, if_neg he, add_zero] at h
          exact .inr h
    refine ⟨_, le_rfl, hgreatest, ?_⟩
    rw [refreshMax, if_neg hlast]
    exact checkQueued_eq rfl hgreatest hlt hlen

theorem onLanes_ok {f : Lanes → Option Lanes} (h : q.onLanes f = .ok q') :
    ∃ t, f q.toLanes = some t ∧ q' = { q with toLanes := t } := by
  unfold onLanes at h
  split at h
  next t ht => exact ⟨t, ht, (Except.ok.inj h).symm⟩
  next => cases h

theorem exists_onLanes {f : Lanes → Option Lanes} (h : ∃ t, f q.toLanes = some t) :
    ∃ t, f q.toLanes = some t ∧ q.onLanes f = .ok { q with toLanes := t } := by
  obtain ⟨t, ht⟩ := h
  exact ⟨t, ht, by rw [onLanes, ht]⟩

theorem checkQueued_ok (h : q.checkQueued = .ok q') : q' = q := by
  unfold checkQueued at h
  split_ifs at h
  exact (Except.ok.inj h).symm

theorem findMax_lanes (h : q.findMaxPathLenQueued = .ok q') : q'.toLanes = q.toLanes := by
  unfold findMaxPathLenQueued at h
  split_ifs at h
  · rw [← Except.ok.inj h]
  · rw [checkQueued_ok h]
  · split at h
    · rw [← Except.ok.inj h]
    · rw [checkQueued_ok h]

theorem forget_lanes {len : ℕ} (h : q.forget len = .ok q') : q'.toLanes = q.toLanes := by
  unfold forget at h
  split_ifs at h
  obtain ⟨q₁, hq₁, h⟩ := bind_eq_ok.mp h
  rw [checkQueued_ok h]
  unfold refreshMax at hq₁
  split_ifs at hq₁
  · rw [findMax_lanes hq₁]
  · rw [← Except.ok.inj hq₁]

theorem enqueuePacket_lanes (h : q.enqueuePacket p = .ok q') :
    q'.toLanes = { q.toLanes with enqueuedLow := p :: q.enqueuedLow } := by
  unfold enqueuePacket at h
  split at h
  next => cases h
  next => rw [checkQueued_ok h]

variable (maxsize) in
theorem placeTrimmed_lanes (q : CompositePrioQueue) (b : QueuePacket) : ∃ l,
    (q.placeTrimmed maxsize b).toLanes =
      { q.toLanes with enqueuedHigh := l ++ q.enqueuedHigh } := by
  unfold placeTrimmed
  split_ifs
  · exact ⟨[], rfl⟩
  · exact ⟨[b], rfl⟩

/-- The packet that is trimmed is the first with a longer path. -/
theorem trim_lanes {prio : ℕ} (h : q.trimLowPriorityPacket maxsize prio = .ok q') :
    prio < q.maxPathLenQueued ∧ (∃ b ∈ q.enqueuedLow, prio < b.pathLen) ∧
      ∃ l, q'.toLanes =
        { q.toLanes with
          enqueuedLow := q.enqueuedLow.eraseP fun p => prio < p.pathLen
          enqueuedHigh := l ++ q.enqueuedHigh } := by
  unfold trimLowPriorityPacket at h
  split_ifs at h with hprio
  split at h
  next => cases h
  next b hb =>
    obtain ⟨q₁, hq₁, h⟩ := bind_eq_ok.mp h
    split at h
    next => cases h
    next r hr =>
      obtain ⟨l, hl⟩ := placeTrimmed_lanes maxsize q₁ r
      refine ⟨hprio, ⟨b, List.mem_of_find?_eq_some hb, by simpa using List.find?_some hb⟩, l, ?_⟩
      rw [checkQueued_ok h, hl, forget_lanes hq₁]

/-- The arrival finds the low queue full and takes the place of a packet with a path longer
than `prio`. -/
structure Trims (maxsize : ℤ) (q : CompositePrioQueue) (p : QueuePacket) (coin : Bool)
    (prio : ℕ) : Prop where
  full : p.isHeader = false
  room : maxsize < q.queuesizeLow + p.size
  prio : ∃ front, q.enqueuedLow.head? = some front ∧ q.trimPrio p front coin = some prio

theorem Trims.eq {a b : ℕ} (ha : Trims maxsize q p coin a) (hb : Trims maxsize q p coin b) :
    a = b := by
  obtain ⟨front, hfront, ha⟩ := ha.prio
  obtain ⟨front', hfront', hb⟩ := hb.prio
  obtain rfl : front = front' := Option.some.inj (hfront.symm.trans hfront')
  exact Option.some.inj (ha.symm.trans hb)

/-- What an arrival leaves in the queues before the service is considered. -/
structure Queues (maxsize : ℤ) (q : CompositePrioQueue) (p : QueuePacket) (coin : Bool)
    (t : Lanes) : Prop where
  same : Lanes.SameService q.toLanes t
  high : ∃ l, t.enqueuedHigh = l ++ q.enqueuedHigh
  low : (∀ prio, ¬ Trims maxsize q p coin prio) ∧
      (t.enqueuedLow = q.enqueuedLow ∨ t.enqueuedLow = p :: q.enqueuedLow) ∨
    ∃ prio, Trims maxsize q p coin prio ∧ prio < q.maxPathLenQueued ∧
      (∃ b ∈ q.enqueuedLow, prio < b.pathLen) ∧
        t.enqueuedLow = p :: q.enqueuedLow.eraseP fun b => prio < b.pathLen

theorem receiveHeader_lanes (h : q.receiveHeader maxsize p = .ok q') :
    q'.toLanes = q.toLanes ∨ (q.pushHigh p).toLanes.wake = some q'.toLanes := by
  unfold receiveHeader at h
  split_ifs at h
  · rw [← Except.ok.inj h]
    exact .inl rfl
  · obtain ⟨t, ht, rfl⟩ := onLanes_ok h
    exact .inr ht

theorem queues_pushHigh (hnot : ∀ prio, ¬ Trims maxsize q p coin prio) (r : QueuePacket) :
    Queues maxsize q p coin (q.pushHigh r).toLanes :=
  ⟨⟨rfl, rfl, rfl, rfl⟩, ⟨[r], rfl⟩, .inl ⟨hnot, .inl rfl⟩⟩

/-- An arrival that takes no packet's place may leave the queues as they are. -/
theorem receivePacket_lanes (h : q.receivePacket maxsize p coin = .ok q') :
    (∀ prio, ¬ Trims maxsize q p coin prio) ∧ q'.toLanes = q.toLanes ∨
      ∃ t, Queues maxsize q p coin t ∧ t.wake = some q'.toLanes := by
  unfold receivePacket at h
  split at h
  next hhead =>
    have hnot (prio : ℕ) : ¬ Trims maxsize q p coin prio := fun ht =>
      Bool.false_ne_true (ht.full.symm.trans hhead)
    exact (receiveHeader_lanes h).imp (And.intro hnot) fun ht => ⟨_, queues_pushHigh hnot p, ht⟩
  next hfull =>
    rw [Bool.not_eq_true] at hfull
    split at h
    next hroom =>
      right
      obtain ⟨q₁, hq₁, h⟩ := bind_eq_ok.mp h
      obtain ⟨t, ht, rfl⟩ := onLanes_ok h
      rw [enqueuePacket_lanes hq₁] at ht
      refine ⟨_, ?_, ht⟩
      exact ⟨⟨rfl, rfl, rfl, rfl⟩, ⟨[], rfl⟩,
        .inl ⟨fun prio ht => absurd ht.room (not_lt.mpr hroom), .inr rfl⟩⟩
    next hroom =>
      split at h
      next => cases h
      next front hfront =>
        split at h
        next prio hprio =>
          right
          obtain ⟨q₁, hq₁, h⟩ := bind_eq_ok.mp h
          split_ifs at h
          obtain ⟨q₂, hq₂, h⟩ := bind_eq_ok.mp h
          obtain ⟨t, ht, rfl⟩ := onLanes_ok h
          obtain ⟨hlt, hex, l, hl⟩ := trim_lanes hq₁
          rw [enqueuePacket_lanes hq₂, hl] at ht
          refine ⟨_, ?_, ht⟩
          exact ⟨⟨rfl, rfl, rfl, rfl⟩, ⟨l, rfl⟩,
            .inr ⟨prio, ⟨hfull, not_le.mp hroom, front, hfront, hprio⟩, hlt, hex, rfl⟩⟩
        next hprio =>
          have hnot (prio : ℕ) : ¬ Trims maxsize q p coin prio := by
            rintro ⟨-, -, front', hfront', hprio'⟩
            obtain rfl : front' = front := Option.some.inj (hfront'.symm.trans hfront)
            rw [hprio] at hprio'
            cases hprio'
          split at h
          next => cases h
          next r hr =>
            exact (receiveHeader_lanes h).imp (And.intro hnot) fun ht =>
              ⟨_, queues_pushHigh hnot r, ht⟩

/-- An arrival does not empty a queue. -/
theorem Queues.lane {t : Lanes} (h : Queues maxsize q p coin t) (s : Serv)
    (hs : q.lane s ≠ []) : t.lane s ≠ [] := by
  cases s with
  | invalid => exact hs
  | low =>
    change t.enqueuedLow ≠ []
    rcases h.low with ⟨-, hl | hl⟩ | ⟨prio, -, -, -, hl⟩
    · rw [hl]
      exact hs
    · rw [hl]
      exact List.cons_ne_nil _ _
    · rw [hl]
      exact List.cons_ne_nil _ _
  | high =>
    obtain ⟨l, hl⟩ := h.high
    change t.enqueuedHigh ≠ []
    rw [hl]
    exact List.append_ne_nil_of_right_ne_nil _ hs

theorem busy_receivePacket (h : q.Busy) (hr : q.receivePacket maxsize p coin = .ok q') :
    q'.Busy := by
  rcases receivePacket_lanes hr with ⟨-, he⟩ | ⟨t, ht, hw⟩
  · rw [he]
    exact h
  · exact (h.toReady.same ht.same ht.lane).busy_of_wake hw

theorem countServed_toLanes (q : CompositePrioQueue) (t : PacketType) :
    (q.countServed t).toLanes = q.toLanes := by
  cases t <;> rfl

theorem dequeueLowPacket_ok (h : q.dequeueLowPacket = .ok (p, q')) :
    q.enqueuedLow.getLast? = some p ∧
      forget { q with
        enqueuedLow := q.enqueuedLow.dropLast
        queuesizeLow := q.queuesizeLow - p.size
        numPackets := q.numPackets + 1 } p.pathLen = .ok q' := by
  unfold dequeueLowPacket at h
  split at h
  next => cases h
  next r hr =>
    obtain ⟨q₁, hq₁, he⟩ := map_eq_ok.mp h
    obtain ⟨rfl, rfl⟩ := Prod.ext_iff.mp he
    exact ⟨hr, hq₁⟩

theorem dequeueHighPacket_ok (h : q.dequeueHighPacket = .ok (p, q')) :
    q.enqueuedHigh.getLast? = some p ∧ q' = countServed
      { q with
        enqueuedHigh := q.enqueuedHigh.dropLast
        queuesizeHigh := q.queuesizeHigh - p.size } p.type := by
  unfold dequeueHighPacket at h
  split at h
  next => cases h
  next r hr =>
    obtain ⟨q₁, hq₁, he⟩ := map_eq_ok.mp h
    obtain ⟨rfl, rfl⟩ := Prod.ext_iff.mp he
    exact ⟨hr, checkQueued_ok hq₁⟩

/-- A service ends, and the packet that leaves was the oldest of its queue. -/
theorem doNextEvent_lanes (h : q.doNextEvent = .ok (p, q')) :
    ∃ t : Lanes, t.crt = q.crt ∧ t.pending = q.pending.tail ∧
      (q.lane q.serv).getLast? = some p ∧ t.enqueuedLow.Sublist q.enqueuedLow ∧
        t.resume = some q'.toLanes := by
  obtain ⟨⟨r, q₁⟩, hd, h⟩ := bind_eq_ok.mp h
  obtain ⟨q₂, hres, he⟩ := map_eq_ok.mp h
  obtain ⟨rfl, rfl⟩ := Prod.ext_iff.mp he
  obtain ⟨t, ht, rfl⟩ := onLanes_ok hres
  have hfacts : q₁.crt = q.crt ∧ q₁.pending = q.pending.tail ∧
      (q.lane q.serv).getLast? = some r ∧ q₁.enqueuedLow.Sublist q.enqueuedLow := by
    split at hd
    next hserv =>
      obtain ⟨hlast, hforget⟩ := dequeueLowPacket_ok hd
      rw [forget_lanes hforget, show q.serv = .low from hserv]
      exact ⟨rfl, rfl, hlast, List.dropLast_sublist _⟩
    next hserv =>
      obtain ⟨hlast, he⟩ := dequeueHighPacket_ok hd
      rw [he, countServed_toLanes, show q.serv = .high from hserv]
      exact ⟨rfl, rfl, hlast, List.Sublist.refl _⟩
    next => cases hd
  obtain ⟨hcrt, hpending, hlast, hlow⟩ := hfacts
  exact ⟨q₁.toLanes, hcrt, hpending, hlast, hlow, ht⟩

theorem busy_doNextEvent (h : q.Busy) (hr : q.doNextEvent = .ok (p, q')) : q'.Busy := by
  obtain ⟨t, hcrt, hpending, -, -, ht⟩ := doNextEvent_lanes hr
  exact Lanes.busy_of_resume (hcrt ▸ h.crt) (hpending.trans h.tail_pending) ht

/-- The counters agree with the low queue, which holds whole packets of one size with paths
of 1 to 19 hops. -/
structure Books (maxsize : ℤ) (size : ℕ) (q : CompositePrioQueue) : Prop where
  low : q.queuesizeLow = totalSize q.enqueuedLow
  fits : q.enqueuedLow = [] ∨ q.queuesizeLow ≤ maxsize
  full : ∀ p ∈ q.enqueuedLow, p.isHeader = false ∧ p.size = size ∧ 0 < p.pathLen ∧ p.pathLen < 20
  lens : q.enqueuedPathLens = countLen q.enqueuedLow
  greatest : Greatest q.enqueuedPathLens q.maxPathLenQueued
  seen : q.maxPathLenQueued ≤ q.maxPathLenSeen
  seen_lt : q.maxPathLenSeen < 20

theorem totalSize_eq {l : List QueuePacket} {size : ℕ} (h : ∀ p ∈ l, p.size = size) :
    totalSize l = l.length * size := by
  induction l with
  | nil => simp
  | cons p l ih =>
    rw [totalSize_cons, ih fun r hr => h r (List.mem_cons_of_mem p hr), h p List.mem_cons_self,
      List.length_cons]
    push_cast
    ring

/-- The low queue has room for eight packets at most. -/
theorem length_le_of_sized {l : List QueuePacket} {size : ℕ} (h : ∀ p ∈ l, p.size = size)
    (hmax : maxsize < 9 * size) (hfits : l = [] ∨ totalSize l ≤ maxsize) : l.length ≤ 8 := by
  rcases hfits with rfl | hle
  · exact Nat.zero_le _
  · rw [totalSize_eq h] at hle
    by_contra hlt
    have h9 : (9 : ℤ) ≤ l.length := by exact_mod_cast not_le.mp hlt
    have hsize : (0 : ℤ) ≤ size := Int.natCast_nonneg _
    nlinarith

namespace Books

variable {size : ℕ}

theorem initial : Books maxsize size (initial 0) :=
  ⟨rfl, .inl rfl, fun p hp => (by cases hp), rfl, ⟨fun i hi => absurd hi (lt_irrefl 0), .inl rfl⟩,
    le_rfl, by decide⟩

/-- The part of the state that the books are about. -/
structure Like (q q' : CompositePrioQueue) : Prop where
  low : q'.enqueuedLow = q.enqueuedLow
  queuesizeLow : q'.queuesizeLow = q.queuesizeLow
  lens : q'.enqueuedPathLens = q.enqueuedPathLens
  max : q'.maxPathLenQueued = q.maxPathLenQueued
  seen : q'.maxPathLenSeen = q.maxPathLenSeen

theorem like (h : Books maxsize size q) (hq : Like q q') : Books maxsize size q' := by
  obtain ⟨hlow, hfits, hfull, hlens, hgreatest, hseen, hseen_lt⟩ := h
  rw [← hq.low, ← hq.queuesizeLow] at hlow hfits
  rw [← hq.low] at hfull hlens
  rw [← hq.lens] at hlens hgreatest
  rw [← hq.max] at hgreatest hseen
  rw [← hq.seen] at hseen hseen_lt
  exact ⟨hlow, hfits, hfull, hlens, hgreatest, hseen, hseen_lt⟩

theorem length_le (h : Books maxsize size q) (hmax : maxsize < 9 * size) :
    q.enqueuedLow.length ≤ 8 :=
  length_le_of_sized (fun p hp => (h.full p hp).2.1) hmax (h.low ▸ h.fits)

theorem checkQueued (h : Books maxsize size q) (hmax : maxsize < 9 * size) :
    q.checkQueued = .ok q :=
  checkQueued_eq h.lens h.greatest (fun p hp => (h.full p hp).2.2.2) (h.length_le hmax)

/-- A packet that has left is taken from the books. -/
theorem exists_forget {l₁ l₂ : List QueuePacket} (h : Books maxsize size q)
    (hmax : maxsize < 9 * size) (hsplit : q.enqueuedLow = l₁ ++ p :: l₂) (n : ℕ) :
    ∃ q', forget { q with
        enqueuedLow := l₁ ++ l₂
        queuesizeLow := q.queuesizeLow - p.size
        numPackets := n } p.pathLen = .ok q' ∧ Books maxsize size q' ∧
      q'.queuesizeLow + p.size = q.queuesizeLow := by
  have hlow := h.low
  rw [hsplit, totalSize_append, totalSize_cons] at hlow
  have hsum : q.queuesizeLow - p.size = totalSize (l₁ ++ l₂) := by
    rw [totalSize_append]
    omega
  have hfits : q.queuesizeLow - p.size ≤ maxsize := by
    have := h.fits.resolve_left (by simp [hsplit])
    omega
  have hfull : ∀ r ∈ l₁ ++ l₂,
      r.isHeader = false ∧ r.size = size ∧ 0 < r.pathLen ∧ r.pathLen < 20 := by
    intro r hr
    refine h.full r ?_
    rw [hsplit]
    rw [List.mem_append] at hr ⊢
    exact hr.imp_right (List.mem_cons_of_mem p)
  have hlens (i : ℕ) :
      q.enqueuedPathLens i = countLen (l₁ ++ l₂) i + if p.pathLen = i then 1 else 0 := by
    rw [h.lens, hsplit, countLen_append, countLen_append, countLen_cons]
    omega
  obtain ⟨m, hm, hgreatest, hforget⟩ := CompositePrioQueue.exists_forget (q := { q with
      enqueuedLow := l₁ ++ l₂
      queuesizeLow := q.queuesizeLow - p.size
      numPackets := n }) hlens h.greatest h.seen h.seen_lt (fun r hr => (hfull r hr).2.2.2)
    (length_le_of_sized (fun r hr => (hfull r hr).2.1) hmax (.inr (hsum ▸ hfits)))
  exact ⟨_, hforget, ⟨hsum, .inr hfits, hfull, rfl, hgreatest, hm.trans h.seen, h.seen_lt⟩,
    sub_add_cancel _ _⟩

theorem exists_enqueuePacket (h : Books maxsize size q) (hmax : maxsize < 9 * size)
    (hp : p.isHeader = false ∧ p.size = size ∧ 0 < p.pathLen ∧ p.pathLen < 20)
    (hroom : q.queuesizeLow + p.size ≤ maxsize) :
    ∃ q', q.enqueuePacket p = .ok q' ∧ Books maxsize size q' ∧ q'.enqueuedLow ≠ [] := by
  have hlens : Function.update q.enqueuedPathLens p.pathLen (q.enqueuedPathLens p.pathLen + 1) =
      countLen (p :: q.enqueuedLow) := by
    rw [h.lens, update_countLen]
  have hgreatest : Greatest (countLen (p :: q.enqueuedLow)) (max q.maxPathLenQueued p.pathLen) := by
    rw [max_comm]
    exact (h.lens ▸ h.greatest).cons p
  have hq' : Books maxsize size
      { q with
        enqueuedLow := p :: q.enqueuedLow
        queuesizeLow := q.queuesizeLow + p.size
        maxPathLenQueued := max q.maxPathLenQueued p.pathLen
        maxPathLenSeen := if q.maxPathLenQueued < p.pathLen then max q.maxPathLenSeen p.pathLen
          else q.maxPathLenSeen
        enqueuedPathLens := Function.update q.enqueuedPathLens p.pathLen
          (q.enqueuedPathLens p.pathLen + 1) } := by
    have hseen := h.seen
    have hseen_lt := h.seen_lt
    refine ⟨?_, .inr hroom, ?_, hlens, hlens ▸ hgreatest, ?_, ?_⟩
    · change q.queuesizeLow + p.size = totalSize (p :: q.enqueuedLow)
      rw [totalSize_cons, h.low, add_comm]
    · intro r hr
      rcases List.mem_cons.mp hr with rfl | hr
      · exact hp
      · exact h.full r hr
    · dsimp only
      split_ifs <;> omega
    · dsimp only
      split_ifs <;> omega
  refine ⟨_, ?_, hq', List.cons_ne_nil _ _⟩
  rw [CompositePrioQueue.enqueuePacket, if_neg (by rw [maxPathLen]; omega)]
  exact hq'.checkQueued hmax

/-- While a longer path is queued there is a packet to trim. -/
theorem exists_trim {prio : ℕ} (h : Books maxsize size q) (hmax : maxsize < 9 * size)
    (hprio : prio < q.maxPathLenQueued) :
    ∃ q', q.trimLowPriorityPacket maxsize prio = .ok q' ∧ Books maxsize size q' ∧
      q'.queuesizeLow + size ≤ maxsize := by
  have hpos : 0 < q.enqueuedPathLens q.maxPathLenQueued :=
    h.greatest.attained.resolve_left (by omega)
  rw [h.lens, countLen_pos] at hpos
  obtain ⟨c, hc, hclen⟩ := hpos
  obtain ⟨b, l₁, l₂, hbefore, hb, hsplit, herase⟩ :=
    List.exists_of_eraseP (p := fun p => decide (prio < p.pathLen)) hc (by simpa [hclen] using hprio)
  have hfind : q.enqueuedLow.find? (fun p => prio < p.pathLen) = some b := by
    rw [List.find?_eq_some_iff_append]
    exact ⟨hb, l₁, l₂, hsplit, fun a ha => by simpa using hbefore a ha⟩
  obtain ⟨hbfull, hbsize, -, -⟩ := h.full b (by rw [hsplit]; simp)
  obtain ⟨q₁, hforget, hq₁, hsize⟩ := h.exists_forget hmax hsplit q.numPackets
  obtain ⟨r, hr⟩ := CompositeQueue.exists_stripPayload hbfull
  have hplaced : Books maxsize size (q₁.placeTrimmed maxsize r) := by
    unfold placeTrimmed
    split_ifs
    · exact hq₁.like ⟨rfl, rfl, rfl, rfl, rfl⟩
    · exact hq₁.like ⟨rfl, rfl, rfl, rfl, rfl⟩
  refine ⟨q₁.placeTrimmed maxsize r, ?_, hplaced, ?_⟩
  · rw [trimLowPriorityPacket, if_pos hprio, hfind]
    simp only [herase]
    rw [hforget]
    simp only [Except.bind, hr]
    exact hplaced.checkQueued hmax
  · have hplaced_low : (q₁.placeTrimmed maxsize r).queuesizeLow = q₁.queuesizeLow := by
      unfold placeTrimmed
      split_ifs
      · rfl
      · rfl
    have hfits := h.fits.resolve_left (by simp [hsplit])
    rw [hplaced_low]
    omega

theorem exists_receiveHeader (h : Books maxsize size q) (hp : p.isHeader = true) :
    ∃ q', q.receiveHeader maxsize p = .ok q' ∧ Books maxsize size q' := by
  unfold CompositePrioQueue.receiveHeader
  rw [hp]
  simp only [Bool.true_eq_false, if_false]
  split_ifs
  · exact ⟨_, rfl, h.like ⟨rfl, rfl, rfl, rfl, rfl⟩⟩
  · obtain ⟨t, ht, hok⟩ := exists_onLanes (q := q.pushHigh p)
      (Lanes.exists_wake fun h => List.cons_ne_nil _ _ h.2)
    exact ⟨_, hok, h.like ⟨(Lanes.wake_lists ht).1, rfl, rfl, rfl, rfl⟩⟩

theorem exists_enqueue_wake (h : Books maxsize size q) (hmax : maxsize < 9 * size)
    (hp : p.isHeader = false ∧ p.size = size ∧ 0 < p.pathLen ∧ p.pathLen < 20)
    (hroom : q.queuesizeLow + p.size ≤ maxsize) :
    ∃ q', (q.enqueuePacket p).bind wake = .ok q' ∧ Books maxsize size q' := by
  obtain ⟨q₁, hq₁, hbooks, hne⟩ := h.exists_enqueuePacket hmax hp hroom
  obtain ⟨t, ht, hok⟩ := exists_onLanes (q := q₁) (Lanes.exists_wake fun h => hne h.1)
  refine ⟨{ q₁ with toLanes := t }, ?_, hbooks.like ⟨(Lanes.wake_lists ht).1, rfl, rfl, rfl, rfl⟩⟩
  rw [hq₁]
  exact hok

/-- The packet that an arrival wants to replace has a path that is long enough. -/
theorem trimPrio_lt {front : QueuePacket} {prio : ℕ} (h : Books maxsize size q)
    (hfront : q.enqueuedLow.head? = some front) (hp : 0 < p.pathLen ∧ p.pathLen < 20)
    (hprio : q.trimPrio p front coin = some prio) : prio < q.maxPathLenQueued := by
  unfold trimPrio at hprio
  split_ifs at hprio with hlt hsame
  · rw [← Option.some.inj hprio]
    exact hlt
  · have hpos : 0 < q.enqueuedPathLens front.pathLen := by
      rw [h.lens]
      exact countLen_pos.mpr ⟨front, List.mem_of_head? hfront, rfl⟩
    have hle := h.greatest.le _ hpos
    rw [← Option.some.inj hprio]
    omega

/-- An arrival leaves the books right, unless the queue cannot even hold one packet. -/
theorem receivePacket (h : Books maxsize size q) (hmax : maxsize < 9 * size)
    (hp : p.isHeader = false → p.size = size ∧ 0 < p.pathLen ∧ p.pathLen < 20) :
    (∃ q', q.receivePacket maxsize p coin = .ok q' ∧ Books maxsize size q') ∨
      q.receivePacket maxsize p coin = .error .undefined ∧ maxsize < size := by
  unfold CompositePrioQueue.receivePacket
  split
  next hhead => exact .inl (h.exists_receiveHeader hhead)
  next hhead =>
    rw [Bool.not_eq_true] at hhead
    obtain ⟨hsize, hlen⟩ := hp hhead
    split
    next hroom => exact .inl (h.exists_enqueue_wake hmax ⟨hhead, hsize, hlen⟩ hroom)
    next hroom =>
      split
      next hfront =>
        rw [List.head?_eq_none_iff] at hfront
        refine .inr ⟨rfl, ?_⟩
        have hzero := h.low
        rw [hfront, totalSize_nil] at hzero
        omega
      next front hfront =>
        left
        split
        next prio hprio =>
          obtain ⟨q₁, hq₁, hbooks, hmade⟩ := h.exists_trim hmax (h.trimPrio_lt hfront hlen hprio)
          rw [hq₁]
          simp only [Except.bind]
          rw [if_pos (hsize ▸ hmade)]
          exact hbooks.exists_enqueue_wake hmax ⟨hhead, hsize, hlen⟩ (hsize ▸ hmade)
        next =>
          obtain ⟨r, hr⟩ := CompositeQueue.exists_stripPayload hhead
          rw [hr]
          obtain ⟨-, rfl⟩ := QueuePacket.stripPayload_eq.mp hr
          have h₁ : Books maxsize size { q with stripped := q.stripped + 1 } :=
            h.like ⟨rfl, rfl, rfl, rfl, rfl⟩
          exact h₁.exists_receiveHeader rfl

theorem exists_dequeueLowPacket (h : Books maxsize size q) (hmax : maxsize < 9 * size)
    (hne : q.enqueuedLow ≠ []) :
    ∃ r q', q.dequeueLowPacket = .ok (r, q') ∧ Books maxsize size q' := by
  have hlast : q.enqueuedLow.getLast? = some (q.enqueuedLow.getLast hne) :=
    List.getLast?_eq_some_getLast hne
  have hsplit : q.enqueuedLow = q.enqueuedLow.dropLast ++ q.enqueuedLow.getLast hne :: [] :=
    (List.dropLast_append_getLast hne).symm
  obtain ⟨q', hforget, hq', -⟩ := h.exists_forget hmax hsplit (q.numPackets + 1)
  rw [List.append_nil] at hforget
  refine ⟨q.enqueuedLow.getLast hne, q', ?_, hq'⟩
  rw [dequeueLowPacket, hlast]
  simp only [hforget]
  rfl

theorem exists_dequeueHighPacket (h : Books maxsize size q) (hmax : maxsize < 9 * size)
    (hne : q.enqueuedHigh ≠ []) :
    ∃ r q', q.dequeueHighPacket = .ok (r, q') ∧ Books maxsize size q' := by
  have hlast : q.enqueuedHigh.getLast? = some (q.enqueuedHigh.getLast hne) :=
    List.getLast?_eq_some_getLast hne
  have hq' (t : PacketType) (n : ℤ) : Books maxsize size (countServed
      { q with
        enqueuedHigh := q.enqueuedHigh.dropLast
        queuesizeHigh := n } t) := by
    cases t <;> exact h.like ⟨rfl, rfl, rfl, rfl, rfl⟩
  refine ⟨q.enqueuedHigh.getLast hne, _, ?_, hq' (q.enqueuedHigh.getLast hne).type
    (q.queuesizeHigh - (q.enqueuedHigh.getLast hne).size)⟩
  rw [dequeueHighPacket, hlast]
  simp only [(hq' _ _).checkQueued hmax]
  rfl

theorem exists_completeService (h : Books maxsize size q) (hmax : maxsize < 9 * size)
    (hserv : q.serv ≠ .invalid) (hlane : q.lane q.serv ≠ []) :
    ∃ r q', q.completeService = .ok (r, q') ∧ Books maxsize size q' := by
  have hdequeue : ∃ r q₁, (match q.serv with
      | .low => q.dequeueLowPacket
      | .high => q.dequeueHighPacket
      | .invalid => .error .assertion) = .ok (r, q₁) ∧ Books maxsize size q₁ := by
    cases hs : q.serv with
    | low =>
      rw [hs] at hlane
      exact h.exists_dequeueLowPacket hmax hlane
    | high =>
      rw [hs] at hlane
      exact h.exists_dequeueHighPacket hmax hlane
    | invalid => exact absurd hs hserv
  obtain ⟨r, q₁, hd, hq₁⟩ := hdequeue
  obtain ⟨t, ht, hok⟩ := exists_onLanes (Lanes.exists_resume q₁.toLanes)
  refine ⟨r, { q₁ with toLanes := t }, ?_,
    hq₁.like ⟨(Lanes.resume_lists ht).1, rfl, rfl, rfl, rfl⟩⟩
  rw [completeService, hd]
  simp only [Except.bind, hok]
  rfl

theorem doNextEvent (h : Books maxsize size q) (hb : q.Busy) (hmax : maxsize < 9 * size)
    (hp : q.pending ≠ []) :
    ∃ r q', q.doNextEvent = .ok (r, q') ∧ Books maxsize size q' := by
  have hserv : q.serv ≠ .invalid := fun hs => hp (hb.pending_nil hs)
  have h₁ : Books maxsize size { q with pending := q.pending.tail } :=
    h.like ⟨rfl, rfl, rfl, rfl, rfl⟩
  exact h₁.exists_completeService hmax hserv (hb.lane hserv)

end Books

/-- The packets that are not headers have one size and a path of 1 to 19 hops. -/
def Routed (size : ℕ) : CompositeQueue.Event → Prop
  | .arrive p _ => p.isHeader = false → p.size = size ∧ 0 < p.pathLen ∧ p.pathLen < 20
  | .complete => True

instance (size : ℕ) : (a : CompositeQueue.Event) → Decidable (Routed size a)
  | .arrive p _ => inferInstanceAs
      (Decidable (p.isHeader = false → p.size = size ∧ 0 < p.pathLen ∧ p.pathLen < 20))
  | .complete => isTrue trivial

variable (maxsize) in
/-- The queue with all fields set to zero at first. -/
abbrev routedSystem (size : ℕ) : System (Except Failure CompositePrioQueue) CompositeQueue.Event :=
  (system maxsize (· = 0)).restrict fun _ a => Routed size a

theorem books_reachable {size : ℕ} {s : Except Failure CompositePrioQueue}
    (hmax : maxsize < 9 * size) (h : (routedSystem maxsize size).Reachable s) :
    (∃ q, s = .ok q ∧ Books maxsize size q ∧ q.Busy) ∨
      s = .error .undefined ∧ maxsize < size := by
  induction h with
  | init hs =>
    obtain ⟨seen, rfl, rfl⟩ := hs
    exact .inl ⟨_, rfl, Books.initial, Lanes.busy_empty⟩
  | @step s a _ ha ih =>
    rcases ih with ⟨q, rfl, hbooks, hbusy⟩ | ⟨rfl, hsmall⟩
    · cases a with
      | arrive p coin =>
        rcases hbooks.receivePacket hmax ha.2 with ⟨q', hq', hbooks'⟩ | herror
        · exact .inl ⟨q', hq', hbooks', busy_receivePacket hbusy hq'⟩
        · exact .inr herror
      | complete =>
        obtain ⟨r, q', hq', hbooks'⟩ := hbooks.doNextEvent hbusy hmax ha.1
        refine .inl ⟨q', ?_, hbooks', busy_doNextEvent hbusy hq'⟩
        change q.doNextEvent.map Prod.snd = .ok q'
        rw [hq']
        rfl
    · exact absurd ha.1 id

theorem greatest_foldr (l : List QueuePacket) :
    Greatest (countLen l) ((l.map QueuePacket.pathLen).foldr max 0) := by
  induction l with
  | nil => exact ⟨fun i hi => absurd hi (lt_irrefl 0), .inl rfl⟩
  | cons p l ih =>
    rw [List.map_cons, List.foldr_cons]
    exact ih.cons p

end CompositePrioQueue

open CompositePrioQueue in
/-- The counters of path lengths and their maximum are right in every state, no assertion
fails and there always is a packet to trim. Only a queue that cannot hold one packet looks
at the front of an empty list. -/
theorem prio_bookkeeping (maxsize : ℤ) (size : ℕ) (hmax : maxsize < 9 * size)
    (s : Except Failure CompositePrioQueue) (hs : (routedSystem maxsize size).Reachable s) :
    s ≠ .error .assertion ∧ s ≠ .error .abort ∧ (s = .error .undefined → maxsize < size) ∧
      ∀ q, s = .ok q →
        (∀ i, q.enqueuedPathLens i = q.enqueuedLow.countP fun p => p.pathLen = i) ∧
          q.maxPathLenQueued = (q.enqueuedLow.map QueuePacket.pathLen).foldr max 0 := by
  rcases books_reachable hmax hs with ⟨q, rfl, hbooks, -⟩ | ⟨rfl, hsmall⟩
  · refine ⟨by simp, by simp, by simp, ?_⟩
    intro r hr
    obtain rfl := Except.ok.inj hr
    refine ⟨fun i => by rw [hbooks.lens]; rfl, ?_⟩
    have hgreatest := hbooks.greatest
    rw [hbooks.lens] at hgreatest
    exact hgreatest.eq (greatest_foldr _)
  · exact ⟨by simp, by simp, fun _ => hsmall, by simp⟩

/-- A packet of 1500 bytes with a path of the given length. -/
def labRouted (ref pathLen : ℕ) : QueuePacket := ⟨ref, .ndp, 1500, false, false, false, pathLen⟩

/-- The third packet has a shorter path than the first. -/
def labTrim : List CompositeQueue.Event :=
  [.arrive (labRouted 0 5) false, .arrive (labRouted 1 1) false, .arrive (labRouted 2 2) false]

open CompositePrioQueue in
/-- The packet with the longest path is trimmed and the maximum goes down. -/
theorem prio_bookkeeping_trim :
    ∃ q, (routedSystem 3000 1500).run (.ok (initial 0)) labTrim = .ok q ∧
      q.enqueuedLow.map QueuePacket.pathLen = [2, 1] ∧ q.maxPathLenQueued = 2 := by
  have hstart : (routedSystem 3000 1500).Reachable (.ok (initial 0)) := .init ⟨0, rfl, rfl⟩
  have hreach := hstart.run (l := labTrim) (by decide +kernel)
  have hlow : ((routedSystem 3000 1500).run (.ok (initial 0)) labTrim).map
      (fun q => q.enqueuedLow.map QueuePacket.pathLen) = .ok [2, 1] := rfl
  obtain ⟨q, hq, hmap⟩ := map_eq_ok.mp hlow
  obtain ⟨-, -, -, hbooks⟩ := prio_bookkeeping 3000 1500 (by decide) _ hreach
  refine ⟨q, hq, hmap, ?_⟩
  rw [(hbooks q hq).2, hmap]
  decide

end P4Survey.Ndp
