import Mathlib.Tactic
import P4Survey.Lib.Sorted
import P4Survey.Lib.System

/-! # The event list of the simulator

`EventList` of `eventlist.cpp`: the sources that have something to do, by the time at which
they will do it. What a source does when its time has come are calls that follow the one of
`doNextEvent`, so that a run of the simulator is a list of calls. A failed assertion ends the
simulation, here with `none`. What the calls ask for is read off the calls themselves, and what
has become of it is compared with that.
-/

namespace P4Survey.Ndp

open Lib
open scoped List

/-- A source and its time. `id` is the number of the call that scheduled it. -/
structure Entry (S : Type*) where
  when : ℕ
  src : S
  id : ℕ
  deriving DecidableEq

/-- `scheduled` numbers the calls that schedule something, `fired` holds the sources that were
called and `cancelled` the entries that were erased before; the code reads none of the three. -/
structure EventList (S : Type*) where
  endtime : ℕ
  lastEventTime : ℕ
  pendingSources : List (Entry S)
  scheduled : ℕ
  fired : List (Entry S)
  cancelled : List (Entry S)
  deriving DecidableEq

namespace EventList

variable {S : Type*}

def initial (endtime : ℕ) : EventList S := ⟨endtime, 0, [], 0, [], []⟩

def now (q : EventList S) : ℕ := q.lastEventTime

/-- Without an end time the simulation goes on forever. -/
def inTime (endtime : ℕ) (e : Entry S) : Bool := endtime = 0 ∨ e.when < endtime

/-- The entry that the next call makes. -/
def entry (q : EventList S) (src : S) (when : ℕ) : Entry S := ⟨when, src, q.scheduled⟩

def sourceIsPending (q : EventList S) (src : S) (when : ℕ) : Option (EventList S) :=
  if when < q.now then none
  else if q.endtime = 0 ∨ when < q.endtime then
    some
      { q with
        pendingSources := Multimap.insert Entry.when (q.entry src when) q.pendingSources
        scheduled := q.scheduled + 1 }
  else some { q with scheduled := q.scheduled + 1 }

/-- The time is a sum of two 64-bit numbers. -/
def sourceIsPendingRel (q : EventList S) (src : S) (timefromnow : ℕ) : Option (EventList S) :=
  q.sourceIsPending src ((q.now + timefromnow) % 2 ^ 64)

def doNextEvent (q : EventList S) : Option (Bool × EventList S) :=
  match q.pendingSources with
  | [] => some (false, q)
  | e :: l =>
    if e.when < q.lastEventTime then none
    else some (true,
      { q with lastEventTime := e.when, pendingSources := l, fired := q.fired ++ [e] })

section Calls

variable [DecidableEq S]

/-- The first entry of the source goes, if there is one. -/
def cancelPendingSource (q : EventList S) (src : S) : EventList S :=
  { q with
    pendingSources := q.pendingSources.eraseP fun e => e.src = src
    cancelled := q.cancelled ++ (q.pendingSources.find? fun e => e.src = src).toList }

def reschedulePendingSource (q : EventList S) (src : S) (when : ℕ) : Option (EventList S) :=
  (q.cancelPendingSource src).sourceIsPending src when

inductive Call (S : Type*) where
  | pending (src : S) (when : ℕ)
  | pendingRel (src : S) (timefromnow : ℕ)
  | cancel (src : S)
  | reschedule (src : S) (when : ℕ)
  | next

def step (q : EventList S) : Call S → Option (EventList S)
  | .pending src when => q.sourceIsPending src when
  | .pendingRel src timefromnow => q.sourceIsPendingRel src timefromnow
  | .cancel src => some (q.cancelPendingSource src)
  | .reschedule src when => q.reschedulePendingSource src when
  | .next => q.doNextEvent.map Prod.snd

variable (S) in
/-- Calls in any order; nothing is scheduled in the past. -/
def system : System (Option (EventList S)) (Call S) where
  init s := ∃ endtime, s = some (initial endtime)
  enabled
    | none, _ => False
    | some q, .pending _ when => q.now ≤ when
    | some q, .pendingRel _ timefromnow => q.now ≤ (q.now + timefromnow) % 2 ^ 64
    | some _, .cancel _ => True
    | some q, .reschedule _ when => q.now ≤ when
    | some _, .next => True
  next s a := s.bind fun q => q.step a

instance decidableEnabled : (s : Option (EventList S)) → (a : Call S) →
    Decidable ((system S).enabled s a)
  | none, _ => isFalse id
  | some q, .pending _ when => inferInstanceAs (Decidable (q.now ≤ when))
  | some q, .pendingRel _ timefromnow =>
    inferInstanceAs (Decidable (q.now ≤ (q.now + timefromnow) % 2 ^ 64))
  | some _, .cancel _ => isTrue trivial
  | some q, .reschedule _ when => inferInstanceAs (Decidable (q.now ≤ when))
  | some _, .next => isTrue trivial

end Calls

section Requests

/-- The source and the time that a call at the time `now` asks for. -/
def Call.schedules (now : ℕ) : Call S → Option (S × ℕ)
  | .pending src when => some (src, when)
  | .pendingRel src timefromnow => some (src, (now + timefromnow) % 2 ^ 64)
  | .cancel _ => none
  | .reschedule src when => some (src, when)
  | .next => none

/-- The source of which a call cancels an event. -/
def Call.cancels : Call S → Option S
  | .cancel src => some src
  | .reschedule src _ => some src
  | _ => none

/-- The sources and times that the calls ask for, in the order of the calls. -/
def requests [DecidableEq S] : Option (EventList S) → List (Call S) → List (S × ℕ)
  | _, [] => []
  | s, a :: l => (a.schedules ((s.map now).getD 0)).toList ++ requests ((system S).next s a) l

/-- The entry is the one of the request with its number. -/
def IsOf (r : List (S × ℕ)) (e : Entry S) : Prop := r[e.id]? = some (e.src, e.when)

instance [DecidableEq S] (r : List (S × ℕ)) (e : Entry S) : Decidable (IsOf r e) :=
  inferInstanceAs (Decidable (r[e.id]? = some (e.src, e.when)))

end Requests

/-- The order in which events are to fire: by time, and at one time as they were scheduled. -/
def Before (e f : Entry S) : Prop := e.when < f.when ∨ e.when = f.when ∧ e.id < f.id

/-- What the simulations rest on, after calls that asked for the sources and times `r` and
cancelled events of the sources `w`. -/
structure Disciplined [DecidableEq S] (endtime : ℕ) (r : List (S × ℕ)) (w : List S)
    (q : EventList S) : Prop where
  /-- The time is that of the last event. -/
  clock : q.now = (q.fired.getLast?.map Entry.when).getD 0
  ordered : q.fired.Pairwise Before
  /-- Nothing waits that should have fired already. -/
  due : ∀ e ∈ q.fired, ∀ f ∈ q.pendingSources, Before e f
  /-- A request for a time before the end time has fired, was cancelled or waits, and that once;
  nothing else has fired, was cancelled or waits. -/
  once : ∀ e, q.fired.count e + q.cancelled.count e + q.pendingSources.count e =
    if IsOf r e ∧ inTime endtime e then 1 else 0
  /-- Each cancelled event goes back to a call of its own that cancels one of its source. -/
  withdrawn : (q.cancelled.map Entry.src).Sublist w
  /-- A cancellation takes the event of the source that would be the first to fire. -/
  cancels : ∀ e ∈ q.pendingSources, (∀ f ∈ q.pendingSources, f.src = e.src → f = e ∨ Before e f) →
    (q.cancelPendingSource e.src).cancelled = q.cancelled ++ [e]
  /-- The first event that waits is the next to fire, at its time. -/
  fires : ∀ e l, q.pendingSources = e :: l → ∃ q', q.doNextEvent = some (true, q') ∧
    q'.fired = q.fired ++ [e] ∧ q'.pendingSources = l ∧ q'.now = e.when
  /-- When there is nothing left to do all events have fired but those that were cancelled. -/
  complete : q.doNextEvent = some (false, q) → ∀ e, IsOf r e → inTime endtime e →
    e ∉ q.cancelled → q.fired.count e = 1

/-- The entries of the requests. -/
def entries (r : List (S × ℕ)) : List (Entry S) := r.zipIdx.map fun p => ⟨p.1.2, p.1.1, p.2⟩

/-- What each call keeps. -/
structure Inv (endtime : ℕ) (r : List (S × ℕ)) (w : List S) (q : EventList S) : Prop where
  limit : q.endtime = endtime
  number : q.scheduled = r.length
  clock : q.now = (q.fired.getLast?.map Entry.when).getD 0
  order : (q.fired ++ q.pendingSources).Pairwise Before
  past : ∀ e ∈ q.fired, e.when ≤ q.now
  future : ∀ e ∈ q.pendingSources, q.now ≤ e.when
  withdrawn : (q.cancelled.map Entry.src).Sublist w
  accounts : ((entries r).filter (inTime endtime)).Perm (q.fired ++ q.cancelled ++ q.pendingSources)

variable {endtime : ℕ} {r : List (S × ℕ)} {w : List S} {q : EventList S} {src : S} {when : ℕ}

theorem Before.when_le {e f : Entry S} (h : Before e f) : e.when ≤ f.when := by
  rcases h with h | ⟨h, -⟩
  · exact h.le
  · exact h.le

theorem Before.of_le {e f : Entry S} (hwhen : e.when ≤ f.when) (hid : e.id < f.id) :
    Before e f := by
  rcases hwhen.lt_or_eq with hlt | heq
  · exact .inl hlt
  · exact .inr ⟨heq, hid⟩

theorem Before.asymm {e f : Entry S} (h : Before e f) (h' : Before f e) : False := by
  rcases h with h | ⟨h, hid⟩ <;> rcases h' with h' | ⟨h', hid'⟩ <;> omega

theorem mem_entries {e : Entry S} : e ∈ entries r ↔ IsOf r e := by
  rw [entries, List.mem_map, IsOf, ← List.mem_zipIdx_iff_getElem? (x := ((e.src, e.when), e.id))]
  constructor
  · rintro ⟨p, hp, rfl⟩
    exact hp
  · intro h
    exact ⟨_, h, rfl⟩

theorem entries_concat (r : List (S × ℕ)) (src : S) (when : ℕ) :
    entries (r ++ [(src, when)]) = entries r ++ [⟨when, src, r.length⟩] := by
  rw [entries, List.zipIdx_append, List.map_append]
  simp [entries]

theorem entries_nodup (r : List (S × ℕ)) : (entries r).Nodup := by
  apply List.Nodup.of_map Entry.id
  have hids : (entries r).map Entry.id = List.range' 0 r.length := by
    rw [entries, List.map_map, ← List.zipIdx_map_snd]
    rfl
  rw [hids]
  exact List.nodup_range'

theorem IsOf.id_lt {e : Entry S} (h : IsOf r e) : e.id < r.length :=
  (List.getElem?_eq_some_iff.mp h).1

theorem Inv.initial : Inv endtime [] [] (initial endtime : EventList S) := by
  refine ⟨rfl, rfl, rfl, .nil, ?_, ?_, List.Sublist.refl [], .refl []⟩
  · intro e he
    cases he
  · intro e he
    cases he

theorem Inv.isOf_of_mem (h : Inv endtime r w q) {e : Entry S}
    (he : e ∈ q.fired ++ q.cancelled ++ q.pendingSources) : IsOf r e :=
  mem_entries.mp (List.mem_filter.mp (h.accounts.mem_iff.mpr he)).1

/-- The new entry comes after all that has fired and after all that waits for the same time. -/
theorem Inv.insert (h : Inv endtime r w q) (hwhen : q.now ≤ when) :
    (q.fired ++ Multimap.insert Entry.when (q.entry src when) q.pendingSources).Pairwise Before := by
  obtain ⟨hfired, hpending, hcross⟩ := List.pairwise_append.mp h.order
  have hid {e : Entry S} (he : e ∈ q.fired ++ q.cancelled ++ q.pendingSources) :
      e.id < (q.entry src when).id := (h.isOf_of_mem he).id_lt.trans_eq h.number.symm
  rw [List.pairwise_append]
  refine ⟨hfired, ?_, fun e he f hf => ?_⟩
  · apply Multimap.insert_pairwise (R := Before) _ _ _ hpending
    · exact fun _ _ => Before.when_le
    · exact fun _ _ hlt => .inl hlt
    · exact fun e he hle => .of_le hle (hid (by simp [he]))
  · rcases List.mem_cons.mp ((Multimap.insert_perm Entry.when _ _).mem_iff.mp hf) with rfl | hf
    · exact .of_le ((h.past e he).trans hwhen) (hid (by simp [he]))
    · exact hcross e he f hf

theorem Inv.sourceIsPending (h : Inv endtime r w q) (hwhen : q.now ≤ when) :
    ∃ q', q.sourceIsPending src when = some q' ∧ Inv endtime (r ++ [(src, when)]) w q' := by
  have hnumber : q.scheduled + 1 = (r ++ [(src, when)]).length := by
    rw [h.number, List.length_append, List.length_singleton]
  have hentries : entries (r ++ [(src, when)]) = entries r ++ [q.entry src when] := by
    rw [entries_concat, ← h.number]
    rfl
  have hin : inTime endtime (q.entry src when) = decide (q.endtime = 0 ∨ when < q.endtime) := by
    rw [h.limit]
    rfl
  rw [EventList.sourceIsPending, if_neg (not_lt.mpr hwhen)]
  by_cases htime : q.endtime = 0 ∨ when < q.endtime
  · rw [if_pos htime]
    have hperm := Multimap.insert_perm Entry.when (q.entry src when) q.pendingSources
    refine ⟨_, rfl, h.limit, hnumber, h.clock, h.insert hwhen, h.past, fun e he => ?_,
      h.withdrawn, ?_⟩
    · rcases List.mem_cons.mp (hperm.mem_iff.mp he) with rfl | he
      · exact hwhen
      · exact h.future e he
    · dsimp only
      rw [hentries, List.filter_append, List.filter_singleton, hin, decide_eq_true htime, cond_true]
      calc
        _ ~ q.entry src when :: (entries r).filter (inTime endtime) :=
          List.perm_append_singleton _ _
        _ ~ q.entry src when :: (q.fired ++ q.cancelled ++ q.pendingSources) :=
          h.accounts.cons _
        _ ~ q.fired ++ q.cancelled ++ q.entry src when :: q.pendingSources :=
          List.perm_middle.symm
        _ ~ _ := hperm.symm.append_left _
  · rw [if_neg htime]
    refine ⟨_, rfl, h.limit, hnumber, h.clock, h.order, h.past, h.future, h.withdrawn, ?_⟩
    dsimp only
    rw [hentries, List.filter_append, List.filter_singleton, hin, decide_eq_false htime, cond_false,
      List.append_nil]
    exact h.accounts

theorem Inv.doNextEvent_cons (h : Inv endtime r w q) {e : Entry S} {l : List (Entry S)}
    (hpending : q.pendingSources = e :: l) :
    q.doNextEvent = some (true,
      { q with lastEventTime := e.when, pendingSources := l, fired := q.fired ++ [e] }) := by
  have hdue : q.lastEventTime ≤ e.when := h.future e (by simp [hpending])
  rw [EventList.doNextEvent, hpending]
  exact if_neg (not_lt.mpr hdue)

/-- The event that fires is the first of those that waited. -/
theorem Inv.doNextEvent (h : Inv endtime r w q) :
    ∃ b q', q.doNextEvent = some (b, q') ∧ Inv endtime r w q' := by
  cases hpending : q.pendingSources with
  | nil => exact ⟨false, q, by rw [EventList.doNextEvent, hpending], h⟩
  | cons e l =>
    have horder := h.order
    have haccounts := h.accounts
    rw [hpending] at horder haccounts
    refine ⟨_, _, h.doNextEvent_cons hpending, h.limit, h.number, ?_, ?_, fun f hf => ?_,
      fun f hf => ?_, h.withdrawn, ?_⟩
    · rw [List.getLast?_concat]
      rfl
    · dsimp only
      rwa [List.append_assoc]
    · rcases List.mem_append.mp hf with hf | hf
      · exact (h.past f hf).trans (h.future e (by simp [hpending]))
      · rw [List.mem_singleton.mp hf]
        exact le_rfl
    · have hrest := (List.pairwise_append.mp horder).2.1
      exact (List.rel_of_pairwise_cons hrest hf).when_le
    · calc
        _ ~ q.fired ++ q.cancelled ++ e :: l := haccounts
        _ ~ e :: (q.fired ++ q.cancelled ++ l) := List.perm_middle
        _ ~ q.fired ++ e :: (q.cancelled ++ l) := by
          rw [List.append_assoc]
          exact List.perm_middle.symm
        _ ~ _ := by simp

variable [DecidableEq S]

theorem Inv.cancelPendingSource (h : Inv endtime r w q) (src : S) :
    Inv endtime r (w ++ [src]) (q.cancelPendingSource src) := by
  have hsub : (q.cancelPendingSource src).pendingSources.Sublist q.pendingSources :=
    List.eraseP_sublist
  refine ⟨h.limit, h.number, h.clock, h.order.sublist (hsub.append_left _), h.past,
    fun e he => h.future e (hsub.mem he), ?_, ?_⟩
  · change (List.map Entry.src (q.cancelled ++ _)).Sublist _
    rw [List.map_append]
    apply h.withdrawn.append
    cases hfind : q.pendingSources.find? fun e => e.src = src with
    | none => exact List.nil_sublist _
    | some e =>
      have hsrc : e.src = src := by simpa using List.find?_some hfind
      rw [Option.toList_some, List.map_singleton, hsrc]
  · refine h.accounts.trans ?_
    change _ ~ q.fired ++ (q.cancelled ++ _) ++ _
    rw [← List.append_assoc, List.append_assoc (q.fired ++ q.cancelled)]
    exact (Multimap.find?_append_eraseP_perm _ _).symm.append_left _

/-- No call fails, and each keeps the invariant. -/
theorem Inv.next (h : Inv endtime r w q) {a : Call S} (henabled : (system S).enabled (some q) a) :
    ∃ q', (system S).next (some q) a = some q' ∧
      Inv endtime (r ++ (a.schedules q.now).toList) (w ++ a.cancels.toList) q' := by
  cases a with
  | pending src when =>
    rw [show (Call.pending src when).cancels.toList = [] from rfl, List.append_nil]
    exact h.sourceIsPending henabled
  | pendingRel src timefromnow =>
    rw [show (Call.pendingRel src timefromnow).cancels.toList = [] from rfl, List.append_nil]
    exact h.sourceIsPending henabled
  | cancel src =>
    rw [show ((Call.cancel src).schedules q.now).toList = [] from rfl, List.append_nil]
    exact ⟨_, rfl, h.cancelPendingSource src⟩
  | reschedule src when => exact (h.cancelPendingSource src).sourceIsPending henabled
  | next =>
    rw [show ((Call.next : Call S).schedules q.now).toList = [] from rfl,
      show (Call.next : Call S).cancels.toList = [] from rfl, List.append_nil, List.append_nil]
    obtain ⟨b, q', hq', hinv⟩ := h.doNextEvent
    refine ⟨q', ?_, hinv⟩
    change q.doNextEvent.map Prod.snd = some q'
    rw [hq']
    rfl

theorem Inv.run {l : List (Call S)} (h : Inv endtime r w q)
    (hl : (system S).Allowed (some q) l) :
    ∃ q', (system S).run (some q) l = some q' ∧
      Inv endtime (r ++ requests (some q) l) (w ++ l.filterMap Call.cancels) q' := by
  induction l generalizing q r w with
  | nil =>
    rw [requests, List.filterMap_nil, List.append_nil, List.append_nil]
    exact ⟨q, rfl, h⟩
  | cons a l ih =>
    obtain ⟨q', hq', hinv⟩ := h.next hl.1
    have hrest := hl.2
    rw [hq'] at hrest
    obtain ⟨q'', hrun, hfinal⟩ := ih hinv hrest
    refine ⟨q'', by rw [System.run, hq', hrun], ?_⟩
    have hcancels : (a :: l).filterMap Call.cancels =
        a.cancels.toList ++ l.filterMap Call.cancels := by
      rw [List.filterMap_cons]
      cases a.cancels <;> rfl
    rw [requests, hq', hcancels, ← List.append_assoc, ← List.append_assoc]
    exact hfinal

theorem Inv.count (h : Inv endtime r w q) (e : Entry S) :
    q.fired.count e + q.cancelled.count e + q.pendingSources.count e =
      if IsOf r e ∧ inTime endtime e then 1 else 0 := by
  have hcount := h.accounts.count_eq e
  rw [((entries_nodup r).filter _).count, List.count_append, List.count_append] at hcount
  rw [← hcount]
  simp [List.mem_filter, mem_entries]

/-- The first event of a source in the list is the one that would be the first to fire. -/
theorem Inv.cancels (h : Inv endtime r w q) {e : Entry S} (he : e ∈ q.pendingSources)
    (hfirst : ∀ f ∈ q.pendingSources, f.src = e.src → f = e ∨ Before e f) :
    (q.cancelPendingSource e.src).cancelled = q.cancelled ++ [e] := by
  have hpending := (List.pairwise_append.mp h.order).2.1
  have hfind : (q.pendingSources.find? fun f => f.src = e.src) = some e := by
    obtain ⟨l, l', hl⟩ := List.append_of_mem he
    rw [hl] at hpending hfirst ⊢
    rw [List.find?_append, List.find?_cons_of_pos (by simp)]
    have hnone : (l.find? fun f => f.src = e.src) = none := by
      rw [List.find?_eq_none]
      intro f hf hsrc
      have hbefore : Before f e := (List.pairwise_append.mp hpending).2.2 f hf e (by simp)
      rcases hfirst f (by simp [hf]) (of_decide_eq_true hsrc) with rfl | hafter
      · exact hbefore.asymm hbefore
      · exact hbefore.asymm hafter
    rw [hnone]
    rfl
  rw [EventList.cancelPendingSource, hfind]
  rfl

theorem Inv.disciplined (h : Inv endtime r w q) : q.Disciplined endtime r w := by
  obtain ⟨hfired, -, hcross⟩ := List.pairwise_append.mp h.order
  refine ⟨h.clock, hfired, hcross, h.count, h.withdrawn, fun e he hfirst => h.cancels he hfirst,
    fun e l hpending => ?_, fun hlast e he htime hc => ?_⟩
  · exact ⟨_, h.doNextEvent_cons hpending, rfl, rfl, rfl⟩
  · have hnone : q.pendingSources = [] := by
      rw [EventList.doNextEvent] at hlast
      split at hlast
      · assumption
      · split_ifs at hlast
        cases hlast
    have hcount := h.count e
    rw [if_pos ⟨he, htime⟩, hnone, List.count_eq_zero_of_not_mem hc] at hcount
    exact hcount

/-- As many calls of `doNextEvent` as events wait fire them all. -/
theorem Inv.drain (h : Inv endtime r w q) :
    ∃ q', (system S).run (some q) (List.replicate q.pendingSources.length .next) = some q' ∧
      q'.fired = q.fired ++ q.pendingSources ∧ q'.pendingSources = [] := by
  induction hpending : q.pendingSources generalizing q r w with
  | nil => exact ⟨q, rfl, (List.append_nil _).symm, hpending⟩
  | cons e l ih =>
    obtain ⟨q', hq', hinv⟩ := h.next (a := .next) trivial
    have hfires : (system S).next (some q) .next = some
        { q with lastEventTime := e.when, pendingSources := l, fired := q.fired ++ [e] } := by
      change q.doNextEvent.map Prod.snd = _
      rw [h.doNextEvent_cons hpending]
      rfl
    cases hq'.symm.trans hfires
    obtain ⟨q'', hrun, hfired, hnone⟩ := ih hinv rfl
    refine ⟨q'', ?_, ?_, hnone⟩
    · rw [List.length_cons, List.replicate_succ, System.run, hq']
      exact hrun
    · rw [hfired]
      exact List.append_cons q.fired e l |>.symm

/-- No call fails. The events fire in the order of their times, those of one time in the order
in which they were scheduled, and each request of the calls for a time before the end time fires
once, at that time and for that source, unless it is cancelled, at the latest when `doNextEvent`
is called for each event that waits. -/
theorem events_fire_in_order (endtime : ℕ) (l : List (Call S))
    (hl : (system S).Allowed (some (initial endtime)) l) :
    ∃ q, (system S).run (some (initial endtime)) l = some q ∧
      q.Disciplined endtime (requests (some (initial endtime)) l) (l.filterMap Call.cancels) ∧
      ∃ q', (system S).run (some q) (List.replicate q.pendingSources.length .next) = some q' ∧
        q'.fired = q.fired ++ q.pendingSources ∧ q'.pendingSources = [] := by
  obtain ⟨q, hq, h⟩ := Inv.initial.run hl
  exact ⟨q, hq, h.disciplined, h.drain⟩

/-- Two events at one time, one of two of a source cancelled, and one too late. -/
theorem events_fire_in_order_program :
    ∃ q, (system ℕ).run (some (initial 100))
        [.pending 1 30, .pending 2 30, .pending 1 20, .cancel 1, .next, .pendingRel 3 200] =
      some q ∧
      q.Disciplined 100 [(1, 30), (2, 30), (1, 20), (3, 230)] [1] ∧
      ∃ q', (system ℕ).run (some q) (List.replicate q.pendingSources.length .next) = some q' ∧
        q'.fired = q.fired ++ q.pendingSources ∧ q'.pendingSources = [] :=
  events_fire_in_order 100 _ (by decide)

end EventList

end P4Survey.Ndp
