import P4Survey.Lib.System
import P4Survey.Ndp.PullQueue

/-! # The order of the pulls

What `FairPullQueue` is for: the pulls of a flow leave in the order in which they came, and
the flows that have pulls take turns.
-/

namespace P4Survey.Ndp

open Lib

namespace FairPullQueue

variable {α : Type*}

/-- The pulls of a flow, the oldest first. -/
def pulls (q : FairPullQueue α) (flow : ℤ) : List α := ((q.findQueue flow).getD []).reverse

/-- The flow is not before the iterator. -/
def AtOrAfter (pos : Option ℤ) (flow : ℤ) : Prop := ∃ c ∈ pos, c ≤ flow

/-- The first of some flows from a position on, in the order of their ids and round the
end. -/
structure FirstFrom (pos : Option ℤ) (P : ℤ → Prop) (flow : ℤ) : Prop where
  holds : P flow
  after : AtOrAfter pos flow → ∀ g, P g → AtOrAfter pos g → flow ≤ g
  wrapped : ¬AtOrAfter pos flow → ∀ g, P g → ¬AtOrAfter pos g ∧ flow ≤ g

/-- The map as the loop of `dequeue` goes through it. -/
def roundRobin (q : FairPullQueue α) : List (ℤ × List α) :=
  match q.currentQueue with
  | none => q.queueMap
  | some c => (q.queueMap.filter fun e => c ≤ e.1) ++ q.queueMap.filter fun e => e.1 < c

/-- The flow whose turn it is. -/
def servedFlow (q : FairPullQueue α) : Option ℤ :=
  (q.roundRobin.find? fun e => !e.2.isEmpty).map Prod.fst

section Lookup

variable {flow g : ℤ} {l : List α} {m : List (ℤ × List α)}

theorem lookup_setQueue_self {l' : List α} (h : m.lookup flow = some l') :
    (setQueue flow l m).lookup flow = some l := by
  induction m with
  | nil => cases h
  | cons e m ih =>
    by_cases he : e.1 = flow
    · simp [setQueue, he]
    · have hne : (flow == e.1) = false := by simpa using Ne.symm he
      rw [List.lookup_cons, hne] at h
      rw [setQueue, List.map_cons, if_neg he, List.lookup_cons, hne]
      exact ih h

theorem lookup_setQueue_of_ne (hg : g ≠ flow) : (setQueue flow l m).lookup g = m.lookup g := by
  induction m with
  | nil => rfl
  | cons e m ih =>
    by_cases he : e.1 = flow
    · have hne : (g == flow) = false := by simpa using hg
      rw [setQueue, List.map_cons, if_pos he, List.lookup_cons, List.lookup_cons, he, hne]
      exact ih
    · rw [setQueue, List.map_cons, if_neg he, List.lookup_cons, List.lookup_cons]
      rw [setQueue] at ih
      rw [ih]

theorem lookup_createQueue_self (h : m.lookup flow = none) :
    (createQueue flow m).lookup flow = some [] := by
  induction m with
  | nil => simp [createQueue]
  | cons e m ih =>
    have hne : (flow == e.1) = false := by
      by_contra hc
      rw [Bool.not_eq_false] at hc
      rw [List.lookup_cons, hc] at h
      cases h
    rw [List.lookup_cons, hne] at h
    rw [createQueue]
    split_ifs
    · simp
    · rw [List.lookup_cons, hne]
      exact ih h

theorem lookup_createQueue_of_ne (hg : g ≠ flow) :
    (createQueue flow m).lookup g = m.lookup g := by
  have hne : (g == flow) = false := by simpa using hg
  induction m with
  | nil => rw [createQueue, List.lookup_cons, hne]
  | cons e m ih =>
    rw [createQueue]
    split_ifs
    · rw [List.lookup_cons, hne]
    · rw [List.lookup_cons, List.lookup_cons, ih]

theorem lookup_filter_self : (m.filter fun e => e.1 ≠ flow).lookup flow = none := by
  rw [List.lookup_eq_none_iff]
  intro e he
  have := (List.mem_filter.mp he).2
  simp at this
  simpa using Ne.symm this

theorem lookup_filter_of_ne (hg : g ≠ flow) :
    (m.filter fun e => e.1 ≠ flow).lookup g = m.lookup g := by
  induction m with
  | nil => rfl
  | cons e m ih =>
    by_cases he : e.1 = flow
    · have hne : (g == e.1) = false := by simpa [he] using hg
      rw [List.filter_cons_of_neg (by simpa using he), List.lookup_cons, hne, ih]
    · rw [List.filter_cons_of_pos (by simpa using he), List.lookup_cons, List.lookup_cons, ih]

end Lookup

variable {q q' : FairPullQueue α} {flow g : ℤ} {x : α} {l : List α}

theorem pulls_enqueue (q : FairPullQueue α) (flow : ℤ) (x : α) (g : ℤ) :
    (q.enqueue flow x).pulls g = if g = flow then q.pulls flow ++ [x] else q.pulls g := by
  rw [enqueue, pulls, findQueue, pulls, pulls, findQueue]
  cases hl : q.queueMap.lookup flow with
  | some l =>
    split_ifs with hg
    · rw [hg]
      dsimp only
      rw [lookup_setQueue_self hl]
      simp
    · dsimp only
      rw [lookup_setQueue_of_ne hg]
      rfl
  | none =>
    split_ifs with hg
    · rw [hg]
      dsimp only
      rw [lookup_setQueue_self (lookup_createQueue_self hl)]
      simp
    · dsimp only
      rw [lookup_setQueue_of_ne hg, lookup_createQueue_of_ne hg]
      rfl

theorem pulls_flushFlow (q : FairPullQueue α) (flow g : ℤ) :
    (q.flushFlow flow).pulls g = if g = flow then [] else q.pulls g := by
  have hfind : (q.flushFlow flow).findQueue g = if g = flow then none else q.findQueue g := by
    rw [flushFlow]
    cases hl : q.findQueue flow with
    | none =>
      by_cases hg : g = flow
      · rw [if_pos hg, hg]
        exact hl
      · rw [if_neg hg]
    | some l =>
      by_cases hg : g = flow
      · rw [if_pos hg, hg]
        exact lookup_filter_self
      · rw [if_neg hg]
        exact lookup_filter_of_ne hg
  rw [pulls, hfind]
  by_cases hg : g = flow
  · rw [if_pos hg, if_pos hg]
    rfl
  · rw [if_neg hg, if_neg hg]
    rfl

theorem pulls_afterPull (hl : q.findQueue flow = some (l ++ [x])) (g : ℤ) :
    q.pulls g = if g = flow then x :: (q.afterPull flow l).pulls g
      else (q.afterPull flow l).pulls g := by
  split_ifs with hg
  · rw [hg, pulls, pulls, hl, afterPull, findQueue, lookup_setQueue_self hl]
    simp
  · rw [pulls, pulls, afterPull, findQueue, findQueue, lookup_setQueue_of_ne hg]

section Round

variable {a b : List (ℤ × List α)} {e e' : ℤ × List α}

/-- One queue comes before another one on the round from a position. -/
def Precedes (pos : Option ℤ) (e e' : ℤ × List α) : Prop :=
  (AtOrAfter pos e.1 → AtOrAfter pos e'.1 → e.1 < e'.1) ∧
    (¬AtOrAfter pos e.1 → ¬AtOrAfter pos e'.1 ∧ e.1 < e'.1)

theorem atOrAfter_some {c : ℤ} : AtOrAfter (some c) flow ↔ c ≤ flow := by
  simp [AtOrAfter]

theorem not_atOrAfter_none : ¬AtOrAfter none flow := by
  simp [AtOrAfter]

theorem WellFormed.pairwise_roundRobin (h : q.WellFormed) :
    q.roundRobin.Pairwise (Precedes q.currentQueue) := by
  have hs : q.queueMap.Pairwise fun e e' => e.1 < e'.1 := h.sorted
  rw [roundRobin]
  cases q.currentQueue with
  | none =>
    refine hs.imp fun hlt => ⟨fun ha => absurd ha not_atOrAfter_none, fun _ => ?_⟩
    exact ⟨not_atOrAfter_none, hlt⟩
  | some c =>
    rw [List.pairwise_append]
    refine ⟨?_, ?_, ?_⟩
    · refine (hs.filter _).imp_of_mem fun {x y} hx _ hlt => ⟨fun _ _ => hlt, fun hx' => ?_⟩
      exact absurd (atOrAfter_some.mpr (by simpa using (List.mem_filter.mp hx).2)) hx'
    · refine (hs.filter _).imp_of_mem fun {x y} hx hy hlt => ⟨fun _ _ => hlt, fun _ => ⟨?_, hlt⟩⟩
      rw [atOrAfter_some, not_le]
      simpa using (List.mem_filter.mp hy).2
    · intro x hx y hy
      have hx' : c ≤ x.1 := by simpa using (List.mem_filter.mp hx).2
      have hy' : y.1 < c := by simpa using (List.mem_filter.mp hy).2
      refine ⟨fun _ hya => ?_, fun hxa => absurd (atOrAfter_some.mpr hx') hxa⟩
      exact absurd (atOrAfter_some.mp hya) (not_le.mpr hy')

/-- The loop of `dequeue` goes through the map in this order. -/
theorem At.roundRobin (h : At q a e b) (hw : q.WellFormed) : q.roundRobin = e :: b ++ a := by
  have hab := hw.sorted
  rw [h.queueMap, sorted_split_iff] at hab
  obtain ⟨-, -, hab⟩ := hab
  rcases h.current with hc | ⟨hc, rfl⟩
  · have ha : a.filter (fun x => e.1 ≤ x.1) = [] := by
      rw [List.filter_eq_nil_iff]
      intro x hx
      simpa using hab.before x hx
    have hb : b.filter (fun x => e.1 ≤ x.1) = b := by
      rw [List.filter_eq_self]
      intro x hx
      simpa using (hab.after x hx).le
    have ha' : a.filter (fun x => x.1 < e.1) = a := by
      rw [List.filter_eq_self]
      intro x hx
      simpa using hab.before x hx
    have hb' : b.filter (fun x => x.1 < e.1) = [] := by
      rw [List.filter_eq_nil_iff]
      intro x hx
      simpa using (hab.after x hx).le
    rw [FairPullQueue.roundRobin, hc, h.queueMap]
    simp only [List.filter_append, List.filter_cons, ha, hb, ha', hb', le_refl, lt_irrefl,
      decide_true, decide_false, if_true, Bool.false_eq_true, if_false, List.nil_append,
      List.append_nil]
  · rw [FairPullQueue.roundRobin, hc, h.queueMap]
    simp

theorem mem_roundRobin (q : FairPullQueue α) (e : ℤ × List α) :
    e ∈ q.roundRobin ↔ e ∈ q.queueMap := by
  rw [FairPullQueue.roundRobin]
  cases q.currentQueue with
  | none => rfl
  | some c =>
    simp only [List.mem_append, List.mem_filter, decide_eq_true_eq]
    constructor
    · rintro (h | h)
      · exact h.1
      · exact h.1
    · intro h
      rcases le_or_gt c e.1 with hc | hc
      · exact .inl ⟨h, hc⟩
      · exact .inr ⟨h, hc⟩

theorem WellFormed.findQueue_of_mem (h : q.WellFormed) (he : e ∈ q.queueMap) :
    q.findQueue e.1 = some e.2 := by
  obtain ⟨a, b, hm⟩ := List.append_of_mem he
  have hab := h.sorted
  rw [hm, sorted_split_iff] at hab
  rw [findQueue, hm]
  exact hab.2.2.lookup

/-- A flow with pulls has a queue in the map. -/
theorem exists_mem_of_pulls (h : q.pulls flow ≠ []) :
    ∃ l, (flow, l) ∈ q.queueMap ∧ l ≠ [] ∧ q.pulls flow = l.reverse := by
  rw [pulls] at h
  cases hl : q.findQueue flow with
  | none => simp [hl] at h
  | some l =>
    refine ⟨l, ?_, ?_, by rw [pulls, hl]; rfl⟩
    · obtain ⟨a, b, hm, -⟩ := List.lookup_eq_some_iff.mp hl
      rw [hm]
      simp
    · rintro rfl
      simp [hl] at h

/-- What `dequeue` does when anything is queued: it takes the oldest pull of the flow whose
turn it is, and the iterator moves on from that flow. -/
theorem WellFormed.dequeue_served (h : q.WellFormed) (hne : ¬q.IsEmpty) :
    ∃ flow x q', q.servedFlow = some flow ∧
      FirstFrom q.currentQueue (fun g => q.pulls g ≠ []) flow ∧
      q.dequeue = some (x, q') ∧ q'.WellFormed ∧ q'.currentQueue = q.nextQueue flow ∧
      ∀ g, q.pulls g = if g = flow then x :: q'.pulls g else q'.pulls g := by
  obtain ⟨a, c, b, pre, e, post, hat, hround, hpre, he⟩ := h.exists_round hne
  have hrr : q.roundRobin = pre ++ e :: post := (hat.roundRobin h).trans hround
  have hmem : e ∈ q.queueMap := by
    rw [← mem_roundRobin, hrr]
    simp
  obtain ⟨a', b', hm⟩ := List.append_of_mem hmem
  have hfind := h.findQueue_of_mem hmem
  have hpulls : q.pulls e.1 = e.2.reverse := by rw [pulls, hfind]; rfl
  have hpairs := h.pairwise_roundRobin
  rw [hrr, List.pairwise_append, List.pairwise_cons] at hpairs
  have hlater (g : ℤ) (hg : q.pulls g ≠ []) :
      g = e.1 ∨ ∃ l, Precedes q.currentQueue e (g, l) := by
    obtain ⟨l, hl, hlne, -⟩ := exists_mem_of_pulls hg
    rw [← mem_roundRobin, hrr, List.mem_append, List.mem_cons] at hl
    rcases hl with hl | rfl | hl
    · exact absurd (hpre _ hl) hlne
    · exact .inl rfl
    · exact .inr ⟨l, hpairs.2.1.1 _ hl⟩
  refine ⟨e.1, e.2.getLast he, q.afterPull e.1 e.2.dropLast, ?_, ⟨?_, ?_, ?_⟩,
    hat.dequeue h hround hpre he hne, (h.afterPull hm he).1, rfl, ?_⟩
  · have hserved : q.roundRobin.find? (fun e => !e.2.isEmpty) = some e := by
      rw [List.find?_eq_some_iff_append]
      exact ⟨by simpa using he, pre, post, hrr, fun x hx => by simpa using hpre x hx⟩
    rw [servedFlow, hserved]
    rfl
  · rw [hpulls]
    simpa using he
  · intro hafter g hg hga
    rcases hlater g hg with rfl | ⟨l, hl⟩
    · exact le_rfl
    · exact (hl.1 hafter hga).le
  · intro hbefore g hg
    rcases hlater g hg with rfl | ⟨l, hl⟩
    · exact ⟨hbefore, le_rfl⟩
    · exact ⟨(hl.2 hbefore).1, (hl.2 hbefore).2.le⟩
  · refine pulls_afterPull ?_
    rw [hfind, List.dropLast_append_getLast]

end Round

section Fairness

variable {F : ℤ}

/-- The iterator has gone by this flow since it went by `F`. -/
def Passed (F : ℤ) (pos : Option ℤ) (g : ℤ) : Prop :=
  match pos with
  | none => F < g
  | some c => if F < c then F < g ∧ g < c else F < g ∨ g < c

theorem passed_some {c : ℤ} :
    Passed F (some c) g ↔ if F < c then F < g ∧ g < c else F < g ∨ g < c := Iff.rfl

/-- The iterator moves to the next flow of the map, or to its end. -/
theorem WellFormed.nextQueue_cases (h : q.WellFormed) (flow : ℤ) :
    (q.nextQueue flow = none ∧ ∀ e ∈ q.queueMap, e.1 ≤ flow) ∨
      ∃ c, q.nextQueue flow = some c ∧ flow < c ∧ ∀ e ∈ q.queueMap, flow < e.1 → c ≤ e.1 := by
  have hs := h.sorted
  rw [nextQueue]
  cases hf : q.queueMap.find? fun e => flow < e.1 with
  | none =>
    left
    refine ⟨rfl, fun e he => ?_⟩
    simpa using List.find?_eq_none.mp hf e he
  | some x =>
    right
    obtain ⟨hx, pre, post, hm, hpre⟩ := List.find?_eq_some_iff_append.mp hf
    rw [hm, sorted_split_iff] at hs
    refine ⟨x.1, rfl, by simpa using hx, fun e he hlt => ?_⟩
    rw [hm, List.mem_append, List.mem_cons] at he
    rcases he with he | rfl | he
    · have := hpre e he
      simp at this
      omega
    · exact le_rfl
    · exact (hs.2.2.after e he).le

/-- From the position after a flow that is not `F`, the iterator has gone by that flow and all
it had gone by before, as long as `F` has a queue. -/
theorem WellFormed.passed_nextQueue (h : q.WellFormed) {c : ℤ} (hF : ∃ l, (F, l) ∈ q.queueMap)
    (hc : c ≠ F) (hg : g = c ∨ if F < c then F < g ∧ g < c else F < g ∨ g < c) :
    Passed F (q.nextQueue c) g := by
  obtain ⟨l, hl⟩ := hF
  rcases h.nextQueue_cases c with ⟨hnone, hle⟩ | ⟨d, hd, hcd, hmin⟩
  · have hlast := hle _ hl
    rw [hnone]
    change F < g
    split_ifs at hg <;> omega
  · have hnext := hmin _ hl
    rw [hd, passed_some]
    split_ifs at hg ⊢ <;> omega

/-- The flow that is served next has not been passed, and then it has. -/
theorem WellFormed.passed_served (h : q.WellFormed) (hF : q.pulls F ≠ [])
    (hfirst : FirstFrom q.currentQueue (fun g => q.pulls g ≠ []) flow) (hne : flow ≠ F) :
    ¬Passed F q.currentQueue flow ∧
      ∀ g, g = flow ∨ Passed F q.currentQueue g → Passed F (q.nextQueue flow) g := by
  obtain ⟨l, hl, -, -⟩ := exists_mem_of_pulls hF
  have hmem : ∃ l, (F, l) ∈ q.queueMap := ⟨l, hl⟩
  have hafter := fun ha => hfirst.after ha F hF
  have hwrapped := fun ha => hfirst.wrapped ha F hF
  cases hpos : q.currentQueue with
  | none =>
    rw [hpos] at hwrapped
    have hlt := (hwrapped not_atOrAfter_none).2
    refine ⟨fun hp => ?_, fun g hg => h.passed_nextQueue hmem hne ?_⟩
    · change F < flow at hp
      omega
    · rcases hg with rfl | hg
      · exact .inl rfl
      · change F < g at hg
        right
        split_ifs <;> omega
  | some c =>
    rw [hpos, atOrAfter_some, atOrAfter_some] at hafter
    rw [hpos, atOrAfter_some, atOrAfter_some] at hwrapped
    refine ⟨fun hp => ?_, fun g hg => h.passed_nextQueue hmem hne ?_⟩
    · rw [passed_some] at hp
      split_ifs at hp <;> omega
    · rcases hg with rfl | hg
      · exact .inl rfl
      · rw [passed_some] at hg
        right
        split_ifs at hg ⊢ <;> omega

/-- When the queue of another flow goes, the iterator does not fall back. -/
theorem WellFormed.passed_flushFlow (h : q.WellFormed) (hF : q.pulls F ≠ []) (hne : flow ≠ F)
    (hg : Passed F q.currentQueue g) : Passed F (q.flushFlow flow).currentQueue g := by
  obtain ⟨l, hl, -, -⟩ := exists_mem_of_pulls hF
  rw [FairPullQueue.flushFlow]
  cases q.findQueue flow with
  | none => exact hg
  | some l' =>
    by_cases hc : q.currentQueue = some flow
    · simp only [hc, if_true]
      rw [hc, passed_some] at hg
      exact h.passed_nextQueue ⟨l, hl⟩ hne (.inr hg)
    · simp only [hc, if_false]
      exact hg

end Fairness

inductive Op (α : Type*) where
  | enqueue (flow : ℤ) (x : α)
  | dequeue
  | flushFlow (flow : ℤ)

/-- The queue after an operation. -/
def apply (q : FairPullQueue α) : Op α → FairPullQueue α
  | .enqueue flow x => q.enqueue flow x
  | .dequeue => (q.dequeue.map Prod.snd).getD q
  | .flushFlow flow => q.flushFlow flow

/-- Any sequence of operations. -/
def system (α : Type*) : System (FairPullQueue α) (Op α) where
  init q := q = empty
  enabled _ _ := True
  next := apply

/-- The pulls of a flow that an operation adds. -/
def enter (flow : ℤ) : Op α → List α
  | .enqueue g x => if g = flow then [x] else []
  | .dequeue => []
  | .flushFlow _ => []

/-- The pulls of a flow that leave in one operation, in the order in which they do. -/
def leave (flow : ℤ) (q : FairPullQueue α) : Op α → List α
  | .enqueue _ _ => []
  | .dequeue => if q.servedFlow = some flow then (q.dequeue.map Prod.fst).toList else []
  | .flushFlow g => if g = flow then q.pulls flow else []

/-- The pulls of a flow that leave in a list of operations. -/
def left (flow : ℤ) (q : FairPullQueue α) : List (Op α) → List α
  | [] => []
  | op :: l => leave flow q op ++ left flow (q.apply op) l

/-- The flow that an operation serves. -/
def serve (q : FairPullQueue α) : Op α → List ℤ
  | .enqueue _ _ => []
  | .dequeue => q.servedFlow.toList
  | .flushFlow _ => []

/-- The flows that are served in a list of operations. -/
def services (q : FairPullQueue α) : List (Op α) → List ℤ
  | [] => []
  | op :: l => serve q op ++ services (q.apply op) l

theorem WellFormed.isEmpty_iff (h : q.WellFormed) : q.IsEmpty ↔ ∀ flow, q.pulls flow = [] := by
  constructor
  · intro he flow
    by_contra hne
    obtain ⟨l, hl, hlne, -⟩ := exists_mem_of_pulls hne
    have hzero : (q.queueMap.map fun e => e.2.length).sum = 0 := h.count.symm.trans he
    have hlen := List.sum_eq_zero_iff.mp hzero l.length (List.mem_map_of_mem hl)
    exact hlne (List.length_eq_zero_iff.mp hlen)
  · intro hall
    by_contra hne
    obtain ⟨flow, x, q', -, hfirst, -⟩ := h.dequeue_served hne
    exact hfirst.holds (hall flow)

theorem dequeue_of_isEmpty (h : q.IsEmpty) : q.dequeue = none := if_pos h

theorem WellFormed.servedFlow_of_isEmpty (h : q.WellFormed) (he : q.IsEmpty) :
    q.servedFlow = none := by
  rw [servedFlow, Option.map_eq_none_iff, List.find?_eq_none]
  intro e hmem
  rw [mem_roundRobin] at hmem
  have hpulls := h.isEmpty_iff.mp he e.1
  rw [pulls, h.findQueue_of_mem hmem] at hpulls
  simpa using hpulls

theorem WellFormed.apply (h : q.WellFormed) (op : Op α) : (q.apply op).WellFormed := by
  cases op with
  | enqueue flow x => exact h.enqueue flow x
  | flushFlow flow => exact h.flushFlow flow
  | dequeue =>
    by_cases hne : q.IsEmpty
    · rw [FairPullQueue.apply, dequeue_of_isEmpty hne]
      exact h
    · obtain ⟨x, q', hq', hw, -⟩ := h.dequeue hne
      rw [FairPullQueue.apply, hq']
      exact hw

theorem wellFormed_reachable (h : (system α).Reachable q) : q.WellFormed := by
  induction h with
  | init hs =>
    obtain rfl := hs
    exact wellFormed_empty
  | step _ _ ih => exact ih.apply _

/-- In one operation the pulls of a flow leave from the front and enter at the end. -/
theorem WellFormed.pulls_apply (h : q.WellFormed) (flow : ℤ) (op : Op α) :
    q.pulls flow ++ enter flow op = leave flow q op ++ (q.apply op).pulls flow := by
  cases op with
  | enqueue g x =>
    rw [leave, List.nil_append, FairPullQueue.apply, pulls_enqueue, enter]
    by_cases hg : g = flow
    · rw [if_pos hg, if_pos hg.symm, hg]
    · rw [if_neg hg, if_neg (Ne.symm hg), List.append_nil]
  | flushFlow g =>
    rw [leave, FairPullQueue.apply, pulls_flushFlow, enter, List.append_nil]
    by_cases hg : g = flow
    · rw [if_pos hg, if_pos hg.symm, List.append_nil]
    · rw [if_neg hg, if_neg (Ne.symm hg), List.nil_append]
  | dequeue =>
    rw [enter, List.append_nil, leave, FairPullQueue.apply]
    by_cases hne : q.IsEmpty
    · rw [h.servedFlow_of_isEmpty hne, dequeue_of_isEmpty hne]
      rfl
    · obtain ⟨f, x, q', hserved, -, hq', -, -, hpulls⟩ := h.dequeue_served hne
      rw [hserved, hq', hpulls flow]
      by_cases hf : flow = f
      · rw [if_pos hf, if_pos (by rw [hf])]
        rfl
      · rw [if_neg hf, if_neg fun he => hf (Option.some.inj he).symm]
        rfl

/-- First in, first out. -/
theorem WellFormed.pulls_run (h : q.WellFormed) (flow : ℤ) (l : List (Op α)) :
    q.pulls flow ++ l.flatMap (enter flow) =
      left flow q l ++ ((system α).run q l).pulls flow := by
  induction l generalizing q with
  | nil => simp [left, System.run]
  | cons op l ih =>
    rw [List.flatMap_cons, ← List.append_assoc, h.pulls_apply flow op, List.append_assoc,
      ih (h.apply op), left, List.append_assoc]
    rfl

/-- What one operation does to the flows that the iterator has passed. -/
theorem WellFormed.passed_apply {F : ℤ} {seen : List ℤ} (h : q.WellFormed) (op : Op α)
    (hseen : seen.Nodup) (hpassed : ∀ g ∈ seen, Passed F q.currentQueue g)
    (hF : q.pulls F ≠ []) (hF' : (q.apply op).pulls F ≠ []) (hserve : F ∉ serve q op) :
    (seen ++ serve q op).Nodup ∧
      ∀ g ∈ seen ++ serve q op, Passed F (q.apply op).currentQueue g := by
  cases op with
  | enqueue g x =>
    rw [serve, List.append_nil]
    exact ⟨hseen, hpassed⟩
  | flushFlow g =>
    rw [serve, List.append_nil]
    have hne : g ≠ F := by
      rintro rfl
      rw [FairPullQueue.apply, pulls_flushFlow, if_pos rfl] at hF'
      exact hF' rfl
    exact ⟨hseen, fun f hf => h.passed_flushFlow hF hne (hpassed f hf)⟩
  | dequeue =>
    have hempty : ¬q.IsEmpty := fun he => hF (h.isEmpty_iff.mp he F)
    obtain ⟨f, x, q', hserved, hfirst, hq', -, hcur, -⟩ := h.dequeue_served hempty
    rw [serve, hserved] at hserve ⊢
    have hne : f ≠ F := fun he => hserve (he ▸ List.mem_singleton_self f)
    obtain ⟨hnew, hnext⟩ := h.passed_served hF hfirst hne
    have happly : (q.apply .dequeue).currentQueue = q.nextQueue f := by
      rw [FairPullQueue.apply, hq']
      exact hcur
    rw [happly]
    refine ⟨?_, fun g hg => hnext g ?_⟩
    · rw [List.nodup_append']
      refine ⟨hseen, List.nodup_singleton f, ?_⟩
      rw [Option.toList_some, List.disjoint_singleton]
      exact fun hf => hnew (hpassed f hf)
    · rw [List.mem_append, Option.toList_some, List.mem_singleton] at hg
      exact hg.symm.imp_right (hpassed g)

/-- As long as `F` has pulls and is not served, no flow is served twice. -/
theorem WellFormed.nodup_services {F : ℤ} {seen : List ℤ} {l : List (Op α)} (h : q.WellFormed)
    (hseen : seen.Nodup) (hpassed : ∀ g ∈ seen, Passed F q.currentQueue g)
    (hF : ∀ k ≤ l.length, ((system α).run q (l.take k)).pulls F ≠ [])
    (hserved : F ∉ services q l) : (seen ++ services q l).Nodup := by
  induction l generalizing q seen with
  | nil => simpa [services] using hseen
  | cons op l ih =>
    rw [services, List.mem_append, not_or] at hserved
    have hlater (k : ℕ) (hk : k ≤ l.length) :
        ((system α).run (q.apply op) (l.take k)).pulls F ≠ [] := hF (k + 1) (by simpa using hk)
    obtain ⟨hseen', hpassed'⟩ := h.passed_apply op hseen hpassed (hF 0 (Nat.zero_le _))
      (hlater 0 (Nat.zero_le _)) hserved.1
    rw [services, ← List.append_assoc]
    exact ih (h.apply op) hseen' hpassed' hlater hserved.2

end FairPullQueue

open FairPullQueue in
/-- `FairPullQueue` counts its pulls, serves the flows in turn and each flow in order, and
loses only what is flushed. -/
theorem fairPullQueue_fair {α : Type*} (q : FairPullQueue α) (hq : (system α).Reachable q) :
    q.pullCount = (q.queueMap.map fun e => e.2.length).sum ∧
      ((∀ flow, q.pulls flow = []) ∧ q.dequeue = none ∨
        ∃ flow x q', q.servedFlow = some flow ∧
          FirstFrom q.currentQueue (fun g => q.pulls g ≠ []) flow ∧ q.dequeue = some (x, q') ∧
          ∀ g, q.pulls g = if g = flow then x :: q'.pulls g else q'.pulls g) ∧
      (∀ flow l, q.pulls flow ++ l.flatMap (enter flow) =
        left flow q l ++ ((system α).run q l).pulls flow) ∧
      (∀ F, q.servedFlow = some F → ∀ l,
        (∀ k ≤ l.length, ((system α).run (q.apply .dequeue) (l.take k)).pulls F ≠ []) →
        F ∉ services (q.apply .dequeue) l → (services (q.apply .dequeue) l).Nodup) ∧
      ∀ flow, (∀ g, (q.flushFlow flow).pulls g = if g = flow then [] else q.pulls g) ∧
        ∀ c ∈ (q.flushFlow flow).currentQueue, ∃ l, (c, l) ∈ (q.flushFlow flow).queueMap := by
  have h := wellFormed_reachable hq
  refine ⟨h.count, ?_, h.pulls_run, ?_, ?_⟩
  · by_cases hne : q.IsEmpty
    · exact .inl ⟨h.isEmpty_iff.mp hne, dequeue_of_isEmpty hne⟩
    · obtain ⟨flow, x, q', hserved, hfirst, hq', -, -, hpulls⟩ := h.dequeue_served hne
      exact .inr ⟨flow, x, q', hserved, hfirst, hq', hpulls⟩
  · intro F _ l hF hserved
    have hnodup := (h.apply .dequeue).nodup_services List.nodup_nil
      (fun g hg => absurd hg List.not_mem_nil) hF hserved
    exact hnodup
  · intro flow
    exact ⟨pulls_flushFlow q flow, (h.flushFlow flow).current⟩

open FairPullQueue in
/-- Two flows with two pulls each, numbered in the order in which they come. -/
def labPulls : FairPullQueue ℕ :=
  (system ℕ).run empty [.enqueue 7 0, .enqueue 3 1, .enqueue 7 2, .enqueue 3 3]

open FairPullQueue in
/-- Flow 3 is served, then flow 7, then flow 3 again. -/
theorem fairPullQueue_fair_two :
    (system ℕ).Reachable labPulls ∧ labPulls.pullCount = 4 ∧ labPulls.servedFlow = some 3 ∧
      (services (labPulls.apply .dequeue) [.dequeue]).Nodup ∧
      [1, 3] = left 3 labPulls (List.replicate 3 .dequeue) ++
        ((system ℕ).run labPulls (List.replicate 3 .dequeue)).pulls 3 := by
  have hstart : (system ℕ).Reachable empty := .init rfl
  have hreach : (system ℕ).Reachable labPulls :=
    hstart.run ⟨trivial, trivial, trivial, trivial, trivial⟩
  obtain ⟨hcount, -, hfifo, hfair, -⟩ := fairPullQueue_fair labPulls hreach
  have hserved : labPulls.servedFlow = some 3 := by decide +kernel
  refine ⟨hreach, hcount.trans (by decide +kernel), hserved, ?_, hfifo 3 (List.replicate 3 .dequeue)⟩
  exact hfair 3 hserved [.dequeue] (by decide +kernel) (by decide +kernel)

end P4Survey.Ndp
