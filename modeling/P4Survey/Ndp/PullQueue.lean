import Mathlib.Tactic

/-! # The queue of pulls

`FairPullQueue` of `fairpullqueue.cpp`: a queue of pulls for each flow, in a map
ordered by flow id, served in turn. A pull is added at the front of the queue of
its flow and taken from the back.
-/

namespace P4Survey.Ndp

/-- `currentQueue` is the flow the iterator `_current_queue` points to, `none` at
the end of the map. -/
structure FairPullQueue (α : Type*) where
  queueMap : List (ℤ × List α)
  currentQueue : Option ℤ
  pullCount : ℕ

namespace FairPullQueue

variable {α : Type*}

def empty : FairPullQueue α := ⟨[], none, 0⟩

def IsEmpty (q : FairPullQueue α) : Prop := q.pullCount = 0

instance (q : FairPullQueue α) : Decidable q.IsEmpty := inferInstanceAs (Decidable (_ = _))

def findQueue (q : FairPullQueue α) (flow : ℤ) : Option (List α) := q.queueMap.lookup flow

/-- A new queue in its place in the order of the flow ids. -/
def createQueue (flow : ℤ) : List (ℤ × List α) → List (ℤ × List α)
  | [] => [(flow, [])]
  | e :: m => if flow < e.1 then (flow, []) :: e :: m else e :: createQueue flow m

def setQueue (flow : ℤ) (l : List α) (m : List (ℤ × List α)) : List (ℤ × List α) :=
  m.map fun e => if e.1 = flow then (flow, l) else e

def enqueue (q : FairPullQueue α) (flow : ℤ) (x : α) : FairPullQueue α :=
  let m := match q.findQueue flow with
    | some l => setQueue flow (x :: l) q.queueMap
    | none => setQueue flow [x] (createQueue flow q.queueMap)
  { q with queueMap := m, pullCount := q.pullCount + 1 }

/-- The flow after the given one in the map. -/
def nextQueue (q : FairPullQueue α) (flow : ℤ) : Option ℤ :=
  (q.queueMap.find? fun e => flow < e.1).map Prod.fst

def firstQueue (q : FairPullQueue α) : Option ℤ := q.queueMap.head?.map Prod.fst

/-- The loop of `dequeue`: go round the queues until one has a pull. -/
def dequeueLoop : ℕ → FairPullQueue α → Option (α × FairPullQueue α)
  | 0, _ => none
  | fuel + 1, q =>
    match q.currentQueue.or q.firstQueue with
    | none => none
    | some flow =>
      let l := (q.findQueue flow).getD []
      let q' := { q with currentQueue := q.nextQueue flow }
      match l.getLast? with
      | some x => some (x, { q' with
          queueMap := setQueue flow l.dropLast q.queueMap
          pullCount := q.pullCount - 1 })
      | none => dequeueLoop fuel q'

/-- A round trip over the map passes every queue once. -/
def dequeue (q : FairPullQueue α) : Option (α × FairPullQueue α) :=
  if q.pullCount = 0 then none else dequeueLoop q.queueMap.length q

def flushFlow (q : FairPullQueue α) (flow : ℤ) : FairPullQueue α :=
  match q.findQueue flow with
  | none => q
  | some l =>
    { queueMap := q.queueMap.filter fun e => e.1 ≠ flow
      currentQueue := if q.currentQueue = some flow then q.nextQueue flow else q.currentQueue
      pullCount := q.pullCount - l.length }

/-- The queue when one flow is the only one to use it, with the pulls it holds. -/
structure Only (flow : ℤ) (l : List α) (q : FairPullQueue α) : Prop where
  queueMap : q.queueMap = [] ∧ l = [] ∨ q.queueMap = [(flow, l)]
  currentQueue : q.currentQueue = none
  pullCount : q.pullCount = l.length

variable {flow : ℤ} {l : List α} {q : FairPullQueue α}

theorem only_empty : Only flow [] (empty : FairPullQueue α) := ⟨.inl ⟨rfl, rfl⟩, rfl, rfl⟩

theorem Only.isEmpty_iff (h : Only flow l q) : q.IsEmpty ↔ l = [] := by
  rw [IsEmpty, h.pullCount, List.length_eq_zero_iff]

theorem Only.enqueue (h : Only flow l q) (x : α) : Only flow (x :: l) (q.enqueue flow x) := by
  have hcount : q.pullCount + 1 = (x :: l).length := by
    rw [h.pullCount, List.length_cons]
  rcases h.queueMap with ⟨hm, rfl⟩ | hm
  · refine ⟨.inr ?_, h.currentQueue, hcount⟩
    simp [FairPullQueue.enqueue, findQueue, hm, createQueue, setQueue]
  · refine ⟨.inr ?_, h.currentQueue, hcount⟩
    simp [FairPullQueue.enqueue, findQueue, hm, setQueue]

/-- With one flow the queue is first in, first out. -/
theorem Only.dequeue {x : α} (h : Only flow (l ++ [x]) q) :
    ∃ q', q.dequeue = some (x, q') ∧ Only flow l q' := by
  have hm : q.queueMap = [(flow, l ++ [x])] := by
    rcases h.queueMap with ⟨-, hl⟩ | hm
    · simp at hl
    · exact hm
  have hcount : q.pullCount = l.length + 1 := by
    rw [h.pullCount, List.length_append, List.length_singleton]
  refine ⟨⟨[(flow, l)], none, l.length⟩, ?_, .inr rfl, rfl, rfl⟩
  have hne : q.pullCount ≠ 0 := by omega
  rw [FairPullQueue.dequeue, if_neg hne, hm, List.length_singleton]
  simp [dequeueLoop, h.currentQueue, firstQueue, hm, findQueue, nextQueue, setQueue, hcount]

theorem Only.flushFlow (h : Only flow l q) : Only flow [] (q.flushFlow flow) := by
  rcases h.queueMap with ⟨hm, rfl⟩ | hm
  · have hfind : q.findQueue flow = none := by simp [findQueue, hm]
    rw [FairPullQueue.flushFlow, hfind]
    exact h
  · have hfind : q.findQueue flow = some l := by simp [findQueue, hm]
    rw [FairPullQueue.flushFlow, hfind]
    refine ⟨.inl ⟨?_, rfl⟩, ?_, ?_⟩
    · simp [hm]
    · simp [h.currentQueue]
    · simp [h.pullCount]

section Several

variable {flow : ℤ} {l : List α} {a b m : List (ℤ × List α)}

/-- The flows before and after a given one in the map. -/
structure Around (flow : ℤ) (a b : List (ℤ × List α)) : Prop where
  before : ∀ e ∈ a, e.1 < flow
  after : ∀ e ∈ b, flow < e.1

/-- The flow ids are in order. -/
def Sorted (m : List (ℤ × List α)) : Prop := m.Pairwise fun e e' => e.1 < e'.1

theorem sorted_split_iff {e : ℤ × List α} :
    Sorted (a ++ e :: b) ↔ Sorted a ∧ Sorted b ∧ Around e.1 a b := by
  simp only [Sorted, List.pairwise_append, List.pairwise_cons, List.mem_cons, forall_eq_or_imp]
  constructor
  · rintro ⟨ha, ⟨heb, hb⟩, hab⟩
    exact ⟨ha, hb, fun x hx => (hab x hx).1, heb⟩
  · rintro ⟨ha, hb, hae, heb⟩
    exact ⟨ha, ⟨heb, hb⟩, fun x hx => ⟨hae x hx, fun y hy => (hae x hx).trans (heb y hy)⟩⟩

theorem Around.setQueue (h : Around flow a b) (l' : List α) :
    setQueue flow l' (a ++ (flow, l) :: b) = a ++ (flow, l') :: b := by
  have ha : a.map (fun e => if e.1 = flow then (flow, l') else e) = a.map id :=
    List.map_congr_left fun e he => if_neg (h.before e he).ne
  have hb : b.map (fun e => if e.1 = flow then (flow, l') else e) = b.map id :=
    List.map_congr_left fun e he => if_neg (h.after e he).ne'
  rw [FairPullQueue.setQueue, List.map_append, List.map_cons, ha, hb, if_pos rfl,
    List.map_id, List.map_id]

theorem Around.lookup (h : Around flow a b) : (a ++ (flow, l) :: b).lookup flow = some l := by
  induction a with
  | nil => simp
  | cons e a ih =>
    have hne : (flow == e.1) = false := by
      simpa using (h.before e List.mem_cons_self).ne'
    rw [List.cons_append, List.lookup_cons, hne]
    exact ih ⟨fun x hx => h.before x (List.mem_cons_of_mem _ hx), h.after⟩

/-- A flow that has a queue, and the flows around it. -/
theorem exists_around_of_lookup (hs : Sorted m) (h : m.lookup flow = some l) :
    ∃ a b, m = a ++ (flow, l) :: b ∧ Around flow a b := by
  obtain ⟨a, b, rfl, -⟩ := List.lookup_eq_some_iff.mp h
  exact ⟨a, b, rfl, (sorted_split_iff.mp hs).2.2⟩

/-- A flow that has none gets one between the flows around it. -/
theorem exists_around_createQueue (hs : Sorted m) (h : m.lookup flow = none) :
    ∃ a b, m = a ++ b ∧ Around flow a b ∧ createQueue flow m = a ++ (flow, []) :: b := by
  induction m with
  | nil => exact ⟨[], [], rfl, ⟨by simp, by simp⟩, rfl⟩
  | cons e m ih =>
    rw [createQueue]
    have hne : flow ≠ e.1 := by
      intro he
      simp [he] at h
    split_ifs with hlt
    · refine ⟨[], e :: m, rfl, ⟨by simp, ?_⟩, rfl⟩
      rw [List.forall_mem_cons]
      exact ⟨hlt, fun x hx => hlt.trans (List.rel_of_pairwise_cons hs hx)⟩
    · have hrest : m.lookup flow = none := by
        simpa [List.lookup_cons, hne] using h
      obtain ⟨a, b, rfl, hab, hc⟩ := ih hs.of_cons hrest
      refine ⟨e :: a, b, rfl, ⟨?_, hab.after⟩, by rw [hc]; rfl⟩
      rw [List.forall_mem_cons]
      exact ⟨lt_of_le_of_ne (not_lt.mp hlt) hne.symm, hab.before⟩

/-- The flow ids are in order, the iterator is at one of them or at the end, and the
pulls are counted. -/
structure WellFormed (q : FairPullQueue α) : Prop where
  sorted : Sorted q.queueMap
  current : ∀ flow ∈ q.currentQueue, ∃ l, (flow, l) ∈ q.queueMap
  count : q.pullCount = (q.queueMap.map fun e => e.2.length).sum

variable {q : FairPullQueue α}

theorem wellFormed_empty : (empty : FairPullQueue α).WellFormed :=
  ⟨List.Pairwise.nil, by simp [empty], rfl⟩

/-- One queue of a well-formed map is replaced. -/
theorem WellFormed.replace {c : Option ℤ} {n : ℕ} {l' : List α} (h : q.WellFormed)
    (hm : q.queueMap = a ++ (flow, l) :: b)
    (hc : ∀ f ∈ c, ∃ e ∈ q.queueMap, e.1 = f) (hn : n + l.length = q.pullCount + l'.length) :
    WellFormed ⟨a ++ (flow, l') :: b, c, n⟩ where
  sorted := by
    have hs := h.sorted
    rw [hm, sorted_split_iff] at hs
    exact sorted_split_iff.mpr hs
  current := by
    intro f hf
    obtain ⟨e, he, rfl⟩ := hc f hf
    rw [hm, List.mem_append, List.mem_cons] at he
    rcases he with he | rfl | he
    · exact ⟨e.2, List.mem_append_left _ he⟩
    · exact ⟨l', List.mem_append_right _ List.mem_cons_self⟩
    · exact ⟨e.2, List.mem_append_right _ (List.mem_cons_of_mem _ he)⟩
  count := by
    have hcount := h.count
    rw [hm] at hcount
    simp only [List.map_append, List.map_cons, List.sum_append, List.sum_cons] at hcount ⊢
    omega

theorem WellFormed.currentQueue (h : q.WellFormed) :
    ∀ f ∈ q.currentQueue, ∃ e ∈ q.queueMap, e.1 = f := by
  intro f hf
  obtain ⟨l, hl⟩ := h.current f hf
  exact ⟨(f, l), hl, rfl⟩

theorem WellFormed.create (h : q.WellFormed) (hm : q.queueMap = a ++ b) (hab : Around flow a b) :
    WellFormed ⟨a ++ (flow, []) :: b, q.currentQueue, q.pullCount⟩ where
  sorted := by
    have hs := h.sorted
    rw [hm, Sorted, List.pairwise_append] at hs
    exact sorted_split_iff.mpr ⟨hs.1, hs.2.1, hab⟩
  current := by
    intro f hf
    obtain ⟨l, hl⟩ := h.current f hf
    rw [hm, List.mem_append] at hl
    exact ⟨l, List.mem_append.mpr (hl.imp_right (List.mem_cons_of_mem _))⟩
  count := by
    rw [h.count, hm]
    simp

theorem WellFormed.enqueue (h : q.WellFormed) (flow : ℤ) (x : α) :
    (q.enqueue flow x).WellFormed := by
  rw [FairPullQueue.enqueue, findQueue]
  cases hl : q.queueMap.lookup flow with
  | some l =>
    obtain ⟨a, b, hm, hab⟩ := exists_around_of_lookup h.sorted hl
    dsimp only
    rw [hm, hab.setQueue]
    exact h.replace hm h.currentQueue (by simp; omega)
  | none =>
    obtain ⟨a, b, hm, hab, hcreate⟩ := exists_around_createQueue h.sorted hl
    dsimp only
    rw [hcreate, hab.setQueue]
    have hw := h.create hm hab
    exact hw.replace rfl hw.currentQueue rfl

theorem Around.filter (h : Around flow a b) :
    (a ++ (flow, l) :: b).filter (fun e => e.1 ≠ flow) = a ++ b := by
  have ha : a.filter (fun e => e.1 ≠ flow) = a := by
    rw [List.filter_eq_self]
    intro e he
    simpa using (h.before e he).ne
  have hb : b.filter (fun e => e.1 ≠ flow) = b := by
    rw [List.filter_eq_self]
    intro e he
    simpa using (h.after e he).ne'
  rw [List.filter_append, ha, List.filter_cons_of_neg (by simp), hb]

/-- The iterator moves on to the next flow of the map, or to its end. -/
theorem Around.nextQueue (h : Around flow a b) (hm : q.queueMap = a ++ (flow, l) :: b) :
    q.nextQueue flow = b.head?.map Prod.fst := by
  have ha : a.find? (fun e => flow < e.1) = none := by
    rw [List.find?_eq_none]
    intro e he
    simpa using (h.before e he).le
  rw [FairPullQueue.nextQueue, hm, List.find?_append, ha, List.find?_cons_of_neg (by simp)]
  cases b with
  | nil => rfl
  | cons e b =>
    have he := h.after e List.mem_cons_self
    simp [he]

theorem WellFormed.flushFlow (h : q.WellFormed) (flow : ℤ) : (q.flushFlow flow).WellFormed := by
  rw [FairPullQueue.flushFlow, findQueue]
  cases hl : q.queueMap.lookup flow with
  | none => exact h
  | some l =>
    obtain ⟨a, b, hm, hab⟩ := exists_around_of_lookup h.sorted hl
    have hs := h.sorted
    have hcount := h.count
    rw [hm] at hs hcount
    simp only [List.map_append, List.map_cons, List.sum_append, List.sum_cons] at hcount
    dsimp only
    refine ⟨?_, ?_, ?_⟩
    · exact List.Pairwise.filter _ h.sorted
    · intro f hf
      dsimp only at hf ⊢
      rw [hm, hab.filter]
      split_ifs at hf with hcur
      · rw [hab.nextQueue hm] at hf
        obtain ⟨e, he, rfl⟩ := Option.mem_map.mp hf
        exact ⟨e.2, List.mem_append_right _ (List.mem_of_mem_head? he)⟩
      · obtain ⟨l', hl'⟩ := h.current f hf
        rw [hm, List.mem_append, List.mem_cons] at hl'
        rcases hl' with hl' | hl' | hl'
        · exact ⟨l', List.mem_append_left _ hl'⟩
        · cases hl'
          exact absurd hf hcur
        · exact ⟨l', List.mem_append_right _ hl'⟩
    · dsimp only
      rw [hm, hab.filter]
      simp only [List.map_append, List.sum_append]
      omega

/-- The queue the loop of `dequeue` looks at next, with those before and after it. -/
structure At (q : FairPullQueue α) (a : List (ℤ × List α)) (e : ℤ × List α)
    (b : List (ℤ × List α)) : Prop where
  queueMap : q.queueMap = a ++ e :: b
  current : q.currentQueue = some e.1 ∨ q.currentQueue = none ∧ a = []

theorem At.current_or_first {e : ℤ × List α} (h : At q a e b) :
    q.currentQueue.or q.firstQueue = some e.1 := by
  rcases h.current with hc | ⟨hc, rfl⟩
  · rw [hc]
    rfl
  · rw [hc, firstQueue, h.queueMap]
    rfl

/-- A well-formed map that is not empty has a queue to look at. -/
theorem WellFormed.exists_at (h : q.WellFormed) (hne : q.queueMap ≠ []) : ∃ a e b, At q a e b := by
  cases hc : q.currentQueue with
  | some flow =>
    obtain ⟨l, hl⟩ := h.current flow hc
    obtain ⟨a, b, hm⟩ := List.append_of_mem hl
    exact ⟨a, (flow, l), b, hm, .inl hc⟩
  | none =>
    obtain ⟨e, b, hm⟩ := List.exists_cons_of_ne_nil hne
    exact ⟨[], e, b, hm, .inr ⟨hc, rfl⟩⟩

/-- An empty queue is passed over. -/
theorem At.pass {e : ℤ × List α} (h : At q a e b) (hw : q.WellFormed) (he : e.2 = []) (fuel : ℕ) :
    dequeueLoop (fuel + 1) q =
      dequeueLoop fuel { q with currentQueue := b.head?.map Prod.fst } := by
  have hab := hw.sorted
  rw [h.queueMap, sorted_split_iff] at hab
  have hl : q.findQueue e.1 = some [] := by
    rw [findQueue, h.queueMap, ← he]
    exact hab.2.2.lookup
  rw [dequeueLoop, h.current_or_first]
  simp only [hl, Option.getD_some, List.getLast?_nil, hab.2.2.nextQueue h.queueMap]

/-- The queue after the last pull of a flow has been taken. -/
def afterPull (q : FairPullQueue α) (flow : ℤ) (l : List α) : FairPullQueue α where
  queueMap := FairPullQueue.setQueue flow l q.queueMap
  currentQueue := q.nextQueue flow
  pullCount := q.pullCount - 1

/-- The last pull of a queue that is not empty is taken. -/
theorem At.take {e : ℤ × List α} (h : At q a e b) (hw : q.WellFormed) (he : e.2 ≠ [])
    (fuel : ℕ) :
    dequeueLoop (fuel + 1) q = some (e.2.getLast he, q.afterPull e.1 e.2.dropLast) := by
  have hab := hw.sorted
  rw [h.queueMap, sorted_split_iff] at hab
  have hl : q.findQueue e.1 = some e.2 := by
    rw [findQueue, h.queueMap]
    exact hab.2.2.lookup
  rw [dequeueLoop, h.current_or_first]
  simp only [hl, Option.getD_some, List.getLast?_eq_some_getLast he]
  rfl

theorem WellFormed.afterPull {e : ℤ × List α} (hw : q.WellFormed)
    (hm : q.queueMap = a ++ e :: b) (he : e.2 ≠ []) :
    (q.afterPull e.1 e.2.dropLast).WellFormed ∧
      (q.afterPull e.1 e.2.dropLast).pullCount + 1 = q.pullCount := by
  have hab := hw.sorted
  rw [hm, sorted_split_iff] at hab
  have hcount := hw.count
  rw [hm] at hcount
  simp only [List.map_append, List.map_cons, List.sum_append, List.sum_cons] at hcount
  have hpos := List.length_pos_iff.mpr he
  refine ⟨?_, by simp only [FairPullQueue.afterPull]; omega⟩
  rw [FairPullQueue.afterPull, hab.2.2.nextQueue hm, hm, hab.2.2.setQueue]
  refine hw.replace hm ?_ ?_
  · intro f hf
    obtain ⟨x, hx, rfl⟩ := Option.mem_map.mp hf
    rw [hm]
    exact ⟨x, List.mem_append_right _ (List.mem_cons_of_mem _ (List.mem_of_mem_head? hx)), rfl⟩
  · rw [List.length_dropLast]
    omega

/-- The loop goes round the queues and takes a pull from the first one that has any. -/
theorem At.dequeueLoop {e e' : ℤ × List α} {pre post : List (ℤ × List α)} {fuel : ℕ}
    (h : At q a e b) (hw : q.WellFormed) (hround : e :: b ++ a = pre ++ e' :: post)
    (hpre : ∀ x ∈ pre, x.2 = []) (he' : e'.2 ≠ []) (hfuel : pre.length < fuel) :
    dequeueLoop fuel q = some (e'.2.getLast he', q.afterPull e'.1 e'.2.dropLast) := by
  obtain ⟨fuel, rfl⟩ := Nat.exists_eq_add_one_of_ne_zero (Nat.ne_zero_of_lt hfuel)
  induction pre generalizing q a e b post fuel with
  | nil =>
    obtain rfl : e = e' := (List.cons.inj hround).1
    exact h.take hw he' fuel
  | cons p pre ih =>
    obtain ⟨rfl, hrest⟩ := List.cons.inj hround
    rw [h.pass hw (hpre e List.mem_cons_self)]
    have hnext : ∀ f ∈ b.head?.map Prod.fst, ∃ l, (f, l) ∈ q.queueMap := by
      intro f hf
      obtain ⟨x, hx, rfl⟩ := Option.mem_map.mp hf
      rw [h.queueMap]
      exact ⟨x.2, List.mem_append_right _ (List.mem_cons_of_mem _ (List.mem_of_mem_head? hx))⟩
    have hw' : WellFormed { q with currentQueue := b.head?.map Prod.fst } :=
      ⟨hw.sorted, hnext, hw.count⟩
    have hpre' : ∀ x ∈ pre, x.2 = [] := fun x hx => hpre x (List.mem_cons_of_mem _ hx)
    replace hrest : b ++ a = pre ++ e' :: post := hrest
    have hround' : b ++ (a ++ [e]) = pre ++ e' :: (post ++ [e]) := by
      rw [← List.append_assoc, hrest, List.append_assoc, List.cons_append]
    obtain ⟨fuel, rfl⟩ := Nat.exists_eq_add_one_of_ne_zero (n := fuel) (by
      rw [List.length_cons] at hfuel
      omega)
    have hfuel' : pre.length < fuel + 1 := by
      rw [List.length_cons] at hfuel
      omega
    cases b with
    | cons x b =>
      refine ih (a := a ++ [e]) ⟨?_, .inl rfl⟩ hw' hround' hpre' fuel hfuel'
      rw [h.queueMap]
      simp
    | nil =>
      obtain ⟨x, rest, hx⟩ := List.exists_cons_of_ne_nil (show a ++ [e] ≠ [] by simp)
      have hround'' : x :: rest ++ [] = pre ++ e' :: (post ++ [e]) := by
        rw [List.append_nil, ← hx]
        exact hround'
      refine ih ⟨?_, .inr ⟨rfl, rfl⟩⟩ hw' hround'' hpre' fuel hfuel'
      rw [h.queueMap]
      exact hx

/-- The first queue with a pull, counted from the iterator on and round the end of the map. -/
theorem WellFormed.exists_round (h : q.WellFormed) (hne : ¬q.IsEmpty) :
    ∃ a c b pre e post, At q a c b ∧ c :: b ++ a = pre ++ e :: post ∧
      (∀ x ∈ pre, x.2 = []) ∧ e.2 ≠ [] := by
  have hsum : (q.queueMap.map fun e => e.2.length).sum ≠ 0 := by
    rw [← h.count]
    exact hne
  obtain ⟨n, hn, hpos⟩ : ∃ n ∈ q.queueMap.map fun e => e.2.length, n ≠ 0 := by
    by_contra! hall
    exact hsum (List.sum_eq_zero hall)
  obtain ⟨e, he, rfl⟩ := List.mem_map.mp hn
  obtain ⟨a, c, b, hat⟩ := h.exists_at (List.ne_nil_of_mem he)
  have hsome : ((c :: b ++ a).find? fun x => x.2 ≠ []).isSome := by
    rw [List.find?_isSome]
    refine ⟨e, ?_, ?_⟩
    · rw [hat.queueMap] at he
      simp only [List.mem_append, List.mem_cons] at he ⊢
      tauto
    · simpa using List.ne_nil_of_length_pos (Nat.pos_of_ne_zero hpos)
  obtain ⟨e', hfind⟩ := Option.isSome_iff_exists.mp hsome
  obtain ⟨hne', pre, post, hround, hpre⟩ := List.find?_eq_some_iff_append.mp hfind
  exact ⟨a, c, b, pre, e', post, hat, hround, fun x hx => by simpa using hpre x hx,
    by simpa using hne'⟩

theorem At.dequeue {e e' : ℤ × List α} {pre post : List (ℤ × List α)}
    (h : At q a e b) (hw : q.WellFormed) (hround : e :: b ++ a = pre ++ e' :: post)
    (hpre : ∀ x ∈ pre, x.2 = []) (he' : e'.2 ≠ []) (hne : ¬q.IsEmpty) :
    q.dequeue = some (e'.2.getLast he', q.afterPull e'.1 e'.2.dropLast) := by
  have hlen := congrArg List.length hround
  rw [FairPullQueue.dequeue, if_neg (show q.pullCount ≠ 0 from hne)]
  refine h.dequeueLoop hw hround hpre he' ?_
  rw [h.queueMap]
  simp only [List.length_append, List.length_cons] at hlen ⊢
  omega

/-- A pull is taken whenever there is one. -/
theorem WellFormed.dequeue (h : q.WellFormed) (hne : ¬q.IsEmpty) :
    ∃ x q', q.dequeue = some (x, q') ∧ q'.WellFormed ∧ q'.pullCount + 1 = q.pullCount := by
  obtain ⟨a, c, b, pre, e, post, hat, hround, hpre, he⟩ := h.exists_round hne
  have hmem : e ∈ q.queueMap := by
    have : e ∈ c :: b ++ a := by
      rw [hround]
      simp
    rw [hat.queueMap]
    simp only [List.mem_append, List.mem_cons] at this ⊢
    tauto
  obtain ⟨a', b', hm⟩ := List.append_of_mem hmem
  exact ⟨_, _, hat.dequeue h hround hpre he hne, h.afterPull hm he⟩

end Several

end FairPullQueue

end P4Survey.Ndp
