import P4Survey.Lib.System
import Mathlib.Data.Set.Insert

/-! # Numbered writes along a chain of replicas

The first replica numbers the writes, every later one stores a write that is
newer than what it has, and a copy moves on to the next position once it is
stored, once it is stale, or past a position that may be skipped.
-/

namespace P4Survey.Lib

/-- What the replicas hold, all writes by their numbers (the initial value has the
number 0), and the copies `(m, q)` of write `q` that have reached position `m`. -/
structure Replicas (n : ℕ) (α : Type*) where
  number : Fin n → ℕ
  value : Fin n → α
  log : List α
  passed : Set (ℕ × ℕ)

namespace Replicas

variable {n : ℕ} {α : Type*}

inductive Label (n : ℕ) (α : Type*) where
  | issue (v : α)
  | store (j : Fin n) (q : ℕ) (v : α)
  | pass (j : Fin n) (q : ℕ)

def start (v : α) : Replicas n α := ⟨fun _ => 0, fun _ => v, [v], {p | p.2 = 0}⟩

def issue (head : Fin n) (v : α) (a : Replicas n α) : Replicas n α where
  number := Function.update a.number head a.log.length
  value := Function.update a.value head v
  log := a.log ++ [v]
  passed := insert (head.val + 1, a.log.length) a.passed

def store (j : Fin n) (q : ℕ) (v : α) (a : Replicas n α) : Replicas n α where
  number := Function.update a.number j q
  value := Function.update a.value j v
  log := a.log
  passed := insert (j.val + 1, q) a.passed

def pass (j : Fin n) (q : ℕ) (a : Replicas n α) : Replicas n α :=
  { a with passed := insert (j.val + 1, q) a.passed }

/-- The copies of a write may pass the positions in `skip` without being stored. -/
def chain (head : Fin n) (skip : Set (Fin n)) (v : α) : System (Replicas n α) (Label n α) where
  init a := a = start v
  enabled a
    | .issue _ => True
    | .store j q v => (j.val, q) ∈ a.passed ∧ a.number j < q ∧ a.log[q]? = some v
    | .pass j q => (j.val, q) ∈ a.passed ∧ (j ∈ skip ∨ q ≤ a.number j)
  next a
    | .issue v => a.issue head v
    | .store j q v => a.store j q v
    | .pass j q => a.pass j q

/-- What is stored has been passed on, and what was passed on is stored behind it. -/
structure Inv (head : Fin n) (skip : Set (Fin n)) (a : Replicas n α) : Prop where
  behind : ∀ {m q}, (m, q) ∈ a.passed → ∀ j : Fin n, j.val < m → j ∉ skip → q ≤ a.number j
  first : ∀ {q}, (head.val, q) ∈ a.passed → q = 0
  zero : ∀ m, (m, 0) ∈ a.passed
  known : ∀ {m q}, (m, q) ∈ a.passed → q < a.log.length
  ahead : ∀ j : Fin n, (j.val + 1, a.number j) ∈ a.passed
  stored : ∀ j, a.log[a.number j]? = some (a.value j)
  last : a.number head + 1 = a.log.length

variable {head : Fin n} {skip : Set (Fin n)} {a : Replicas n α}

/-- What later states keep: writes, copies and the order of numbers. -/
structure Grows (a a' : Replicas n α) : Prop where
  number : ∀ j, a.number j ≤ a'.number j
  log : a.log <+: a'.log
  passed : a.passed ⊆ a'.passed

theorem Grows.refl (a : Replicas n α) : Grows a a :=
  ⟨fun _ => le_rfl, List.prefix_rfl, subset_rfl⟩

theorem Grows.trans {a a' a'' : Replicas n α} (h : Grows a a') (h' : Grows a' a'') :
    Grows a a'' :=
  ⟨fun j => (h.number j).trans (h'.number j), h.log.trans h'.log, h.passed.trans h'.passed⟩

theorem Grows.entry {a' : Replicas n α} (h : Grows a a') {q : ℕ} {v : α}
    (hv : a.log[q]? = some v) : a'.log[q]? = some v := by
  obtain ⟨l, hl⟩ := h.log
  rw [← hl, List.getElem?_append_left (List.getElem?_eq_some_iff.mp hv).1]
  exact hv

theorem Inv.grows_issue (ha : Inv head skip a) (v : α) : Grows a (a.issue head v) := by
  refine ⟨fun j => ?_, List.prefix_append _ _, Set.subset_insert _ _⟩
  simp only [Replicas.issue, Function.update_apply]
  split_ifs with hj
  · have := ha.last
    rw [hj]
    omega
  · exact le_rfl

theorem grows_store {j : Fin n} {q : ℕ} (hlt : a.number j < q) (v : α) :
    Grows a (a.store j q v) := by
  refine ⟨fun j' => ?_, List.prefix_rfl, Set.subset_insert _ _⟩
  simp only [Replicas.store, Function.update_apply]
  split_ifs with hj
  · exact hj ▸ hlt.le
  · exact le_rfl

theorem grows_pass (j : Fin n) (q : ℕ) : Grows a (a.pass j q) :=
  ⟨fun _ => le_rfl, List.prefix_rfl, Set.subset_insert _ _⟩

theorem inv_start (v : α) : Inv head skip (start v : Replicas n α) := by
  constructor
  · intro m q hq j _ _
    exact Nat.le_of_eq hq
  · intro q hq
    exact hq
  · intro m
    rfl
  · intro m q hq
    rw [show q = 0 from hq]
    exact Nat.one_pos
  · intro j
    rfl
  · intro j
    rfl
  · rfl

theorem Inv.issue (ha : Inv head skip a) (hhead : head.val = 0) (v : α) :
    Inv head skip (a.issue head v) := by
  have hup := (ha.grows_issue v).number
  have hlen : (a.issue head v).log.length = a.log.length + 1 := by simp [Replicas.issue]
  constructor
  · rintro m q (he | hq) j hj hs
    · obtain ⟨rfl, rfl⟩ := Prod.mk.inj he
      obtain rfl : j = head := Fin.ext (by omega)
      simp [Replicas.issue]
    · exact (ha.behind hq j hj hs).trans (hup j)
  · rintro q (he | hq)
    · have := (Prod.mk.inj he).1
      omega
    · exact ha.first hq
  · exact fun m => .inr (ha.zero m)
  · rintro m q (he | hq)
    · rw [hlen, (Prod.mk.inj he).2]
      exact Nat.lt_succ_self _
    · rw [hlen]
      exact (ha.known hq).trans (Nat.lt_succ_self _)
  · intro j
    simp only [Replicas.issue, Function.update_apply]
    split_ifs with hj
    · exact .inl (by rw [hj])
    · exact .inr (ha.ahead j)
  · intro j
    simp only [Replicas.issue, Function.update_apply]
    split_ifs with hj
    · simp
    · rw [List.getElem?_append_left (ha.known (ha.ahead j))]
      exact ha.stored j
  · rw [hlen]
    simp [Replicas.issue]

theorem Inv.store (ha : Inv head skip a) (hhead : head.val = 0) {j : Fin n} {q : ℕ} {v : α}
    (hq : (j.val, q) ∈ a.passed) (hlt : a.number j < q) (hv : a.log[q]? = some v) :
    Inv head skip (a.store j q v) := by
  have hne : head ≠ j := by
    rintro rfl
    have := ha.first hq
    omega
  have hup := (grows_store hlt v).number
  constructor
  · rintro m p (he | hp) j' hj hs
    · obtain ⟨rfl, rfl⟩ := Prod.mk.inj he
      by_cases hj' : j' = j
      · simp [Replicas.store, hj']
      · have hlt' : j'.val < j.val := lt_of_le_of_ne (by omega) fun h => hj' (Fin.ext h)
        exact (ha.behind hq j' hlt' hs).trans (hup j')
    · exact (ha.behind hp j' hj hs).trans (hup j')
  · rintro p (he | hp)
    · have := (Prod.mk.inj he).1
      omega
    · exact ha.first hp
  · exact fun m => .inr (ha.zero m)
  · rintro m p (he | hp)
    · rw [(Prod.mk.inj he).2]
      exact ha.known hq
    · exact ha.known hp
  · intro j'
    simp only [Replicas.store, Function.update_apply]
    split_ifs with hj
    · exact .inl (by rw [hj])
    · exact .inr (ha.ahead j')
  · intro j'
    simp only [Replicas.store, Function.update_apply]
    split_ifs with hj
    · exact hv
    · exact ha.stored j'
  · simp only [Replicas.store, Function.update_of_ne hne]
    exact ha.last

theorem Inv.pass (ha : Inv head skip a) (hhead : head.val = 0) {j : Fin n} {q : ℕ}
    (hq : (j.val, q) ∈ a.passed) (hs : j ∈ skip ∨ q ≤ a.number j) :
    Inv head skip (a.pass j q) := by
  refine ⟨?_, ?_, fun m => .inr (ha.zero m), ?_, fun j' => .inr (ha.ahead j'), ha.stored, ha.last⟩
  · rintro m p (he | hp) j' hj hs'
    · obtain ⟨rfl, rfl⟩ := Prod.mk.inj he
      by_cases hj' : j' = j
      · rw [hj'] at hs' ⊢
        exact hs.resolve_left hs'
      · exact ha.behind hq j' (lt_of_le_of_ne (by omega) fun h => hj' (Fin.ext h)) hs'
    · exact ha.behind hp j' hj hs'
  · rintro p (he | hp)
    · have := (Prod.mk.inj he).1
      omega
    · exact ha.first hp
  · rintro m p (he | hp)
    · rw [(Prod.mk.inj he).2]
      exact ha.known hq
    · exact ha.known hp

theorem inv_reachable (hhead : head.val = 0) {v : α} (ha : (chain head skip v).Reachable a) :
    Inv head skip a := by
  apply ha.invariant
  · rintro a rfl
    exact inv_start v
  · intro a l _ ih he
    cases l with
    | issue v => exact ih.issue hhead v
    | store j q v => exact ih.store hhead he.1 he.2.1 he.2.2
    | pass j q => exact ih.pass hhead he.1 he.2

theorem log_zero {v : α} (ha : (chain head skip v).Reachable a) : a.log[0]? = some v := by
  apply ha.invariant
  · rintro a rfl
    rfl
  · intro a l _ ih _
    cases l with
    | issue w =>
      exact (List.getElem?_append_left (List.getElem?_eq_some_iff.mp ih).1).trans ih
    | store j q w => exact ih
    | pass j q => exact ih

/-- Along the chain numbers do not increase, positions that may be skipped apart. -/
theorem Inv.sorted (ha : Inv head skip a) {j j' : Fin n} (hj : j ≤ j') (hs : j ∉ skip) :
    a.number j' ≤ a.number j :=
  ha.behind (ha.ahead j') j (Nat.lt_succ_of_le hj) hs

end Replicas

end P4Survey.Lib
