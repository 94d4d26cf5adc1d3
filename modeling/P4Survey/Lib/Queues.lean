import Mathlib.Data.Int.CardIntervalMod
import Mathlib.Tactic

/-! # Fall-through queues and deficit round robin

A queue of hardware that shows its first word before it is read. What happens in one
cycle of the clock depends on a word to write and on whether the shown word is read.
A word takes some cycles to get from one end to the other, so that a queue may look
empty while it holds words.

A pointer that goes round `n` queues gives each of them a turn in `n` moves. If a queue
that has something to send earns a fixed quantum at each of its turns, pays what it
sends out of it, and never saves more than a bound, then two queues that always have
something to send are never served more than a constant apart.
-/

namespace P4Survey.Lib

section Fifo

structure Fifo (α : Type*) where
  State : Type*
  init : State
  empty : State → Bool
  nearlyFull : State → Bool
  progFull : State → Bool
  dout : State → α
  clock : State → Option α → Bool → State
  /-- The words that were written and not yet read, each with the cycles since then. -/
  held : State → List (α × ℕ)
  latency : ℕ
  capacity : ℕ
  nearLimit : ℕ
  progLimit : ℕ

namespace Fifo

variable {α : Type*} (F : Fifo α)

def contents (s : F.State) : List α := (F.held s).map (·.1)

/-- The queue is not read while it looks empty, and not written without room. -/
def Ready (s : F.State) (wr : Option α) (rdEn : Bool) : Prop :=
  (rdEn = true → F.empty s = false) ∧
    (wr.isSome = true → F.nearlyFull s = false ∨ (F.contents s).length < F.capacity)

/-- What can be relied on. -/
structure Lawful : Prop where
  init : F.held F.init = []
  shown : ∀ s, F.empty s = false → ∃ a l, F.held s = (F.dout s, a) :: l
  empty_iff : ∀ s, F.empty s = true ↔ ∀ p ∈ (F.held s).head?, p.2 < F.latency
  clock : ∀ s wr rdEn, F.Ready s wr rdEn → F.held (F.clock s wr rdEn) =
    (if rdEn then (F.held s).tail else F.held s).map (fun p => (p.1, p.2 + 1)) ++
      wr.toList.map fun x => (x, 0)
  /-- An empty queue goes on showing the last word. -/
  stale : ∀ s wr rdEn, F.empty (F.clock s wr rdEn) = true → F.dout (F.clock s wr rdEn) = F.dout s
  near : ∀ s, F.nearlyFull s = true → F.nearLimit ≤ (F.contents s).length
  prog : ∀ s, F.progFull s = false → (F.contents s).length ≤ F.progLimit

variable {F}

theorem Lawful.contents_init (h : F.Lawful) : F.contents F.init = [] := by
  rw [contents, h.init, List.map_nil]

theorem Lawful.contents_shown (h : F.Lawful) {s : F.State} (he : F.empty s = false) :
    ∃ l, F.contents s = F.dout s :: l := by
  obtain ⟨a, l, hl⟩ := h.shown s he
  exact ⟨l.map (·.1), by rw [contents, hl, List.map_cons]⟩

theorem Lawful.contents_clock (h : F.Lawful) {s : F.State} {wr : Option α} {rdEn : Bool}
    (hr : F.Ready s wr rdEn) : F.contents (F.clock s wr rdEn) =
      (if rdEn then (F.contents s).tail else F.contents s) ++ wr.toList := by
  rw [contents, h.clock _ _ _ hr, contents]
  cases rdEn <;> simp [Function.comp_def]

theorem Lawful.nonempty_iff (h : F.Lawful) (s : F.State) :
    F.empty s = false ↔ ∃ p ∈ (F.held s).head?, F.latency ≤ p.2 := by
  rw [← Bool.not_eq_true, h.empty_iff]
  simp only [not_forall, not_lt, exists_prop]

/-- A word stays until it is read. -/
theorem Lawful.waits (h : F.Lawful) {s : F.State} {wr : Option α} (hr : F.Ready s wr false)
    (he : F.empty s = false) :
    F.empty (F.clock s wr false) = false ∧ F.dout (F.clock s wr false) = F.dout s := by
  have hempty : F.empty (F.clock s wr false) = false := by
    rw [h.nonempty_iff, h.clock _ _ _ hr]
    obtain ⟨p, hp, hle⟩ := (h.nonempty_iff s).1 he
    obtain ⟨l, hl⟩ := List.head?_eq_some_iff.1 hp
    exact ⟨(p.1, p.2 + 1), by simp [hl], hle.trans (Nat.le_succ _)⟩
  obtain ⟨l, hl⟩ := h.contents_shown he
  obtain ⟨l', hl'⟩ := h.contents_shown hempty
  rw [h.contents_clock hr, if_neg Bool.false_ne_true, hl] at hl'
  exact ⟨hempty, (List.cons.inj hl').1.symm⟩

/-- A queue of a fixed depth and latency. -/
def ofList (depth prog latency : ℕ) (zero : α) : Fifo α where
  State := List (α × ℕ) × α
  init := ([], zero)
  empty s := s.1.head?.all fun p => decide (p.2 < latency)
  nearlyFull s := decide (depth - 1 ≤ s.1.length)
  progFull s := decide (prog ≤ s.1.length)
  dout s := ((s.1.head?.filter fun p => decide (latency ≤ p.2)).map (·.1)).getD s.2
  clock s wr rdEn :=
    (((if rdEn then s.1.tail else s.1).map fun p => (p.1, p.2 + 1)) ++ wr.toList.map fun x => (x, 0),
      ((s.1.head?.filter fun p => decide (latency ≤ p.2)).map (·.1)).getD s.2)
  held s := s.1
  latency := latency
  capacity := depth
  nearLimit := depth - 1
  progLimit := prog

theorem lawful_ofList (depth prog latency : ℕ) (zero : α) :
    (ofList depth prog latency zero).Lawful where
  init := rfl
  shown := by
    rintro ⟨l, last⟩ h
    cases l with
    | nil => cases h
    | cons p l =>
      have hlt : ¬p.2 < latency := of_decide_eq_false h
      exact ⟨p.2, l, by simp [ofList, Option.filter, Nat.not_lt.1 hlt]⟩
  empty_iff := by
    rintro ⟨l, last⟩
    cases l with
    | nil => simp [ofList]
    | cons p l => simp [ofList]
  clock := fun _ _ _ _ => rfl
  stale := by
    rintro ⟨l, last⟩ wr rdEn h
    generalize hs : (ofList depth prog latency zero).clock (l, last) wr rdEn = s at h
    obtain ⟨l', last'⟩ := s
    have hlast : last' = (ofList depth prog latency zero).dout (l, last) :=
      (congrArg Prod.snd hs).symm
    cases l' with
    | nil => exact hlast
    | cons p l' =>
      have hlt : p.2 < latency := of_decide_eq_true h
      rw [← hlast]
      simp [ofList, Option.filter, Nat.not_le.2 hlt]
  near s h := by
    have := of_decide_eq_true h
    simpa [ofList, contents] using this
  prog s h := by
    have := of_decide_eq_false h
    simp [ofList, contents]
    omega

end Fifo

end Fifo

section RoundRobin

/-- The turns of queue `i` among the first `m` moves. -/
def turns (n i m : ℕ) : ℕ := Nat.count (fun k => k % n = i) m

theorem turns_succ (n i m : ℕ) : turns n i (m + 1) = turns n i m + if m % n = i then 1 else 0 :=
  Nat.count_succ _ _

theorem turns_eq {n i : ℕ} (hi : i < n) (m : ℕ) :
    turns n i m = m / n + if i < m % n then 1 else 0 := by
  have hmod (k : ℕ) : k % n = i ↔ k ≡ i [MOD n] := by rw [Nat.ModEq, Nat.mod_eq_of_lt hi]
  have hcount : turns n i m = Nat.count (· ≡ i [MOD n]) m := by
    simp only [turns, hmod]
  rw [hcount, Nat.count_modEq_card m (Nat.zero_lt_of_lt hi), Nat.mod_eq_of_lt hi]

/-- Between two moments no queue gets two turns more than another one. -/
theorem turns_fair {n i j : ℕ} (hi : i < n) (hj : j < n) (m m' : ℕ) :
    turns n i m' + turns n j m ≤ turns n i m + turns n j m' + 1 := by
  rw [turns_eq hi, turns_eq hi, turns_eq hj, turns_eq hj]
  split_ifs <;> omega

/-- Between two moments with `m` and `m'` moves, a queue earned a quantum at each turn. What it
sent is `sent' - sent`, what it saves is `credit` and then `credit'`. -/
def Settled (n quantum i m m' sent credit sent' credit' : ℕ) : Prop :=
  sent' + credit' + quantum * turns n i m = sent + credit + quantum * turns n i m'

theorem Settled.refl (n quantum i m sent credit : ℕ) :
    Settled n quantum i m m sent credit sent credit :=
  rfl

theorem Settled.trans {n quantum i m m' m'' s c s' c' s'' c'' : ℕ}
    (h : Settled n quantum i m m' s c s' c') (h' : Settled n quantum i m' m'' s' c' s'' c'') :
    Settled n quantum i m m'' s c s'' c'' := by
  rw [Settled] at h h' ⊢
  omega

/-- What the first queue has sent more than the second one. -/
theorem Settled.le {n quantum bound i j m m' si ci si' ci' sj cj sj' cj' : ℕ} (hi : i < n)
    (hj : j < n) (hsi : Settled n quantum i m m' si ci si' ci')
    (hsj : Settled n quantum j m m' sj cj sj' cj') (hci : ci < bound) (hcj' : cj' < bound) :
    si' + sj < sj' + si + quantum + 2 * bound := by
  have hfair := Nat.mul_le_mul_left quantum (turns_fair hi hj m m')
  rw [Settled] at hsi hsj
  simp only [Nat.mul_add, Nat.mul_one] at hfair
  omega

end RoundRobin

end P4Survey.Lib
