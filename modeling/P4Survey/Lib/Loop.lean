import Mathlib.Logic.Function.Basic
import Mathlib.Tactic

/-! # Loops that may fail

A loop that counts upwards over a state, each of whose rounds may fail, and the case that a
round changes one place of an array.
-/

namespace P4Survey.Lib

variable {ε σ ι β : Type*}

/-- The rounds `0` to `n - 1`. -/
def loop (body : ℕ → σ → Except ε σ) : ℕ → σ → Except ε σ
  | 0, s => .ok s
  | n + 1, s => (loop body n s).bind (body n)

/-- A round that changes one place. -/
def modify [DecidableEq ι] (i : ι) (f : β → Except ε β) (s : ι → β) : Except ε (ι → β) :=
  (f (s i)).map (Function.update s i)

theorem bind_eq_ok {α : Type*} {x : Except ε σ} {f : σ → Except ε α} {r : α} :
    x.bind f = .ok r ↔ ∃ a, x = .ok a ∧ f a = .ok r := by
  cases x with
  | error e => simp [Except.bind]
  | ok a => simp [Except.bind]

theorem map_eq_ok {α : Type*} {x : Except ε σ} {f : σ → α} {r : α} :
    x.map f = .ok r ↔ ∃ a, x = .ok a ∧ f a = r := by
  cases x with
  | error e => simp [Except.map]
  | ok a => simp [Except.map]

/-- If it fails, then with an error of a kind. -/
def FailsOnly (P : ε → Prop) (x : Except ε σ) : Prop := ∀ e, x = .error e → P e

namespace FailsOnly

variable {P : ε → Prop} {x : Except ε σ}

theorem ok (s : σ) : FailsOnly P (.ok s) := nofun

theorem error {e : ε} (h : P e) : FailsOnly P (.error e : Except ε σ) := by
  rintro _ ⟨⟩
  exact h

theorem bind {α : Type*} {f : σ → Except ε α} (hx : FailsOnly P x)
    (hf : ∀ a, FailsOnly P (f a)) : FailsOnly P (x.bind f) := by
  cases x with
  | error e => exact error (hx e rfl)
  | ok a => exact hf a

theorem map {α : Type*} {f : σ → α} (hx : FailsOnly P x) : FailsOnly P (x.map f) := by
  cases x with
  | error e => exact error (hx e rfl)
  | ok a => exact ok (f a)

theorem loop {body : ℕ → σ → Except ε σ} (h : ∀ i s, FailsOnly P (body i s)) (n : ℕ) (s : σ) :
    FailsOnly P (loop body n s) := by
  induction n with
  | zero => exact ok s
  | succ n ih => exact ih.bind (h n)

theorem modify [DecidableEq ι] {f : β → Except ε β} (h : ∀ b, FailsOnly P (f b)) (i : ι)
    (s : ι → β) : FailsOnly P (modify i f s) :=
  (h (s i)).map

theorem exists_ok {e : ε} (h : FailsOnly (· = e) x) (hne : x ≠ .error e) : ∃ s, x = .ok s := by
  cases x with
  | error e' => exact absurd (congrArg _ (h e' rfl)) hne
  | ok s => exact ⟨s, rfl⟩

end FailsOnly

section

variable {body : ℕ → σ → Except ε σ} {n : ℕ} {s s' : σ}

/-- What each round keeps holds at the end. -/
theorem loop_invariant {I : ℕ → σ → Prop} (hs : I 0 s)
    (hstep : ∀ i < n, ∀ t t', I i t → body i t = .ok t' → I (i + 1) t')
    (h : loop body n s = .ok s') : I n s' := by
  induction n generalizing s' with
  | zero =>
    cases h
    exact hs
  | succ n ih =>
    obtain ⟨t, ht, hlast⟩ := bind_eq_ok.mp h
    exact hstep n n.lt_succ_self t s' (ih (fun i hi => hstep i (by omega)) ht) hlast

end

section

variable [DecidableEq ι] {i : ι} {s s' : ι → β}

theorem modify_ok {f : β → Except ε β} (h : modify i f s = .ok s') :
    f (s i) = .ok (s' i) ∧ ∀ k, k ≠ i → s' k = s k := by
  rw [modify] at h
  cases hf : f (s i) with
  | error e =>
    rw [hf] at h
    cases h
  | ok b =>
    rw [hf] at h
    cases h
    exact ⟨by rw [Function.update_self], fun k hk => Function.update_of_ne hk _ _⟩

/-- If each round changes a place of its own, each place is changed from what it held. -/
theorem loop_modify {g : ℕ → ι} {f : ℕ → β → Except ε β} {n : ℕ}
    (hg : ∀ i < n, ∀ j < n, g i = g j → i = j)
    (h : loop (fun i => modify (g i) (f i)) n s = .ok s') :
    (∀ i < n, f i (s (g i)) = .ok (s' (g i))) ∧ ∀ k, (∀ i < n, g i ≠ k) → s' k = s k := by
  refine loop_invariant (n := n)
    (I := fun m t => m ≤ n → (∀ i < m, f i (s (g i)) = .ok (t (g i))) ∧
      ∀ k, (∀ i < m, g i ≠ k) → t k = s k) ?_ ?_ h le_rfl
  · exact fun _ => ⟨fun i hi => absurd hi i.not_lt_zero, fun _ _ => rfl⟩
  · intro m hm t t' ih hround hle
    obtain ⟨hdone, hrest⟩ := ih (by omega)
    obtain ⟨hself, hother⟩ := modify_ok hround
    refine ⟨fun i hi => ?_, fun k hk => ?_⟩
    · rcases Nat.lt_succ_iff_lt_or_eq.mp hi with hi | rfl
      · rw [hother _ fun heq => absurd (hg i (by omega) m hm heq) (by omega)]
        exact hdone i hi
      · rw [← hself, hrest _ fun j hj heq => absurd (hg j (by omega) _ hm heq) (by omega)]
    · rw [hother k fun heq => hk m m.lt_succ_self heq.symm]
      exact hrest k fun i hi => hk i (by omega)

end

end P4Survey.Lib
