import Mathlib.Order.Basic
import Mathlib.Tactic

/-! # Labelled systems, their reachable states and their runs

A system is given by its initial states, by the labels enabled in a state and
by the state a label leads to. All nondeterminism sits in the label, so a run
is a list of labels and every step can be evaluated.
-/

namespace P4Survey.Lib

/-- Initial states, enabled labels and the state after a label. -/
structure System (σ ℓ : Type*) where
  init : σ → Prop
  enabled : σ → ℓ → Prop
  next : σ → ℓ → σ

namespace System

variable {σ ℓ : Type*} (S : System σ ℓ)

inductive Reachable : σ → Prop
  | init {s : σ} : S.init s → Reachable s
  | step {s : σ} {a : ℓ} : Reachable s → S.enabled s a → Reachable (S.next s a)

/-- The states that a run from `s` passes through. -/
inductive Steps (s : σ) : σ → Prop
  | refl : Steps s s
  | step {t : σ} {a : ℓ} : Steps s t → S.enabled t a → Steps s (S.next t a)

/-- The state after a list of labels. -/
def run (s : σ) : List ℓ → σ
  | [] => s
  | a :: l => run (S.next s a) l

/-- Each label of the list is enabled when its turn comes. -/
def Allowed (s : σ) : List ℓ → Prop
  | [] => True
  | a :: l => S.enabled s a ∧ Allowed (S.next s a) l

/-- Whether a run is allowed can be decided if this is so for its steps. -/
instance decidableAllowed [∀ s a, Decidable (S.enabled s a)] (s : σ) :
    (l : List ℓ) → Decidable (S.Allowed s l)
  | [] => isTrue trivial
  | a :: l =>
    have := decidableAllowed (S.next s a) l
    inferInstanceAs (Decidable (_ ∧ _))

variable {S}

theorem Reachable.run {s : σ} (h : S.Reachable s) {l : List ℓ} (hl : S.Allowed s l) :
    S.Reachable (S.run s l) := by
  induction l generalizing s with
  | nil => exact h
  | cons a l ih => exact ih (h.step hl.1) hl.2

theorem allowed_append {s : σ} {l l' : List ℓ} :
    S.Allowed s (l ++ l') ↔ S.Allowed s l ∧ S.Allowed (S.run s l) l' := by
  induction l generalizing s with
  | nil => simp [Allowed, System.run]
  | cons a l ih => simp [Allowed, System.run, ih, and_assoc]

@[simp] theorem run_append (s : σ) (l l' : List ℓ) :
    S.run s (l ++ l') = S.run (S.run s l) l' := by
  induction l generalizing s with
  | nil => rfl
  | cons a l ih => exact ih _

/-- A relation between the labels so far and the state, kept by each step, holds of a run. -/
theorem Allowed.history {R : List ℓ → σ → Prop}
    (hstep : ∀ l s a, R l s → S.enabled s a → R (l ++ [a]) (S.next s a)) {s : σ} (hs : R [] s)
    {l : List ℓ} (hl : S.Allowed s l) : R l (S.run s l) := by
  induction l using List.reverseRecOn with
  | nil => exact hs
  | append_singleton l a ih =>
    rw [allowed_append] at hl
    rw [run_append]
    exact hstep l _ a (ih hl.1) hl.2.1

theorem allowed_replicate {a : ℓ} (ha : ∀ s, S.enabled s a) (m : ℕ) (s : σ) :
    S.Allowed s (List.replicate m a) := by
  induction m generalizing s with
  | zero => trivial
  | succ m ih => exact ⟨ha s, ih _⟩

theorem Reachable.invariant {P : σ → Prop} (hinit : ∀ s, S.init s → P s)
    (hstep : ∀ s a, S.Reachable s → P s → S.enabled s a → P (S.next s a))
    {s : σ} (h : S.Reachable s) : P s := by
  induction h with
  | init h => exact hinit _ h
  | step hr he ih => exact hstep _ _ hr ih he

theorem Reachable.steps {s t : σ} (h : S.Reachable s) (hst : S.Steps s t) : S.Reachable t := by
  induction hst with
  | refl => exact h
  | step _ he ih => exact ih.step he

theorem Steps.trans {s t u : σ} (h : S.Steps s t) (h' : S.Steps t u) : S.Steps s u := by
  induction h' with
  | refl => exact h
  | step _ he ih => exact ih.step he

/-- A quantity that no step from a reachable state lowers is not lowered by a run. -/
theorem Steps.monotone {α : Type*} [Preorder α] {f : σ → α} {s t : σ} (h : S.Reachable s)
    (hst : S.Steps s t)
    (hstep : ∀ u a, S.Reachable u → S.enabled u a → f u ≤ f (S.next u a)) : f s ≤ f t := by
  induction hst with
  | refl => exact le_rfl
  | step hr he ih => exact ih.trans (hstep _ _ (h.steps hr) he)

variable (S)

/-- The same system with a side condition on the state before each step. -/
def restrict (ok : σ → ℓ → Prop) : System σ ℓ where
  init := S.init
  enabled s a := S.enabled s a ∧ ok s a
  next := S.next

instance [∀ s a, Decidable (S.enabled s a)] (ok : σ → ℓ → Prop) [∀ s a, Decidable (ok s a)] (s : σ)
    (a : ℓ) : Decidable ((S.restrict ok).enabled s a) :=
  inferInstanceAs (Decidable (_ ∧ _))

variable {S}

@[simp] theorem run_restrict (ok : σ → ℓ → Prop) (s : σ) (l : List ℓ) :
    (S.restrict ok).run s l = S.run s l := by
  induction l generalizing s with
  | nil => rfl
  | cons a l ih => exact ih _

/-- If a side condition keeps an invariant and each step that keeps a consequence of it
meets the condition, the consequence holds along a run exactly if each step meets the
condition. -/
theorem holds_iff_allowed {I P : σ → Prop} {ok : σ → ℓ → Prop} (hI : ∀ s, I s → P s)
    (hstep : ∀ s a, I s → S.enabled s a → ok s a → I (S.next s a))
    (hexact : ∀ s a, I s → S.enabled s a → P (S.next s a) → ok s a)
    {s : σ} (hs : I s) {l : List ℓ} (hl : S.Allowed s l) :
    (∀ l', l' <+: l → P (S.run s l')) ↔ (S.restrict ok).Allowed s l := by
  induction l generalizing s with
  | nil =>
    refine ⟨fun _ => trivial, fun _ l' hl' => ?_⟩
    rw [List.prefix_nil.mp hl']
    exact hI s hs
  | cons a l ih =>
    constructor
    · intro hP
      have hok := hexact s a hs hl.1 (hP [a] ⟨l, rfl⟩)
      refine ⟨⟨hl.1, hok⟩, (ih (hstep s a hs hl.1 hok) hl.2).mp fun l' hl' => ?_⟩
      exact hP (a :: l') (List.cons_prefix_cons.mpr ⟨rfl, hl'⟩)
    · rintro ⟨⟨-, hok⟩, hrest⟩ l' hl'
      cases l' with
      | nil => exact hI s hs
      | cons b l' =>
        obtain ⟨rfl, hprefix⟩ := List.cons_prefix_cons.mp hl'
        exact (ih (hstep s b hs hl.1 hok) hl.2).mpr hrest l' hprefix

theorem Reachable.of_restrict {ok : σ → ℓ → Prop} {s : σ} (h : (S.restrict ok).Reachable s) :
    S.Reachable s := by
  induction h with
  | init h => exact .init h
  | step _ he ih => exact .step ih he.1

end System

end P4Survey.Lib
