import P4Survey.Lib.Voting

/-! # Single-decree voting with register acceptors

An acceptor keeps one round, the round of its last vote and the value of that
vote, with round zero for none. It promises any round that is not below its own,
votes likewise, and answers promises as often as it is asked, also after a vote
in the same round. Proposals follow the usual rule on a majority of promises.
-/

namespace P4Survey.Lib

open Voting

/-- Acceptor registers and everything that was said so far. -/
@[ext] structure Decree (A V : Type*) where
  round : A → ℕ
  vround : A → ℕ
  value : A → V
  promised : A → ℕ → ℕ → V → Prop
  voted : A → ℕ → V → Prop
  proposed : ℕ → V → Prop

namespace Decree

variable {A V : Type*}

/-- Nothing said and all registers zero. -/
def initial (v : V) : Decree A V :=
  ⟨fun _ => 0, fun _ => 0, fun _ => v, fun _ _ _ _ => False, fun _ _ _ => False,
    fun _ _ => False⟩

/-- Promises of round `p` from a majority, among which `v` is the value with the
largest reported vote, if any vote is reported. -/
def Supported [Fintype A] (d : Decree A V) (p : ℕ) (v : V) : Prop :=
  ∃ R : List (A × ℕ × V), (∀ r ∈ R, d.promised r.1 p r.2.1 r.2.2) ∧
    (∃ Q : Finset A, Majority Q ∧ ∀ a ∈ Q, ∃ r ∈ R, r.1 = a) ∧
    ((∃ r ∈ R, 0 < r.2.1) → ∃ r ∈ R, r.2.2 = v ∧ ∀ r' ∈ R, r'.2.1 ≤ r.2.1)

variable [DecidableEq A]

def propose (d : Decree A V) (p : ℕ) (v : V) : Decree A V :=
  { d with proposed := fun q w => d.proposed q w ∨ (q = p ∧ w = v) }

def promise (d : Decree A V) (a : A) (p : ℕ) : Decree A V :=
  { d with
    round := Function.update d.round a p
    promised := fun b q vp v =>
      d.promised b q vp v ∨ (b = a ∧ q = p ∧ vp = d.vround a ∧ v = d.value a) }

def vote (d : Decree A V) (a : A) (p : ℕ) (v : V) : Decree A V :=
  { d with
    round := Function.update d.round a p
    vround := Function.update d.vround a p
    value := Function.update d.value a v
    voted := fun b q w => d.voted b q w ∨ (b = a ∧ q = p ∧ w = v) }

variable [Fintype A]

inductive Step : Decree A V → Decree A V → Prop
  | propose {d : Decree A V} {p : ℕ} {v : V} : 1 ≤ p → (∀ w, d.proposed p w → w = v) →
      d.Supported p v → Step d (d.propose p v)
  | promise {d : Decree A V} {a : A} {p : ℕ} : d.round a ≤ p → Step d (d.promise a p)
  | vote {d : Decree A V} {a : A} {p : ℕ} {v : V} : d.round a ≤ p → d.proposed p v →
      Step d (d.vote a p v)

/-- What holds in every state: the registers record the last vote, reports are
true and stay true, and every proposal is safe. -/
structure Inv (d : Decree A V) : Prop where
  vround_le : ∀ a, d.vround a ≤ d.round a
  vround_voted : ∀ a, 0 < d.vround a → d.voted a (d.vround a) (d.value a)
  voted_le : ∀ a p v, d.voted a p v → p ≤ d.vround a
  voted_proposed : ∀ a p v, d.voted a p v → d.proposed p v
  promised_le : ∀ a p vp v, d.promised a p vp v → p ≤ d.round a
  report_le : ∀ a p vp v, d.promised a p vp v → vp ≤ p
  report_voted : ∀ a p vp v, d.promised a p vp v → 0 < vp → d.voted a vp v
  report_max : ∀ a p vp v q w, d.promised a p vp v → d.voted a q w → q < p → q ≤ vp
  proposed_pos : ∀ p v, d.proposed p v → 1 ≤ p
  proposed_one : ∀ p v w, d.proposed p v → d.proposed p w → v = w
  proposed_safe : ∀ p v, d.proposed p v → SafeAt d.voted d.round p v

omit [DecidableEq A] in
theorem Inv.initial (v : V) : (Decree.initial v : Decree A V).Inv := by
  constructor <;> simp [Decree.initial]

omit [DecidableEq A] in
/-- A supported value is safe: the highest report is a vote for it, or there is
no vote below the round at all. -/
theorem Supported.safe {d : Decree A V} (hd : d.Inv) {p : ℕ} {v : V} (h : d.Supported p v) :
    SafeAt d.voted d.round p v := by
  obtain ⟨R, hR, ⟨Q, hQ, hcover⟩, hmax⟩ := h
  have hround : ∀ a ∈ Q, p ≤ d.round a := by
    intro a ha
    obtain ⟨r, hr, rfl⟩ := hcover a ha
    exact hd.promised_le _ _ _ _ (hR r hr)
  by_cases hpos : ∃ r ∈ R, 0 < r.2.1
  · obtain ⟨r, hr, hval, hle⟩ := hmax hpos
    have hrpos : 0 < r.2.1 := by
      obtain ⟨r', hr', hpos'⟩ := hpos
      exact hpos'.trans_le (hle r' hr')
    have hvoted : d.voted r.1 r.2.1 v := hval ▸ hd.report_voted _ _ _ _ (hR r hr) hrpos
    have hprop := hd.voted_proposed _ _ _ hvoted
    rcases (hd.report_le _ _ _ _ (hR r hr)).eq_or_lt with heq | hlt
    · rw [← heq]
      exact hd.proposed_safe _ _ hprop
    · refine safeAt_of_highest hQ hround ?_ (hd.proposed_safe _ _ hprop) ?_
      · intro a ha c hc hcp w hw
        obtain ⟨r', hr', rfl⟩ := hcover a ha
        have hrep := hd.report_max _ _ _ _ _ _ (hR r' hr') hw hcp
        exact absurd (hrep.trans (hle r' hr')) (not_le.mpr hc)
      · intro a w hw
        exact hd.proposed_one _ _ _ (hd.voted_proposed _ _ _ hw) hprop
  · refine safeAt_of_no_vote hQ hround ?_ v
    intro a ha c hc w hw
    obtain ⟨r, hr, rfl⟩ := hcover a ha
    have hrep := hd.report_max _ _ _ _ _ _ (hR r hr) hw hc
    have hcpos := hd.proposed_pos _ _ (hd.voted_proposed _ _ _ hw)
    exact hpos ⟨r, hr, by omega⟩

omit [DecidableEq A] in
theorem Inv.propose {d : Decree A V} (hd : d.Inv) {p : ℕ} {v : V} (hp : 1 ≤ p)
    (hone : ∀ w, d.proposed p w → w = v) (h : d.Supported p v) : (d.propose p v).Inv where
  vround_le := hd.vround_le
  vround_voted := hd.vround_voted
  voted_le := hd.voted_le
  voted_proposed a q w hw := .inl (hd.voted_proposed a q w hw)
  promised_le := hd.promised_le
  report_le := hd.report_le
  report_voted := hd.report_voted
  report_max := hd.report_max
  proposed_pos q w hw := by
    rcases hw with hw | ⟨rfl, rfl⟩
    · exact hd.proposed_pos q w hw
    · exact hp
  proposed_one q w x hw hx := by
    rcases hw with hw | ⟨rfl, rfl⟩ <;> rcases hx with hx | ⟨hq, rfl⟩
    · exact hd.proposed_one q w x hw hx
    · exact hone w (hq ▸ hw)
    · exact (hone x hx).symm
    · rfl
  proposed_safe q w hw := by
    rcases hw with hw | ⟨rfl, rfl⟩
    · exact hd.proposed_safe q w hw
    · exact h.safe hd

omit [Fintype A] in
theorem round_le_update {f : A → ℕ} {a : A} {p : ℕ} (h : f a ≤ p) (b : A) :
    f b ≤ Function.update f a p b := by
  by_cases hb : b = a
  · subst hb
    simpa using h
  · simp [Function.update_of_ne hb]

theorem Inv.promise {d : Decree A V} (hd : d.Inv) {a : A} {p : ℕ} (h : d.round a ≤ p) :
    (d.promise a p).Inv where
  vround_le b := (hd.vround_le b).trans (round_le_update h b)
  vround_voted := hd.vround_voted
  voted_le := hd.voted_le
  voted_proposed := hd.voted_proposed
  promised_le b q vp v hb := by
    rcases hb with hb | ⟨rfl, rfl, -, -⟩
    · exact (hd.promised_le b q vp v hb).trans (round_le_update h b)
    · simp [Decree.promise]
  report_le b q vp v hb := by
    rcases hb with hb | ⟨rfl, rfl, rfl, -⟩
    · exact hd.report_le b q vp v hb
    · exact (hd.vround_le b).trans h
  report_voted b q vp v hb hpos := by
    rcases hb with hb | ⟨rfl, rfl, rfl, rfl⟩
    · exact hd.report_voted b q vp v hb hpos
    · exact hd.vround_voted b hpos
  report_max b q vp v c w hb hw hc := by
    rcases hb with hb | ⟨rfl, rfl, rfl, -⟩
    · exact hd.report_max b q vp v c w hb hw hc
    · exact hd.voted_le b c w hw
  proposed_pos := hd.proposed_pos
  proposed_one := hd.proposed_one
  proposed_safe q w hw :=
    (hd.proposed_safe q w hw).mono (round_le_update h) (fun _ _ _ hv => .inl hv)

theorem Inv.vote {d : Decree A V} (hd : d.Inv) {a : A} {p : ℕ} {v : V} (h : d.round a ≤ p)
    (hp : d.proposed p v) : (d.vote a p v).Inv where
  vround_le b := by
    by_cases hb : b = a
    · subst hb
      simp [Decree.vote]
    · simpa [Decree.vote, Function.update_of_ne hb] using hd.vround_le b
  vround_voted b hpos := by
    by_cases hb : b = a
    · subst hb
      simp [Decree.vote]
    · simp only [Decree.vote, Function.update_of_ne hb] at hpos ⊢
      exact .inl (hd.vround_voted b hpos)
  voted_le b q w hw := by
    rcases hw with hw | ⟨rfl, rfl, rfl⟩
    · exact (hd.voted_le b q w hw).trans
        (round_le_update ((hd.vround_le a).trans h) b)
    · simp [Decree.vote]
  voted_proposed b q w hw := by
    rcases hw with hw | ⟨-, rfl, rfl⟩
    · exact hd.voted_proposed b q w hw
    · exact hp
  promised_le b q vp w hb := (hd.promised_le b q vp w hb).trans (round_le_update h b)
  report_le := hd.report_le
  report_voted b q vp w hb hpos := .inl (hd.report_voted b q vp w hb hpos)
  report_max b q vp w c x hb hx hc := by
    rcases hx with hx | ⟨rfl, rfl, -⟩
    · exact hd.report_max b q vp w c x hb hx hc
    · exact absurd ((hd.promised_le b q vp w hb).trans h) (not_le.mpr hc)
  proposed_pos := hd.proposed_pos
  proposed_one := hd.proposed_one
  proposed_safe q w hw := by
    refine (hd.proposed_safe q w hw).mono (round_le_update h) ?_
    rintro b c x (hx | ⟨rfl, rfl, -⟩)
    · exact .inl hx
    · exact .inr h

theorem Inv.step {d d' : Decree A V} (hd : d.Inv) (h : Step d d') : d'.Inv := by
  cases h with
  | propose hp hone hs => exact hd.propose hp hone hs
  | promise h => exact hd.promise h
  | vote h hp => exact hd.vote h hp

/-- Two values voted for by majorities are equal. -/
theorem Inv.agreement {d : Decree A V} (hd : d.Inv) {p q : ℕ} {v w : V}
    (hv : Chosen d.voted p v) (hw : Chosen d.voted q w) : v = w :=
  Voting.agreement (fun a b x hx => hd.proposed_safe b x (hd.voted_proposed a b x hx))
    (fun a b c x y hx hy => hd.proposed_one c x y (hd.voted_proposed a c x hx)
      (hd.voted_proposed b c y hy)) hv hw

end Decree

end P4Survey.Lib
