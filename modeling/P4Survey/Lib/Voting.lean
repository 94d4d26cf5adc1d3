import Mathlib.Data.Fintype.Card
import Mathlib.Tactic

/-! # Ballots, votes and majorities

Agreement for ballot-based voting, for arbitrary acceptors, ballots and values.
A ballot `b` is safe for `v` when no other value can still be chosen below `b`.
Votes that are only cast on safe ballots, with one value per ballot, never let
two majorities choose different values.
-/

namespace P4Survey.Lib.Voting

/-- More than half of all acceptors. -/
def Majority {A : Type*} [Fintype A] (Q : Finset A) : Prop := Fintype.card A < 2 * Q.card

instance {A : Type*} [Fintype A] (Q : Finset A) : Decidable (Majority Q) :=
  inferInstanceAs (Decidable (_ < _))

theorem Majority.inter {A : Type*} [Fintype A] [DecidableEq A] {Q R : Finset A}
    (hQ : Majority Q) (hR : Majority R) : ∃ a, a ∈ Q ∧ a ∈ R := by
  by_contra hne
  have hd : Disjoint Q R := by
    rw [Finset.disjoint_left]
    intro a ha hb
    exact hne ⟨a, ha, hb⟩
  have hc := Finset.card_le_univ (Q ∪ R)
  rw [Finset.card_union_of_disjoint hd] at hc
  unfold Majority at hQ hR
  omega

variable {A B V : Type*} [Fintype A] [LinearOrder B]

/-- `v` has been voted for in ballot `b` by a majority. -/
def Chosen (vote : A → B → V → Prop) (b : B) (v : V) : Prop :=
  ∃ Q : Finset A, Majority Q ∧ ∀ a ∈ Q, vote a b v

/-- In every lower ballot some majority has left the ballot behind without
voting for another value than `v`. -/
def SafeAt (vote : A → B → V → Prop) (ballot : A → B) (b : B) (v : V) : Prop :=
  ∀ c < b, ∃ Q : Finset A, Majority Q ∧ ∀ a ∈ Q, c < ballot a ∧ ∀ w, vote a c w → w = v

/-- Safety survives any growth in which ballots do not go down and no new vote
is cast below the ballot its acceptor had reached. -/
theorem SafeAt.mono {vote vote' : A → B → V → Prop} {ballot ballot' : A → B} {b : B} {v : V}
    (h : SafeAt vote ballot b v) (hballot : ∀ a, ballot a ≤ ballot' a)
    (hvote : ∀ a c w, vote' a c w → vote a c w ∨ ballot a ≤ c) : SafeAt vote' ballot' b v := by
  intro c hc
  obtain ⟨Q, hQ, hsafe⟩ := h c hc
  refine ⟨Q, hQ, fun a ha => ⟨(hsafe a ha).1.trans_le (hballot a), ?_⟩⟩
  intro w hw
  rcases hvote a c w hw with hold | hnew
  · exact (hsafe a ha).2 w hold
  · exact absurd (hsafe a ha).1 (not_lt.mpr hnew)

/-- A majority that reached `b` and reports no vote below it makes every value safe. -/
theorem safeAt_of_no_vote {vote : A → B → V → Prop} {ballot : A → B} {b : B} {Q : Finset A}
    (hQ : Majority Q) (hballot : ∀ a ∈ Q, b ≤ ballot a)
    (hnone : ∀ a ∈ Q, ∀ c < b, ∀ w, ¬ vote a c w) (v : V) : SafeAt vote ballot b v := by
  intro c hc
  exact ⟨Q, hQ, fun a ha => ⟨hc.trans_le (hballot a ha),
    fun w hw => absurd hw (hnone a ha c hc w)⟩⟩

/-- A majority that reached `b` and reports no vote between `m` and `b` makes the
value voted for in `m` safe, when it was safe in `m` and the only one there. -/
theorem safeAt_of_highest {vote : A → B → V → Prop} {ballot : A → B} {b m : B} {v : V}
    {Q : Finset A} (hQ : Majority Q) (hballot : ∀ a ∈ Q, b ≤ ballot a)
    (hmax : ∀ a ∈ Q, ∀ c, m < c → c < b → ∀ w, ¬ vote a c w)
    (hm : SafeAt vote ballot m v) (hone : ∀ a w, vote a m w → w = v) :
    SafeAt vote ballot b v := by
  intro c hc
  rcases lt_trichotomy c m with hlt | heq | hgt
  · exact hm c hlt
  · subst heq
    exact ⟨Q, hQ, fun a ha => ⟨hc.trans_le (hballot a ha), fun w hw => hone a w hw⟩⟩
  · exact ⟨Q, hQ, fun a ha => ⟨hc.trans_le (hballot a ha),
      fun w hw => absurd hw (hmax a ha c hgt hc w)⟩⟩

variable [DecidableEq A]

theorem Chosen.eq_of_lt {vote : A → B → V → Prop} {ballot : A → B} {b c : B} {v w : V}
    (hsafe : SafeAt vote ballot b v) (hlt : c < b) (hc : Chosen vote c w) : w = v := by
  obtain ⟨Q, hQ, hvoted⟩ := hc
  obtain ⟨R, hR, hleft⟩ := hsafe c hlt
  obtain ⟨a, haQ, haR⟩ := hQ.inter hR
  exact (hleft a haR).2 w (hvoted a haQ)

/-- Two chosen values agree when every vote is on a safe ballot and a ballot has
one value. -/
theorem agreement {vote : A → B → V → Prop} {ballot : A → B}
    (hsafe : ∀ a b v, vote a b v → SafeAt vote ballot b v)
    (hone : ∀ a a' b v w, vote a b v → vote a' b w → v = w)
    {b c : B} {v w : V} (hb : Chosen vote b v) (hc : Chosen vote c w) : v = w := by
  obtain ⟨Q, hQ, hQv⟩ := hb
  obtain ⟨R, hR, hRw⟩ := hc
  obtain ⟨a, haQ, haR⟩ := hQ.inter hR
  rcases lt_trichotomy b c with hlt | heq | hgt
  · exact Chosen.eq_of_lt (hsafe a c w (hRw a haR)) hlt ⟨Q, hQ, hQv⟩
  · subst heq
    exact hone a a b v w (hQv a haQ) (hRw a haR)
  · exact (Chosen.eq_of_lt (hsafe a b v (hQv a haQ)) hgt ⟨R, hR, hRw⟩).symm

end P4Survey.Lib.Voting
