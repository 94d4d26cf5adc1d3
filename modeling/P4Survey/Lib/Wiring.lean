import Mathlib.Tactic

/-! # Ports wired in pairs

Nodes whose ports are wired in pairs, or lead out. A packet carries the ports it
still has to leave by, and each node notes in front of a second list the port it
came in by. The list noted on a way through is the way back.
-/

namespace P4Survey.Lib

/-- Where each port of each node leads; ports without a link lead out. -/
structure Wiring (σ π : Type*) where
  link : σ → π → Option (σ × π)
  symm : ∀ {s p s' p'}, link s p = some (s', p') → link s' p' = some (s, p)

namespace Wiring

variable {σ π : Type*} (w : Wiring σ π)

/-- The way of a packet that enters `s` by port `p`: the node and the port where it
gets out with no port left, and the ports it came in by, the last one first. -/
def trace : σ → π → List π → List π → Option (σ × π × List π)
  | _, _, [], _ => none
  | s, p, q :: route, back =>
    match w.link s q with
    | none => if route.isEmpty then some (s, q, p :: back) else none
    | some (s', p') => trace s' p' route (p :: back)

/-- The way of a packet that leaves `s` by port `q`. -/
def leave (s : σ) (q : π) (route back : List π) : Option (σ × π × List π) :=
  match w.link s q with
  | none => if route.isEmpty then some (s, q, back) else none
  | some (s', p') => w.trace s' p' route back

variable {w} {s t : σ} {p q : π} {route back noted : List π}

theorem trace_cons : w.trace s p (q :: route) back = w.leave s q route (p :: back) := rfl

theorem leave_nil (h : w.link s q = none) : w.leave s q [] back = some (s, q, back) := by
  simp [leave, h]

theorem leave_link {s' : σ} {p' : π} (h : w.link s q = some (s', p')) :
    w.leave s q route back = w.trace s' p' route back := by
  simp [leave, h]

/-- A way that gets out ends at an outer port or goes on along a link. -/
theorem leave_eq_some {x : σ × π × List π} (h : w.leave s q route back = some x) :
    (w.link s q = none ∧ route = [] ∧ x = (s, q, back)) ∨
      ∃ s' p', w.link s q = some (s', p') ∧ w.trace s' p' route back = some x := by
  cases hl : w.link s q with
  | none =>
    left
    cases route with
    | nil =>
      rw [leave_nil hl] at h
      exact ⟨rfl, rfl, (Option.some.inj h).symm⟩
    | cons q' route => simp [leave, hl] at h
  | some y =>
    rw [leave_link hl] at h
    exact .inr ⟨y.1, y.2, rfl, h⟩

/-- What was noted on the way leads back to where the way began, and on the way back
the ports of the way itself are noted. -/
theorem trace_back (h : w.trace s p route back = some (t, q, noted)) (l : List π) :
    w.trace t q noted l = w.leave s p back (route ++ l) := by
  induction route generalizing s p back with
  | nil => simp [trace] at h
  | cons q' route ih =>
    rw [trace_cons] at h
    rcases leave_eq_some h with ⟨-, rfl, he⟩ | ⟨s', p', hl, h'⟩
    · obtain ⟨rfl, rfl, rfl⟩ : t = s ∧ q = q' ∧ noted = p :: back := by simpa using he
      rw [trace_cons]
      rfl
    · rw [ih h', leave_link (w.symm hl), trace_cons]
      rfl

/-- Between two outer ports the way back notes the way. -/
theorem trace_outer (hp : w.link s p = none) (h : w.trace s p route [] = some (t, q, noted)) :
    w.trace t q noted [] = some (s, p, route) := by
  rw [trace_back h, leave_nil hp, List.append_nil]

theorem length_of_trace (h : w.trace s p route back = some (t, q, noted)) :
    noted.length = route.length + back.length := by
  induction route generalizing s p back with
  | nil => simp [trace] at h
  | cons q' route ih =>
    rw [trace_cons] at h
    rcases leave_eq_some h with ⟨-, rfl, he⟩ | ⟨s', p', -, h'⟩
    · obtain ⟨rfl, rfl, rfl⟩ : t = s ∧ q = q' ∧ noted = p :: back := by simpa using he
      simp [Nat.add_comm]
    · rw [ih h']
      simp only [List.length_cons]
      omega

end Wiring

end P4Survey.Lib
