import Mathlib.Tactic

/-! # Packets on the AXI streams of the switch

A packet is a sequence of words of which only the last one has `tlast` set. The metadata
in `tuser` is that of the packet in its first word.
-/

namespace P4Survey.NetFpga

/-- What an output queue stores of a word. -/
structure Word where
  tdata : BitVec 256
  tkeep : BitVec 32
  tlast : Bool
  deriving DecidableEq, Inhabited

/-- One word of a stream. -/
structure Beat extends Word where
  tuser : BitVec 128
  deriving DecidableEq, Inhabited

/-- The length of the packet in bytes, in its first word. -/
def Beat.pktLen (w : Beat) : BitVec 16 := w.tuser.setWidth 16

/-- The words are those of packets of at least two words. The first one, which is next unless
`started` says otherwise, is `ok`. -/
def Framed (ok : Beat → Prop) : (started : Bool) → List Beat → Prop
  | _, [] => True
  | false, w :: l => ok w ∧ w.tlast = false ∧ Framed ok true l
  | true, w :: l => Framed ok (!w.tlast) l

instance decidableFramed (ok : Beat → Prop) [DecidablePred ok] : (started : Bool) →
    (l : List Beat) → Decidable (Framed ok started l)
  | _, [] => isTrue trivial
  | false, w :: l =>
    have := decidableFramed ok true l
    inferInstanceAs (Decidable (ok w ∧ w.tlast = false ∧ _))
  | true, w :: l => decidableFramed ok (!w.tlast) l

/-- Whether a packet has started and not ended after some words. -/
def midPacket (started : Bool) : List Beat → Bool
  | [] => started
  | w :: l => midPacket (!w.tlast) l

theorem midPacket_append (started : Bool) (l l' : List Beat) :
    midPacket started (l ++ l') = midPacket (midPacket started l) l' := by
  induction l generalizing started with
  | nil => rfl
  | cons w l ih => exact ih _

@[simp] theorem midPacket_concat (started : Bool) (l : List Beat) (w : Beat) :
    midPacket started (l ++ [w]) = !w.tlast := by
  rw [midPacket_append]
  rfl

/-- A packet is under way after words none of which is its last one. -/
theorem midPacket_begun {started : Bool} {q : List Beat} (h : ∀ w ∈ q, w.tlast = false)
    (hq : q ≠ []) : midPacket started q = true := by
  rcases List.eq_nil_or_concat' q with rfl | ⟨q', y, rfl⟩
  · exact absurd rfl hq
  · rw [midPacket_concat, h y (by simp)]
    rfl

theorem midPacket_congr {l l' : List Beat} (h : l.map (·.toWord) = l'.map (·.toWord))
    (started : Bool) : midPacket started l = midPacket started l' := by
  induction l generalizing l' started with
  | nil =>
    rw [List.map_nil, eq_comm, List.map_eq_nil_iff] at h
    rw [h]
  | cons w l ih =>
    cases l' with
    | nil => exact absurd h (List.cons_ne_nil _ _)
    | cons w' l' =>
      obtain ⟨hw, hl⟩ := List.cons.inj h
      have hlast : w.tlast = w'.tlast := congrArg Word.tlast hw
      rw [midPacket, midPacket, hlast]
      exact ih hl _

/-- The metadata of the packets that start among the words. -/
def headers (started : Bool) : List Beat → List (BitVec 128)
  | [] => []
  | w :: l => (if started then [] else [w.tuser]) ++ headers (!w.tlast) l

theorem headers_append (started : Bool) (l l' : List Beat) :
    headers started (l ++ l') = headers started l ++ headers (midPacket started l) l' := by
  induction l generalizing started with
  | nil => rfl
  | cons w l ih => rw [List.cons_append, headers, ih, headers, List.append_assoc, midPacket]

theorem framed_append {ok : Beat → Prop} {started : Bool} {l l' : List Beat} :
    Framed ok started (l ++ l') ↔
      Framed ok started l ∧ Framed ok (midPacket started l) l' := by
  induction l generalizing started with
  | nil => simp [Framed, midPacket]
  | cons w l ih =>
    cases started with
    | true => exact ih
    | false =>
      rw [List.cons_append, Framed, Framed, midPacket, ih, and_assoc, and_assoc]
      refine and_congr_right fun _ => and_congr_right fun hlast => ?_
      rw [hlast]
      rfl

theorem framed_congr {l l' : List Beat} (h : l.map (·.toWord) = l'.map (·.toWord))
    {started : Bool} (hl : Framed (fun _ => True) started l) :
    Framed (fun _ => True) started l' := by
  induction l generalizing l' started with
  | nil =>
    rw [List.map_nil, eq_comm, List.map_eq_nil_iff] at h
    rw [h]
    trivial
  | cons w l ih =>
    cases l' with
    | nil => trivial
    | cons w' l' =>
      obtain ⟨hw, hrest⟩ := List.cons.inj h
      have hlast : w.tlast = w'.tlast := congrArg Word.tlast hw
      cases started with
      | false => exact ⟨trivial, hlast ▸ hl.2.1, ih hrest hl.2.2⟩
      | true =>
        rw [Framed, ← hlast]
        exact ih hrest hl

/-- The words of a whole packet. -/
def IsPacket (p : List Beat) : Prop :=
  ∃ q w, p = q ++ [w] ∧ q ≠ [] ∧ (∀ x ∈ q, x.tlast = false) ∧ w.tlast = true

theorem IsPacket.midPacket {p : List Beat} (h : IsPacket p) (started : Bool) :
    midPacket started p = false := by
  obtain ⟨q, w, rfl, -, -, hw⟩ := h
  rw [midPacket_concat, hw]
  rfl

theorem midPacket_flatMap {ι : Type*} {f : ι → List Beat} {l : List ι}
    (h : ∀ i ∈ l, IsPacket (f i)) : midPacket false (l.flatMap f) = false := by
  induction l with
  | nil => rfl
  | cons i l ih =>
    rw [List.flatMap_cons, midPacket_append, (h i List.mem_cons_self).midPacket]
    exact ih fun j hj => h j (List.mem_cons_of_mem i hj)

theorem framed_begun {q : List Beat} (h : ∀ w ∈ q, w.tlast = false) :
    Framed (fun _ => True) false q := by
  have hmore (q : List Beat) (hq : ∀ w ∈ q, w.tlast = false) : Framed (fun _ => True) true q := by
    induction q with
    | nil => trivial
    | cons w q ih =>
      rw [Framed, hq w List.mem_cons_self]
      exact ih fun x hx => hq x (List.mem_cons_of_mem w hx)
  cases q with
  | nil => trivial
  | cons w q =>
    exact ⟨trivial, h w List.mem_cons_self, hmore q fun x hx => h x (List.mem_cons_of_mem w hx)⟩

theorem framed_flatMap {ι : Type*} {f : ι → List Beat} {l : List ι}
    (h : ∀ i ∈ l, IsPacket (f i)) : Framed (fun _ => True) false (l.flatMap f) := by
  induction l with
  | nil => trivial
  | cons i l ih =>
    have hi := h i List.mem_cons_self
    rw [List.flatMap_cons, framed_append, hi.midPacket]
    refine ⟨?_, ih fun j hj => h j (List.mem_cons_of_mem i hj)⟩
    obtain ⟨q, w, hf, hq, hbegun, -⟩ := hi
    obtain ⟨x, q, rfl⟩ := List.exists_cons_of_ne_nil hq
    rw [hf, framed_append]
    refine ⟨framed_begun hbegun, ?_⟩
    rw [midPacket_begun hbegun hq]
    trivial

section Merged

variable {ι : Type*}

/-- The words come in whole packets. -/
def Unmixed (out : List (ι × Beat)) : Prop :=
  out.IsChain fun a b => a.2.tlast = false → b.1 = a.1

/-- The words from a queue. -/
def forwarded [DecidableEq ι] (out : List (ι × Beat)) (i : ι) : List Beat :=
  (out.filter fun p => p.1 = i).map (·.2)

theorem forwarded_concat [DecidableEq ι] (out : List (ι × Beat)) (q i : ι) (w : Beat) :
    forwarded (out ++ [(q, w)]) i = forwarded out i ++ if i = q then [w] else [] := by
  rw [forwarded, forwarded, List.filter_append, List.map_append]
  by_cases h : i = q
  · simp [h]
  · simp [h, Ne.symm h]

end Merged

end P4Survey.NetFpga
