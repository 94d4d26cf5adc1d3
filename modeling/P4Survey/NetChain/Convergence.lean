import P4Survey.Lib.System
import P4Survey.NetChain.Write

/-! # Convergence over ordered links

Between consecutive switches of a chain there is a queue: what a switch
addresses to the next one arrives there once and in order. The packets queued in
front of a switch then lead, one increasing step after the other, from what this
switch stores to what the switch before it stores. The head's 16-bit counter
breaks this when it wraps, because a later switch takes only larger numbers.
-/

namespace P4Survey.NetChain
open Lib

/-- The switches and, for each of them, the packets on the link in front of it. -/
structure Line (n : ℕ) where
  switch : Fin n → Switch
  queue : Fin n → List Headers

inductive LineLabel (n : ℕ) where
  | write (h : Headers)
  | deliver (j : Fin n)
  | other (j : Fin n) (h : Headers)

namespace Chain

variable {n : ℕ} (c : Chain n)

/-- Switch `j` processes a packet; if it comes out addressed to the next switch it
joins the queue there. -/
def forward (s : Line n) (j : Fin n) (h : Headers) : Line n :=
  let p := ingress (c.tables j) (s.switch j) h
  { switch := Function.update s.switch j p.regs
    queue := fun j' =>
      if j'.val = j.val + 1 ∧ p.hdr.ipv4.dstAddr = c.ip j' then
        s.queue j' ++ [egress (c.tables j) p]
      else s.queue j' }

/-- Equal initial registers; client writes at the head, ordered delivery to the
later switches, and any packets that are not writes anywhere. -/
def line : System (Line n) (LineLabel n) where
  init s := (∀ j, s.switch j = s.switch c.head) ∧ ∀ j, s.queue j = []
  enabled
    | _, .write h => c.IsClientWrite h
    | s, .deliver j => s.queue j ≠ []
    | _, .other _ h => ¬ h.IsWrite
  next
    | s, .write h => c.forward s c.head h
    | s, .deliver j => match s.queue j with
      | [] => s
      | h :: l => c.forward { s with queue := Function.update s.queue j l } j h
    | s, .other j h =>
      { s with switch := Function.update s.switch j (ingress (c.tables j) (s.switch j) h).regs }

/-- No write reaches the head for a key whose counter stands at its maximum. -/
def NoWrap (s : Line n) : LineLabel n → Prop
  | .write h => ∀ i, c.index h.ncHdr.key = some i → (s.switch c.head).seq i ≠ 65535#16
  | .deliver _ => True
  | .other _ _ => True

/-- Taken in order, the queued writes of index `i` lead from `(q, v)` to `(q', v')`
in increasing steps. -/
def Feeds (i : BitVec 16) (q : BitVec 16) (v : BitVec 128) :
    List Headers → BitVec 16 → BitVec 128 → Prop
  | [], q', v' => q = q' ∧ v = v'
  | h :: l, q', v' =>
    if c.index h.ncHdr.key = some i then
      q < h.ncHdr.seq ∧ Feeds i h.ncHdr.seq h.ncHdr.value l q' v'
    else Feeds i q v l q' v'

/-- A write under a known key, queued in front of switch `j`. -/
def Queued (j : Fin n) (h : Headers) : Prop :=
  j ≠ c.head ∧ h.IsWrite ∧ c.Bound j h.query ∧ ∃ i, c.index h.ncHdr.key = some i

structure Settles (s : Line n) : Prop where
  queued : ∀ j, ∀ h ∈ s.queue j, c.Queued j h
  feeds : ∀ j j' : Fin n, j'.val = j.val + 1 → ∀ i,
    c.Feeds i ((s.switch j').seq i) ((s.switch j').value i) (s.queue j')
      ((s.switch j).seq i) ((s.switch j).value i)

variable {c} {i : BitVec 16} {q q' : BitVec 16} {v v' : BitVec 128} {l : List Headers}
  {h : Headers}

theorem Feeds.append_of_ne (hl : c.Feeds i q v l q' v') (hk : c.index h.ncHdr.key ≠ some i) :
    c.Feeds i q v (l ++ [h]) q' v' := by
  induction l generalizing q v with
  | nil =>
    rw [List.nil_append, Feeds, if_neg hk]
    exact hl
  | cons g l ih =>
    rw [List.cons_append, Feeds]
    rw [Feeds] at hl
    split_ifs at hl ⊢ with hg
    · exact ⟨hl.1, ih hl.2⟩
    · exact ih hl

theorem Feeds.append (hl : c.Feeds i q v l q' v') (hk : c.index h.ncHdr.key = some i)
    (hlt : q' < h.ncHdr.seq) :
    c.Feeds i q v (l ++ [h]) h.ncHdr.seq h.ncHdr.value := by
  induction l generalizing q v with
  | nil =>
    rw [List.nil_append, Feeds, if_pos hk]
    exact ⟨hl.1 ▸ hlt, rfl, rfl⟩
  | cons g l ih =>
    rw [List.cons_append, Feeds]
    rw [Feeds] at hl
    split_ifs at hl ⊢ with hg
    · exact ⟨hl.1, ih hl.2⟩
    · exact ih hl

theorem Queued.serves {j : Fin n} (hq : c.Queued j h) : (c.tables j).Serves h := by
  obtain ⟨-, hw, hb, i, hk⟩ := hq
  refine ⟨hw.1, ?_⟩
  have hd : h.ipv4.dstAddr = (c.overlayFrom j).headD 0#32 := hb.2
  rw [hd, c.overlayFrom_eq_cons j, tables_myAddress hk]
  rfl

theorem ne_tail_of_lt {j : Fin n} (hj : j.val + 1 < n) : role j ≠ 102#16 := by
  rw [Ne, role_eq_tail]
  omega

section Step

variable {s : Line n} {j : Fin n} {k : BitVec 128}

theorem forward_switch (j' : Fin n) : (c.forward s j h).switch j' =
    if j' = j then (ingress (c.tables j) (s.switch j) h).regs else s.switch j' := by
  simp [forward, Function.update_apply]

theorem forward_queue_of_ne {j' : Fin n} (hj : j'.val ≠ j.val + 1) :
    (c.forward s j h).queue j' = s.queue j' := by
  simp [forward, hj]

/-- A passed packet joins the queue of the next switch. -/
theorem forward_queue_next {j' : Fin n} (hj : j'.val = j.val + 1)
    (hp : c.Passes (beforeRoute (c.tables j) (s.switch j) h).hdr (j + 1) k q v) :
    ∃ g : Headers, g.query = (beforeRoute (c.tables j) (s.switch j) h).hdr.query ∧
      (c.forward s j h).queue j' = s.queue j' ++ [g] := by
  have hq := ingress_query (c.tables j) (s.switch j) h
  have hd : (ingress (c.tables j) (s.switch j) h).hdr.ipv4.dstAddr = c.ip j' := by
    calc (ingress (c.tables j) (s.switch j) h).hdr.ipv4.dstAddr
        = (beforeRoute (c.tables j) (s.switch j) h).hdr.ipv4.dstAddr := congrArg Query.dstAddr hq
      _ = (c.overlayFrom j').headD 0#32 := hj ▸ hp.bound.2
      _ = c.ip j' := by
        rw [c.overlayFrom_eq_cons j']
        rfl
  refine ⟨egress (c.tables j) (ingress (c.tables j) (s.switch j) h), ?_, ?_⟩
  · rw [egress_query, hq]
  · simp [forward, hj, hd]

/-- A switch stores a write with a larger number and passes it on: what is queued
in front of the next switch then leads to the new contents. -/
theorem settles_relay (hk : c.index h.ncHdr.key = some i)
    (hregs : (ingress (c.tables j) (s.switch j) h).regs = (s.switch j).store i q v)
    (hlt : (s.switch j).seq i < q)
    (hpass : j.val + 1 < n → (beforeRoute (c.tables j) (s.switch j) h).hdr.IsWrite ∧
      c.Passes (beforeRoute (c.tables j) (s.switch j) h).hdr (j + 1) h.ncHdr.key q v)
    (hqueued : ∀ j', ∀ g ∈ s.queue j', c.Queued j' g)
    (hin : ∀ j₀ : Fin n, j.val = j₀.val + 1 → ∀ i',
      c.Feeds i' (((s.switch j).store i q v).seq i') (((s.switch j).store i q v).value i')
        (s.queue j) ((s.switch j₀).seq i') ((s.switch j₀).value i'))
    (hrest : ∀ j₁ j₂ : Fin n, j₂.val = j₁.val + 1 → j₂ ≠ j → ∀ i',
      c.Feeds i' ((s.switch j₂).seq i') ((s.switch j₂).value i') (s.queue j₂)
        ((s.switch j₁).seq i') ((s.switch j₁).value i')) :
    c.Settles (c.forward s j h) := by
  have hi := c.index_lt hk
  constructor
  · intro j' g hg
    by_cases hj : j'.val = j.val + 1
    · obtain ⟨hw, hp⟩ := hpass (hj ▸ j'.isLt)
      obtain ⟨g', hq, hqueue⟩ := forward_queue_next hj hp
      rw [hqueue, List.mem_append, List.mem_singleton] at hg
      rcases hg with hg | rfl
      · exact hqueued j' g hg
      · refine ⟨?_, isWrite_of_query hq.symm hw, ?_, i, ?_⟩
        · intro h0
          rw [h0] at hj
          simp [head] at hj
        · rw [hj]
          exact (hp.congr hq).bound
        · rw [(hp.congr hq).key, hk]
    · rw [forward_queue_of_ne hj] at hg
      exact hqueued j' g hg
  · intro j₁ j₂ hj i'
    by_cases h2 : j₂ = j
    · subst h2
      have h1 : j₁ ≠ j₂ := by
        intro he
        rw [he] at hj
        omega
      rw [forward_switch, if_pos rfl, forward_switch, if_neg h1, forward_queue_of_ne (by omega),
        hregs]
      exact hin j₁ hj i'
    · rw [forward_switch j₂, if_neg h2]
      by_cases h1 : j₁ = j
      · subst h1
        obtain ⟨hw, hp⟩ := hpass (hj ▸ j₂.isLt)
        obtain ⟨g, hq, hqueue⟩ := forward_queue_next hj hp
        obtain ⟨hkey, hseq, hvalue, -⟩ := hp.congr hq
        have hold := hrest j₁ j₂ hj h2 i'
        rw [hqueue, forward_switch, if_pos rfl, hregs]
        by_cases he : i = i'
        · subst he
          rw [Switch.store_seq_self hi, Switch.store_value_self hi, ← hseq, ← hvalue]
          exact hold.append (hkey ▸ hk) (hseq ▸ hlt)
        · rw [Switch.store_seq_of_ne he, Switch.store_value_of_ne he]
          apply hold.append_of_ne
          rw [hkey, hk]
          exact fun h' => he (Option.some.inj h')
      · rw [forward_switch j₁, if_neg h1, forward_queue_of_ne ?_]
        · exact hrest j₁ j₂ hj h2 i'
        · intro he
          exact h1 (Fin.ext (by omega))

theorem Settles.write (hs : c.Settles s) (hh : c.IsClientWrite h)
    (hno : c.NoWrap s (.write h)) : c.Settles (c.forward s c.head h) := by
  by_cases hserves : (c.tables c.head).Serves h
  · obtain ⟨i, hk⟩ := hh.2.2.index_isSome hserves
    have hmax := hno i hk
    rcases beforeRoute_write (s.switch c.head) hserves hh.1.2 hk hh.2.2 with
      ⟨-, hregs, hp⟩ | ⟨hj, -⟩ | ⟨hj, -⟩
    · refine settles_relay hk ((ingress_regs _ _ _).trans hregs) (by bv_omega) ?_ hs.queued ?_ ?_
      · exact fun hlt => ⟨beforeRoute_isWrite_of_ne_tail _ hserves hh.1.2 hk (ne_tail_of_lt hlt), hp⟩
      · intro j₀ hj
        simp [head] at hj
      · exact fun j₁ j₂ hj _ => hs.feeds j₁ j₂ hj
    · exact absurd rfl hj
    · exact absurd rfl hj
  · have hregs := ingress_regs_eq (fun hy => hserves hy.1) (s.switch c.head)
    have hsw : (c.forward s c.head h).switch = s.switch := by
      funext j'
      rw [forward_switch, hregs]
      split_ifs with he
      · rw [he]
      · rfl
    have hqu : (c.forward s c.head h).queue = s.queue := by
      funext j'
      by_cases hj : j'.val = c.head.val + 1
      · have hd : (ingress (c.tables c.head) (s.switch c.head) h).hdr.ipv4.dstAddr = c.ip c.head := by
          have hq := ingress_query (c.tables c.head) (s.switch c.head) h
          rw [beforeRoute_tables_not_serves hserves] at hq
          calc (ingress (c.tables c.head) (s.switch c.head) h).hdr.ipv4.dstAddr
              = h.ipv4.dstAddr := congrArg Query.dstAddr hq
            _ = (c.overlayFrom c.head).headD 0#32 := hh.2.2.2
            _ = c.ip c.head := by
              rw [c.overlayFrom_eq_cons c.head]
              rfl
        have hne : c.ip c.head ≠ c.ip j' := by
          intro he
          have := congrArg Fin.val (c.ip_injective he)
          omega
        simp [forward, hd, hne]
      · exact forward_queue_of_ne hj
    exact ⟨by rw [hqu]; exact hs.queued, by rw [hsw, hqu]; exact hs.feeds⟩

theorem Settles.deliver (hs : c.Settles s) (hq : s.queue j = h :: l) :
    c.Settles (c.forward { s with queue := Function.update s.queue j l } j h) := by
  have hh := hs.queued j h (hq ▸ List.mem_cons_self)
  obtain ⟨hj, hw, hb, i, hk⟩ := hh
  have hserves := Queued.serves ⟨hj, hw, hb, i, hk⟩
  have hj0 : j.val ≠ 0 := fun h0 => hj (Fin.ext h0)
  have hfeeds (j₀ : Fin n) (hj' : j.val = j₀.val + 1) (i' : BitVec 16) :
      c.Feeds i' ((s.switch j).seq i') ((s.switch j).value i') (h :: l) ((s.switch j₀).seq i')
        ((s.switch j₀).value i') := hq ▸ hs.feeds j₀ j hj' i'
  have hnew : (s.switch j).seq i < h.ncHdr.seq := by
    have hf := hfeeds ⟨j.val - 1, by omega⟩ (by simp only; omega) i
    rw [Feeds, if_pos hk] at hf
    exact hf.1
  have hi := c.index_lt hk
  rcases beforeRoute_write (s.switch j) hserves hw.2 hk hb with
    ⟨h0, -⟩ | ⟨-, hlt, hregs, hp⟩ | ⟨-, hle, -⟩
  · exact absurd h0 hj
  · refine settles_relay hk ((ingress_regs _ _ _).trans hregs) hlt ?_ ?_ ?_ ?_
    · intro hlt'
      have hwr := beforeRoute_isWrite_of_ne_tail (s.switch j) hserves hw.2 hk (ne_tail_of_lt hlt')
      exact ⟨hwr, hp hwr⟩
    · intro j' g hg
      dsimp only at hg
      by_cases he : j' = j
      · subst he
        rw [Function.update_self] at hg
        exact hs.queued j' g (hq ▸ List.mem_cons_of_mem _ hg)
      · rw [Function.update_of_ne he] at hg
        exact hs.queued j' g hg
    · intro j₀ hj' i'
      have hf := hfeeds j₀ hj' i'
      rw [Feeds] at hf
      dsimp only
      rw [Function.update_self]
      by_cases he : i = i'
      · subst he
        rw [if_pos hk] at hf
        rw [Switch.store_seq_self hi, Switch.store_value_self hi]
        exact hf.2
      · rw [if_neg (by rw [hk]; exact fun h' => he (Option.some.inj h'))] at hf
        rw [Switch.store_seq_of_ne he, Switch.store_value_of_ne he]
        exact hf
    · intro j₁ j₂ hj' hne i'
      dsimp only
      rw [Function.update_of_ne hne]
      exact hs.feeds j₁ j₂ hj' i'
  · exact absurd hle (BitVec.not_le.mpr hnew)

theorem settles_reachable (hs : (c.line.restrict c.NoWrap).Reachable s) : c.Settles s := by
  apply hs.invariant
  · rintro s ⟨hsw, hq⟩
    constructor
    · intro j h hh
      rw [hq] at hh
      simp at hh
    · intro j j' _ i
      rw [hq, hsw j, hsw j']
      exact ⟨rfl, rfl⟩
  · intro s a _ ih he
    cases a with
    | write h => exact ih.write he.1 he.2
    | deliver j =>
      cases hq : s.queue j with
      | nil => exact absurd hq he.1
      | cons h l =>
        simp only [System.restrict, line, hq]
        exact ih.deliver hq
    | other j h =>
      have hregs := ingress_regs_eq (t := c.tables j) (fun hy => he.1 ⟨hy.1.1, hy.2⟩) (s.switch j)
      simp only [System.restrict, line, hregs, Function.update_eq_self]
      exact ih

end Step

/-- When no packet is in flight every switch stores what the head stores, as long
as no write reached the head while the counter of its key was at its maximum. -/
theorem chain_converges (c : Chain n) {s : Line n}
    (hs : (c.line.restrict c.NoWrap).Reachable s) (hq : ∀ j, s.queue j = []) (j : Fin n)
    (i : BitVec 16) :
    (s.switch j).seq i = (s.switch c.head).seq i ∧
      (s.switch j).value i = (s.switch c.head).value i := by
  have hsettles := settles_reachable hs
  obtain ⟨m, hm⟩ := j
  induction m with
  | zero => exact ⟨rfl, rfl⟩
  | succ m ih =>
    obtain ⟨ihs, ihv⟩ := ih (by omega)
    have hf := hsettles.feeds ⟨m, by omega⟩ ⟨m + 1, hm⟩ rfl i
    rw [hq] at hf
    exact ⟨hf.1.trans ihs, hf.2.trans ihv⟩

end Chain

open Chain

theorem pairRequest_isClientWrite : pair.IsClientWrite pairRequest := ⟨by decide, rfl, rfl, rfl⟩

theorem pair_index : pair.index 2018#128 = some 0#16 := by decide

def pairStart : Line 2 := ⟨fun _ => ⟨.fill regSize 0#16, .fill regSize 7#128⟩, fun _ => []⟩

/-- After one write through `pair` both switches hold it. -/
theorem chain_converges_pair :
    ∃ s, (pair.line.restrict pair.NoWrap).Reachable s ∧ (∀ j, s.queue j = []) ∧
      (s.switch 0).seq 0#16 = 1#16 ∧ (s.switch 1).seq 0#16 = (s.switch 0).seq 0#16 ∧
      (s.switch 1).value 0#16 = (s.switch 0).value 0#16 := by
  have hallowed : (pair.line.restrict pair.NoWrap).Allowed pairStart
      [.write pairRequest, .deliver 1] := by
    refine ⟨⟨pairRequest_isClientWrite, fun i hi => ?_⟩, ⟨?_, trivial⟩, trivial⟩
    · obtain rfl := Option.some.inj (pair_index.symm.trans hi)
      decide
    · change _ ≠ []
      decide
  have hinit : (pair.line.restrict pair.NoWrap).init pairStart := ⟨fun _ => rfl, fun _ => rfl⟩
  have hs := System.Reachable.run (.init hinit) hallowed
  have hq : ∀ j, ((pair.line.restrict pair.NoWrap).run pairStart
      [.write pairRequest, .deliver 1]).queue j = [] := by decide
  exact ⟨_, hs, hq, by decide, chain_converges pair hs hq 1 0#16⟩

/-- No packet in flight, and the two counters of key 2018 at the given numbers. -/
def PairAt (s : Line 2) (q q' : BitVec 16) : Prop :=
  (∀ j, s.queue j = []) ∧ (s.switch 0).seq 0#16 = q ∧ (s.switch 1).seq 0#16 = q'

/-- One write through the head and on to the second switch. -/
theorem pair_round {s : Line 2} {q q' : BitVec 16} (hs : pair.line.Reachable s)
    (hq : PairAt s q q') :
    ∃ t, pair.line.Reachable t ∧ PairAt t (q + 1#16) (if q' < q + 1#16 then q + 1#16 else q') := by
  obtain ⟨hempty, rfl, rfl⟩ := hq
  have hserves : (pair.tables 0).Serves pairRequest := ⟨rfl, by decide⟩
  have hout := beforeRoute_write (s.switch 0) hserves rfl pair_index pairRequest_isClientWrite.2.2
  have hwrite := beforeRoute_isWrite_of_ne_tail (s.switch 0) hserves rfl pair_index (by decide)
  rcases hout with ⟨-, hregs, hp⟩ | ⟨hj, -⟩ | ⟨hj, -⟩
  · obtain ⟨g, hgq, hqueue⟩ :=
      forward_queue_next (show (1 : Fin 2).val = (0 : Fin 2).val + 1 from rfl) hp
    set s₁ := pair.forward s 0 pairRequest with hs₁
    have hr₁ : pair.line.Reachable s₁ :=
      hs.step (show pair.line.enabled s (.write pairRequest) from pairRequest_isClientWrite)
    have hq₁ : s₁.queue 1 = [g] := by
      rw [hqueue, hempty]
      rfl
    have hq₀ : s₁.queue 0 = [] := by
      rw [forward_queue_of_ne (by decide), hempty]
    have hsw₀ : s₁.switch 0 = (s.switch 0).store 0#16 ((s.switch 0).seq 0#16 + 1#16) 222#128 := by
      rw [forward_switch, if_pos rfl, ingress_regs]
      exact hregs
    have hsw₁ : s₁.switch 1 = s.switch 1 := by
      rw [forward_switch, if_neg (by decide)]
    obtain ⟨hgk, hseq, -, hbound⟩ := hp.congr hgq
    have hkey : pair.index g.ncHdr.key = some 0#16 := by
      rw [hgk]
      exact pair_index
    have hg : pair.Queued 1 g :=
      ⟨by decide, isWrite_of_query hgq.symm hwrite, hbound, _, hkey⟩
    set t := pair.forward { s₁ with queue := Function.update s₁.queue 1 [] } 1 g with ht
    have hrt : pair.line.Reachable t := by
      have hstep := hr₁.step (a := .deliver 1) (by simp [line, hq₁])
      simpa only [line, hq₁] using hstep
    have hqt (j : Fin 2) : t.queue j = [] := by
      rw [forward_queue_of_ne (by have := j.isLt; simp only [Fin.val_one]; omega)]
      fin_cases j
      · simpa using hq₀
      · simp
    have hst₀ : (t.switch 0).seq 0#16 = (s.switch 0).seq 0#16 + 1#16 := by
      rw [forward_switch, if_neg (by decide), hsw₀]
      exact Switch.store_seq_self (by decide)
    refine ⟨t, hrt, hqt, hst₀, ?_⟩
    rw [forward_switch, if_pos rfl, ingress_regs]
    dsimp only
    rw [hsw₁, ← hseq]
    rcases beforeRoute_write (s.switch 1) hg.serves hg.2.1.2 hkey hg.2.2.1 with
      ⟨hj, -⟩ | ⟨-, hlt, hregs', -⟩ | ⟨-, hle, hregs', -⟩
    · exact absurd hj (by decide)
    · rw [hregs', if_pos hlt]
      exact Switch.store_seq_self (by decide)
    · rw [hregs', if_neg (BitVec.not_lt.mpr hle)]
  · exact absurd rfl hj
  · exact absurd rfl hj

theorem pair_rounds (m : ℕ) (hm : m < 2 ^ 16) :
    ∃ s, pair.line.Reachable s ∧ PairAt s (BitVec.ofNat 16 m) (BitVec.ofNat 16 m) := by
  induction m with
  | zero =>
    exact ⟨pairStart, .init ⟨fun _ => rfl, fun _ => rfl⟩, fun _ => rfl, rfl, rfl⟩
  | succ m ih =>
    obtain ⟨s, hs, hat⟩ := ih (by omega)
    obtain ⟨t, ht, hat'⟩ := pair_round hs hat
    have hsucc : BitVec.ofNat 16 m + 1#16 = BitVec.ofNat 16 (m + 1) := by bv_omega
    rw [if_pos (by bv_omega), hsucc] at hat'
    exact ⟨t, ht, hat'⟩

/-- The 65536th write wraps the head's counter and the second switch refuses it. -/
theorem pair_diverges :
    ∃ s, pair.line.Reachable s ∧ (∀ j, s.queue j = []) ∧
      (s.switch 0).seq 0#16 = 0#16 ∧ (s.switch 1).seq 0#16 = 65535#16 := by
  obtain ⟨s, hs, hat⟩ := pair_rounds 65535 (by decide)
  obtain ⟨t, ht, hq, h0, h1⟩ := pair_round hs hat
  exact ⟨t, ht, hq, h0, h1⟩

end P4Survey.NetChain
