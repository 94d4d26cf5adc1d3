import P4Survey.Ndp.TcpSource

/-! # The laws of a TCP source

What the window of `TcpSrc` keeps to over whole runs: it is at least a packet, only what it
allows is sent, and nothing is acknowledged that was not sent. This is so as long as the
window stays below 2 GiB.
-/

namespace P4Survey.Ndp

open Lib

namespace TcpSrc

variable {F : TcpFlow} {s s' : TcpSrc}

/-! ## What a step keeps -/

/-- Before the handshake nothing but the SYN was sent. -/
structure Inv (F : TcpFlow) (s : TcpSrc) : Prop where
  cwnd : F.mss ≤ s.cwnd
  cwnd_lt : s.cwnd < 2 ^ 32
  ssthresh : 2 * F.mss ≤ s.ssthresh
  ssthresh_lt : s.ssthresh < 2 ^ 32
  recovery : s.inFastRecovery = true → s.ssthresh < 2 ^ 31
  lastAcked : s.lastAcked ≤ s.highestSent
  highestSent : s.highestSent ≤ s.top
  handshake : s.established = false → s.highestSent = 1 ∧ s.top = 1

/-- The part of the laws that is about the last call of `send_packets`. -/
def BurstFits (F : TcpFlow) (s : TcpSrc) : Prop :=
  ∀ seqno ∈ s.burst, seqno + F.mss ≤ max s.oldHighest (s.lastAcked + s.cwnd) + 1

theorem Inv.laws (h : Inv F s) (hburst : BurstFits F s) : Laws F s :=
  ⟨h.cwnd, h.ssthresh, h.lastAcked, hburst⟩

/-- A call of `send_packets` with a window below `2 ^ 31`. -/
theorem Inv.sendPackets (h : Inv F s) (hc : s.cwnd < 2 ^ 31) :
    Inv F (s.sendPackets F) ∧ BurstFits F (s.sendPackets F) := by
  rw [TcpSrc.sendPackets]
  by_cases hest : s.established = true
  · rw [if_pos hest]
    obtain ⟨hle, -, hburst⟩ := sendLoop_le (F := F) (s.sendLimit F) s.highestSent
    have hlimit := sendLimit_le (F := F) hc
    constructor
    · refine ⟨h.cwnd, h.cwnd_lt, h.ssthresh, h.ssthresh_lt, h.recovery, h.lastAcked.trans hle,
        le_max_right _ _, fun hfalse => ?_⟩
      exact absurd hest (by simp [show s.established = false from hfalse])
    · intro seqno hseqno
      have hle' := hburst seqno hseqno
      have hmax := le_max_right s.highestSent (s.lastAcked + s.cwnd)
      change seqno + F.mss ≤ max s.highestSent (s.lastAcked + s.cwnd) + 1
      omega
  · rw [if_neg hest]
    obtain ⟨hone, htop⟩ := h.handshake (Bool.not_eq_true _ ▸ hest)
    constructor
    · refine ⟨h.cwnd, h.cwnd_lt, h.ssthresh, h.ssthresh_lt, h.recovery,
        h.lastAcked.trans_eq hone, le_max_right _ _, ?_⟩
      intro _
      exact ⟨rfl, by rw [htop]; rfl⟩
    · intro seqno hseqno
      obtain rfl := List.mem_singleton.mp hseqno
      have hmax := le_max_right s.highestSent (s.lastAcked + s.cwnd)
      have hcwnd := h.cwnd
      change 1 + F.mss ≤ max s.highestSent (s.lastAcked + s.cwnd) + 1
      omega

theorem inflateWindow_eq (h : Inv F s) (hfits : s.cwnd + F.mss < 2 ^ 31) (hrtt : 0 < s.rtt) :
    ∃ cwnd cum saw, s.inflateWindow F =
        some { s with cwnd := cwnd, rttCum := cum, sawtooth := saw } ∧
      s.cwnd ≤ cwnd ∧ cwnd ≤ s.cwnd + F.mss := by
  dsimp only [inflateWindow]
  have hnew := min_le_right (int32 (s.lastAcked + s.cwnd - s.highestSent)) (F.mss : ℤ)
  generalize min (int32 (s.lastAcked + s.cwnd - s.highestSent)) (F.mss : ℤ) = new at hnew ⊢
  have hnew' : new.toNat ≤ F.mss := Int.toNat_le.mpr hnew
  by_cases hneg : new < 0
  · rw [if_pos hneg]
    exact ⟨s.cwnd, s.rttCum, s.sawtooth, rfl, le_rfl, Nat.le_add_right _ _⟩
  · rw [if_neg hneg]
    by_cases hslow : s.cwnd < s.ssthresh
    · rw [if_pos hslow]
      have hmin := min_le_right (s.ssthresh - s.cwnd) new.toNat
      rw [Nat.mod_eq_of_lt (by omega)]
      exact ⟨_, s.rttCum, s.sawtooth, rfl, Nat.le_add_right _ _, by omega⟩
    · rw [if_neg hslow]
      exact additiveIncrease_eq h.cwnd hfits hrtt hnew'

theorem Inv.deflateWindow (h : Inv F s) : Inv F (s.deflateWindow F) := by
  have hlt := max_half_lt (F := F) h.cwnd_lt
  exact ⟨h.cwnd, h.cwnd_lt, le_max_right _ _, hlt.trans (by norm_num), fun _ => hlt, h.lastAcked,
    h.highestSent, h.handshake⟩

/-- What a step must lead to. -/
def Kept (F : TcpFlow) (s : TcpSrc) : Prop := Inv F s ∧ BurstFits F s

/-- Out of recovery an ACK opens the window. -/
theorem Inv.openAck (h : Inv F s) (hrtt : 0 < s.rtt) (hfits : s.cwnd + F.mss < 2 ^ 31) :
    ∃ s', ((s.inflateWindow F).map fun s => TcpSrc.sendPackets F
      { s with cwnd := capWindow s.cwnd }) = some s' ∧ Kept F s' := by
  obtain ⟨cwnd, cum, saw, heq, hlow, hhigh⟩ := inflateWindow_eq h hfits hrtt
  rw [heq, Option.map_some]
  dsimp only
  rw [capWindow_eq (show cwnd < 2 ^ 32 by omega)]
  refine ⟨_, rfl, sendPackets ⟨h.cwnd.trans hlow, ?_, h.ssthresh, h.ssthresh_lt, h.recovery,
    h.lastAcked, h.highestSent, h.handshake⟩ ?_⟩
  · change cwnd < 2 ^ 32
    omega
  · change cwnd < 2 ^ 31
    omega

/-- An ACK for all that was sent before the loss ends the recovery. -/
theorem Inv.fullAck (h : Inv F s) (hssthresh : s.ssthresh < 2 ^ 31)
    (hwrap : s.top + F.mss < 2 ^ 32) :
    Kept F (TcpSrc.sendPackets F
      { s with
        cwnd := min s.ssthresh (((s.highestSent - s.lastAcked) % 2 ^ 32 + F.mss) % 2 ^ 32)
        dupacks := 0
        inFastRecovery := false }) := by
  have hpos := F.mss_pos
  have hthresh := h.ssthresh
  have htop := h.highestSent
  rw [Nat.mod_eq_of_lt (a := s.highestSent - s.lastAcked) (by omega),
    Nat.mod_eq_of_lt (by omega)]
  have hmin := min_le_left s.ssthresh (s.highestSent - s.lastAcked + F.mss)
  refine sendPackets ⟨?_, ?_, hthresh, h.ssthresh_lt, nofun, h.lastAcked, htop, h.handshake⟩ ?_
  · exact le_min (by omega) (by omega)
  · exact hmin.trans_lt h.ssthresh_lt
  · exact hmin.trans_lt hssthresh

/-- Another ACK in recovery takes what it acknowledges out of the window, and sends the next
packet again. -/
theorem Inv.partialAck (h : Inv F s) (hest : s.established = true)
    (hfits : s.cwnd + F.mss < 2 ^ 31) (newData : ℕ) :
    ∃ s', (retransmitPacket F
        { s with
          cwnd := ((if newData < s.cwnd then s.cwnd - newData else 0) + F.mss) % 2 ^ 32 }).map
      (TcpSrc.sendPackets F) = some s' ∧ Kept F s' := by
  have hmss := Nat.le_add_left F.mss (if newData < s.cwnd then s.cwnd - newData else 0)
  have hless : (if newData < s.cwnd then s.cwnd - newData else 0) + F.mss ≤ s.cwnd + F.mss := by
    split_ifs <;> omega
  generalize (if newData < s.cwnd then s.cwnd - newData else 0) + F.mss = cwnd at hmss hless ⊢
  rw [Nat.mod_eq_of_lt (by omega)]
  have hopen (hfalse : s.established = false) : False := by
    rw [hest] at hfalse
    cases hfalse
  obtain ⟨top, heq, htop, -, -⟩ := retransmitPacket_eq (F := F) (s := { s with cwnd := cwnd })
    fun hfalse => (hopen hfalse).elim
  rw [heq, Option.map_some]
  refine ⟨_, rfl, sendPackets ⟨hmss, ?_, h.ssthresh, h.ssthresh_lt, h.recovery, h.lastAcked,
    h.highestSent.trans htop, fun hfalse => (hopen hfalse).elim⟩ ?_⟩
  · change cwnd < 2 ^ 32
    omega
  · change cwnd < 2 ^ 31
    omega

/-- What an ACK for new data acknowledges. -/
theorem Inv.acked (h : Inv F s) (hest : s.established = true) {seqno : ℕ}
    (hseqno : seqno ≤ s.top) :
    Inv F { s with
      highestSent := if s.highestSent ≤ seqno then seqno else s.highestSent
      lastAcked := seqno } := by
  refine ⟨h.cwnd, h.cwnd_lt, h.ssthresh, h.ssthresh_lt, h.recovery, ?_, ?_, fun hfalse => ?_⟩
  · change seqno ≤ if s.highestSent ≤ seqno then seqno else s.highestSent
    split_ifs <;> omega
  · change (if s.highestSent ≤ seqno then seqno else s.highestSent) ≤ s.top
    split_ifs
    · exact hseqno
    · exact h.highestSent
  · rw [show s.established = true from hest] at hfalse
    cases hfalse

/-- An ACK for new data, after the handshake. -/
theorem Inv.newAck (h : Inv F s) (hest : s.established = true) (hrtt : 0 < s.rtt)
    (hfits : s.cwnd + F.mss < 2 ^ 31) (hwrap : s.top + F.mss < 2 ^ 32) {seqno : ℕ}
    (hseqno : seqno ≤ s.top) : ∃ s', s.newAck F seqno = some s' ∧ Kept F s' := by
  have hacked := h.acked hest hseqno
  dsimp only [TcpSrc.newAck]
  by_cases hrecovery : s.inFastRecovery = false
  · rw [if_pos hrecovery]
    have hreset : Inv F { s with
        highestSent := if s.highestSent ≤ seqno then seqno else s.highestSent
        lastAcked := seqno
        dupacks := 0 } :=
      ⟨h.cwnd, h.cwnd_lt, h.ssthresh, h.ssthresh_lt, h.recovery, hacked.lastAcked,
        hacked.highestSent, hacked.handshake⟩
    exact hreset.openAck hrtt hfits
  · rw [if_neg hrecovery]
    by_cases hfull : s.recoverq ≤ seqno
    · rw [if_pos hfull]
      exact ⟨_, rfl, hacked.fullAck (h.recovery (Bool.not_eq_false _ ▸ hrecovery)) hwrap⟩
    · rw [if_neg hfull]
      exact hacked.partialAck hest hfits _

theorem Inv.beginRecovery (h : Inv F s) (hburst : s.burst = []) :
    ∃ s', s.beginRecovery F = some s' ∧ Kept F s' := by
  have hlt := F.mss_lt
  have hmax := max_half_lt (F := F) h.cwnd_lt
  have hd := h.deflateWindow
  obtain ⟨avg, hclose⟩ := closeSawtooth_eq (s.deflateWindow F)
  obtain ⟨top, hretr, htop, -, hsyn⟩ := retransmitPacket_eq (F := F)
    (s := { s.deflateWindow F with rttAvg := avg, sawtooth := 0, rttCum := 0 })
    fun hfalse => (hd.handshake hfalse).1
  rw [TcpSrc.beginRecovery, hclose, Option.bind_some, hretr, Option.map_some]
  dsimp only
  have hsmall : (s.deflateWindow F).ssthresh < 2 ^ 31 := hmax
  rw [Nat.mod_eq_of_lt (by omega)]
  refine ⟨_, rfl, ⟨?_, ?_, hd.ssthresh, hd.ssthresh_lt, fun _ => hmax, hd.lastAcked,
    hd.highestSent.trans htop, fun hfalse => ⟨(hd.handshake hfalse).1, ?_⟩⟩, ?_⟩
  · change F.mss ≤ (s.deflateWindow F).ssthresh + 3 * F.mss
    omega
  · change (s.deflateWindow F).ssthresh + 3 * F.mss < 2 ^ 32
    omega
  · exact (hsyn hfalse).trans (hd.handshake hfalse).2
  · intro seqno hseqno
    change seqno ∈ s.burst at hseqno
    rw [hburst] at hseqno
    cases hseqno

/-- An ACK that is not new. -/
theorem Inv.dupAck (h : Inv F s) (hburst : s.burst = []) (hfits : s.cwnd + F.mss < 2 ^ 31) :
    ∃ s', s.dupAck F = some s' ∧ Kept F s' := by
  have hcwnd := h.cwnd
  rw [TcpSrc.dupAck]
  by_cases hrecovery : s.inFastRecovery = true
  · rw [if_pos hrecovery, Nat.mod_eq_of_lt (by omega), capWindow_eq (by omega)]
    refine ⟨_, rfl, sendPackets ⟨?_, ?_, h.ssthresh, h.ssthresh_lt, h.recovery, h.lastAcked,
      h.highestSent, h.handshake⟩ hfits⟩
    · exact Nat.le_add_left _ _
    · exact hfits.trans (by norm_num)
  · rw [if_neg hrecovery]
    have hinv : Inv F { s with dupacks := (s.dupacks + 1) % 2 ^ 16 } :=
      ⟨h.cwnd, h.cwnd_lt, h.ssthresh, h.ssthresh_lt, h.recovery, h.lastAcked, h.highestSent,
        h.handshake⟩
    dsimp only
    split_ifs
    · exact ⟨_, rfl, hinv.sendPackets ((Nat.le_add_right _ _).trans_lt hfits)⟩
    · refine ⟨_, rfl, hinv, fun seqno hseqno => ?_⟩
      change seqno ∈ s.burst at hseqno
      rw [hburst] at hseqno
      cases hseqno
    · exact hinv.beginRecovery hburst

theorem Inv.receivePacket (h : Inv F s) (hburst : s.burst = []) {seqno m : ℕ}
    (htame : s.Tame F (.ack seqno m)) (hseqno : seqno ≤ s.top) (hwrap : s.top + F.mss < 2 ^ 32) :
    ∃ s', s.receivePacket F seqno m = some s' ∧ Kept F s' := by
  rw [TcpSrc.receivePacket]
  by_cases hold : seqno < s.lastAcked
  · rw [if_pos hold]
    refine ⟨s, rfl, h, fun seqno hseqno => ?_⟩
    rw [hburst] at hseqno
    cases hseqno
  · rw [if_neg hold]
    obtain ⟨hfits, hm⟩ := htame (not_lt.mp hold)
    obtain ⟨rtt, hsample, hrtt⟩ := sample_eq
      (s := { s with established := s.established || seqno = 1 }) hm
    have hinv : Inv F { s with established := s.established || seqno = 1, rtt := rtt } := by
      refine ⟨h.cwnd, h.cwnd_lt, h.ssthresh, h.ssthresh_lt, h.recovery, h.lastAcked,
        h.highestSent, fun hfalse => h.handshake ?_⟩
      exact (Bool.or_eq_false_iff.mp hfalse).1
    rw [hsample]
    dsimp only
    by_cases hnew : s.lastAcked < seqno
    · rw [if_pos hnew]
      refine hinv.newAck ?_ hrtt hfits hwrap hseqno
      -- before the handshake only the byte of the SYN can be acknowledged
      change (s.established || decide (seqno = 1)) = true
      by_contra hfalse
      obtain ⟨hest, hone⟩ := Bool.or_eq_false_iff.mp (Bool.not_eq_true _ ▸ hfalse)
      have htop := (h.handshake hest).2
      have hne := of_decide_eq_false hone
      omega
    · rw [if_neg hnew]
      exact hinv.dupAck hburst hfits

theorem Inv.timeout (h : Inv F s) (hburst : s.burst = []) :
    ∃ s', s.timeout F = some s' ∧ Kept F s' := by
  have hmss := F.mss_lt
  obtain ⟨cwnd, hlt, hleave⟩ : ∃ cwnd < 2 ^ 32, s.leaveRecovery F = { s with cwnd := cwnd } := by
    rw [leaveRecovery]
    split_ifs
    · exact ⟨_, (min_le_left _ _).trans_lt h.ssthresh_lt, rfl⟩
    · exact ⟨s.cwnd, h.cwnd_lt, rfl⟩
  have hmax := max_half_lt (F := F) hlt
  obtain ⟨r, hr⟩ : ∃ r, (TcpSrc.deflateWindow F { s with cwnd := cwnd }).restart F = r := ⟨_, rfl⟩
  have hsent : r.highestSent = if s.established then s.lastAcked + F.mss else s.highestSent := by
    rw [← hr]
    rfl
  have hest : r.established = s.established := by
    rw [← hr]
    rfl
  obtain ⟨top, hretr, htop, hnext, hsyn⟩ := retransmitPacket_eq (F := F) (s := r) fun hfalse => by
    rw [hest] at hfalse
    simp [hsent, hfalse, (h.handshake hfalse).1]
  obtain ⟨avg, hclose⟩ := closeSawtooth_eq { r with top := top }
  rw [TcpSrc.timeout, hleave, hr, hretr, Option.bind_some, hclose]
  subst hr
  refine ⟨_, rfl, ⟨le_rfl, ?_, le_max_right _ _, hmax.trans (by norm_num), nofun, ?_, ?_, ?_⟩, ?_⟩
  · exact hmss.trans (by norm_num)
  · dsimp only
    rw [hsent]
    split_ifs
    · exact Nat.le_add_right _ _
    · exact h.lastAcked
  · dsimp only
    rw [hsent]
    split_ifs with hopen
    · exact hnext hopen
    · exact h.highestSent.trans htop
  · intro hfalse
    obtain ⟨hone, htop'⟩ := h.handshake hfalse
    refine ⟨?_, (hsyn hfalse).trans htop'⟩
    dsimp only
    rw [hsent, if_neg (by rw [show s.established = false from hfalse]; exact Bool.false_ne_true), hone]
  · intro seqno hseqno
    change seqno ∈ s.burst at hseqno
    rw [hburst] at hseqno
    cases hseqno

theorem Inv.step (h : Inv F s) {a : Event} (ha : (system F).enabled (some s) a)
    (htame : s.Tame F a) : ∃ s', s.step F a = some s' ∧ Kept F s' := by
  have hinv : Inv F { s with burst := [] } :=
    ⟨h.cwnd, h.cwnd_lt, h.ssthresh, h.ssthresh_lt, h.recovery, h.lastAcked, h.highestSent,
      h.handshake⟩
  cases a with
  | ack seqno m => exact hinv.receivePacket rfl htame ha.1 ha.2
  | timeout => exact hinv.timeout rfl

theorem startflow_kept (F : TcpFlow) : Kept F (startflow F) := by
  have hlt := F.mss_lt
  refine ⟨⟨?_, ?_, ?_, ?_, nofun, Nat.zero_le 1, le_rfl, fun _ => ⟨rfl, rfl⟩⟩, ?_⟩
  · change F.mss ≤ 10 * F.mss
    omega
  · change 10 * F.mss < 2 ^ 32
    omega
  · change 2 * F.mss ≤ 2 ^ 32 - 1
    omega
  · change 2 ^ 32 - 1 < 2 ^ 32
    norm_num
  · intro seqno hseqno
    obtain rfl := List.mem_singleton.mp hseqno
    change 1 + F.mss ≤ max 0 (0 + 10 * F.mss) + 1
    omega

/-- In each state of a run of ACKs and timeouts the window laws hold, and nothing was divided
by zero, if every ACK that is not old comes while the window is below `2 ^ 31` by more than a
packet. -/
theorem laws_of_tame (F : TcpFlow) (l : List Event)
    (hl : ((system F).restrict fun s a => ∀ t ∈ s, t.Tame F a).Allowed (some (startflow F)) l) :
    ∃ s, (system F).run (some (startflow F)) l = some s ∧ s.Laws F := by
  have hrun := hl.history (R := fun _ s => ∃ t, s = some t ∧ Kept F t) ?_
    ⟨_, rfl, startflow_kept F⟩
  · rw [System.run_restrict] at hrun
    obtain ⟨s, heq, hinv, hburst⟩ := hrun
    exact ⟨s, heq, hinv.laws hburst⟩
  · rintro l s a ⟨t, rfl, hinv, -⟩ ⟨ha, htame⟩
    exact hinv.step ha (htame t rfl)

/-- A flow of 4 GiB less a few packets. -/
def longFlow : TcpFlow := ⟨1500, 4294953000, -1, by norm_num, by norm_num⟩

theorem laws_of_tame_start :
    ∃ s, (system longFlow).run (some (startflow longFlow)) [.timeout, .ack 1 100000000] = some s ∧
      s.Laws longFlow :=
  laws_of_tame longFlow _ (by decide +kernel)

/-! ## A window of 2 GiB -/

/-- The loop sends `n` packets if exactly `n` fit. -/
theorem sendLoop_count (limit n hs : ℕ) (hlimit : hs + n * F.mss ≤ limit)
    (hflow : hs + n * F.mss ≤ F.flowSize + 1)
    (hstop : ¬(hs + n * F.mss + F.mss ≤ limit ∧ hs + n * F.mss + F.mss ≤ F.flowSize + 1)) :
    (sendLoop F limit hs).2 = hs + n * F.mss ∧
      ∀ i < n, hs + i * F.mss + 1 ∈ (sendLoop F limit hs).1 := by
  induction n generalizing hs with
  | zero =>
    rw [Nat.zero_mul, Nat.add_zero] at hstop ⊢
    rw [sendLoop_stop hstop]
    exact ⟨rfl, fun i hi => absurd hi i.not_lt_zero⟩
  | succ n ih =>
    have hsplit (i : ℕ) : hs + (i + 1) * F.mss = hs + F.mss + i * F.mss := by ring
    rw [hsplit] at hlimit hflow hstop ⊢
    rw [sendLoop_next ⟨by omega, by omega⟩]
    obtain ⟨hlast, hmem⟩ := ih _ hlimit hflow hstop
    refine ⟨hlast, fun i hi => ?_⟩
    cases i with
    | zero =>
      rw [Nat.zero_mul, Nat.add_zero]
      exact List.mem_cons_self
    | succ i =>
      rw [hsplit]
      exact List.mem_cons_of_mem _ (hmem i (Nat.lt_of_succ_lt_succ hi))

/-- The state before `send_packets` when an ACK opens a slow start window by a packet. -/
structure Opened (seqno cwnd hs top : ℕ) (t : TcpSrc) : Prop where
  established : t.established = true
  inFastRecovery : t.inFastRecovery = false
  lastAcked : t.lastAcked = seqno
  cwnd : t.cwnd = cwnd
  ssthresh : t.ssthresh = 2 ^ 32 - 1
  highestSent : t.highestSent = hs
  top : t.top = top

/-- In slow start, with a packet's worth of the window not yet sent, an ACK opens the window by a
packet. -/
theorem inflateWindow_slowStart (hssthresh : s.ssthresh = 2 ^ 32 - 1)
    (hroom : s.cwnd + F.mss < 2 ^ 32) (hlow : s.highestSent + F.mss ≤ s.lastAcked + s.cwnd)
    (hhigh : s.lastAcked + s.cwnd < s.highestSent + 2 ^ 31) :
    inflateWindow F s = some { s with cwnd := s.cwnd + F.mss } := by
  have hpos := F.mss_pos
  have hacked : min (int32 (s.lastAcked + s.cwnd - (s.highestSent : ℕ))) (F.mss : ℤ) = F.mss := by
    rw [int32_of_fits (by omega) (by omega)]
    exact min_eq_right (by omega)
  have hslow : s.cwnd < s.ssthresh := by omega
  have hshare : min (s.ssthresh - s.cwnd) F.mss = F.mss := min_eq_right (by omega)
  dsimp only [inflateWindow]
  rw [hacked, if_neg (by omega), if_pos hslow, Int.toNat_natCast, hshare, Nat.mod_eq_of_lt hroom]

theorem slowStart_ack (seqno m : ℕ) (hest : s.established = true ∨ seqno = 1)
    (hfr : s.inFastRecovery = false) (hssthresh : s.ssthresh = 2 ^ 32 - 1)
    (hnew : s.lastAcked < seqno) (hroom : s.cwnd + F.mss < 2 ^ 32)
    (hlow : max s.highestSent seqno + F.mss ≤ seqno + s.cwnd)
    (hhigh : seqno + s.cwnd < max s.highestSent seqno + 2 ^ 31) :
    ∃ t, s.step F (.ack seqno m) = some (t.sendPackets F) ∧
      Opened seqno (s.cwnd + F.mss) (max s.highestSent seqno) s.top t := by
  obtain ⟨rtt, hsample⟩ : ∃ rtt, sample
      { s with burst := [], established := s.established || decide (seqno = 1) } m =
        { s with burst := [], established := s.established || decide (seqno = 1), rtt := rtt } := by
    rw [sample]
    split_ifs <;> exact ⟨_, rfl⟩
  have hmax : (if s.highestSent ≤ seqno then seqno else s.highestSent) = max s.highestSent seqno :=
    (max_def s.highestSent seqno).symm
  have hopen : (s.established || decide (seqno = 1)) = true := by
    rcases hest with hest | hone
    · rw [hest, Bool.true_or]
    · rw [decide_eq_true hone, Bool.or_true]
  have hinflate := inflateWindow_slowStart (F := F) (s := { s with
    burst := [], established := s.established || decide (seqno = 1), rtt := rtt
    highestSent := max s.highestSent seqno, lastAcked := seqno, dupacks := 0 })
    hssthresh hroom hlow hhigh
  refine ⟨{ s with
    burst := [], established := s.established || decide (seqno = 1), rtt := rtt
    highestSent := max s.highestSent seqno, lastAcked := seqno, dupacks := 0
    cwnd := s.cwnd + F.mss }, ?_, ⟨hopen, hfr, rfl, rfl, hssthresh, rfl, rfl⟩⟩
  rw [step, receivePacket]
  dsimp only
  rw [if_neg (not_lt.mpr hnew.le), hsample]
  dsimp only
  rw [if_pos hnew, newAck]
  dsimp only
  rw [if_pos hfr, hmax, hinflate, Option.map_some]
  dsimp only
  rw [capWindow_eq hroom]

/-- Without a limit of the application, `_last_acked + c` for a window that is an `int` and for
one that is not. -/
theorem sendLimit_int (happ : F.appLimited < 0) (hc : s.cwnd < 2 ^ 31)
    (hack : s.lastAcked < 2 ^ 32) : s.sendLimit F = s.lastAcked + s.cwnd := by
  have hcast : int32 s.cwnd = s.cwnd := int32_of_fits (by omega) (by omega)
  rw [sendLimit, sendWindow]
  dsimp only
  rw [if_neg (by omega), hcast]
  omega

theorem sendLimit_negative (happ : F.appLimited < 0) (hc : 2 ^ 31 ≤ s.cwnd)
    (hwrap : s.lastAcked + s.cwnd < 2 ^ 32) :
    s.sendLimit F = 2 ^ 64 + (s.lastAcked + s.cwnd) - 2 ^ 32 := by
  have hcast : int32 s.cwnd = s.cwnd - 2 ^ 32 := by
    rw [int32, Int.bmod_def]
    push_cast
    split_ifs <;> omega
  rw [sendLimit, sendWindow]
  dsimp only
  rw [if_neg (by omega), hcast]
  omega

/-- What `send_packets` makes of it. -/
theorem Opened.send {seqno cwnd hs top : ℕ} (h : Opened seqno cwnd hs top s) :
    Opened seqno cwnd (sendLoop F (s.sendLimit F) hs).2
        (max top (sendLoop F (s.sendLimit F) hs).2) (s.sendPackets F) ∧
      (s.sendPackets F).burst = (sendLoop F (s.sendLimit F) hs).1 ∧
      (s.sendPackets F).oldHighest = hs := by
  rw [sendPackets, if_pos h.established, h.highestSent]
  refine ⟨⟨h.established, h.inFastRecovery, h.lastAcked, h.cwnd, h.ssthresh, rfl, ?_⟩, rfl, rfl⟩
  change max s.top _ = _
  rw [h.top]

/-- The slow start of `longFlow` after `k` ACKs of a packet: all that the window allows is
sent. -/
def SlowStart (k : ℕ) (s : TcpSrc) : Prop :=
  Opened (1 + k * 1500) ((11 + k) * 1500) (1 + (11 + 2 * k) * 1500) (1 + (11 + 2 * k) * 1500) s

/-- A window that is an `int` is filled with `n` packets. -/
theorem Opened.fill {seqno cwnd hs top : ℕ} (h : Opened seqno cwnd hs top s) (n : ℕ)
    (hc : cwnd < 2 ^ 31) (hack : seqno < 2 ^ 32) (hn : hs + n * 1500 = seqno + cwnd)
    (htop : top ≤ hs) (hflow : hs + n * 1500 ≤ 4294953001) :
    Opened seqno cwnd (seqno + cwnd) (seqno + cwnd) (s.sendPackets longFlow) := by
  have hlimit := sendLimit_int (F := longFlow) (s := s) (by decide) (h.cwnd ▸ hc)
    (h.lastAcked ▸ hack)
  have hstop : ¬(hs + n * longFlow.mss + longFlow.mss ≤ seqno + cwnd ∧
      hs + n * longFlow.mss + longFlow.mss ≤ longFlow.flowSize + 1) := by
    change ¬(hs + n * 1500 + 1500 ≤ seqno + cwnd ∧ _)
    omega
  have hcount := (sendLoop_count (F := longFlow) _ n hs hn.le hflow hstop).1
  have hsend := (h.send (F := longFlow)).1
  rw [h.lastAcked, h.cwnd] at hlimit
  rw [hlimit, hcount, show hs + n * longFlow.mss = seqno + cwnd from hn,
    max_eq_right (by omega)] at hsend
  exact hsend

theorem slowStart_zero :
    ∃ s, (startflow longFlow).step longFlow (.ack 1 100000000) = some s ∧ SlowStart 0 s := by
  obtain ⟨t, ht, hopened⟩ := slowStart_ack (F := longFlow) (s := startflow longFlow) 1 100000000
    (.inr rfl) rfl rfl (by decide) (by decide) (by decide) (by decide)
  exact ⟨_, ht, hopened.fill 11 (by decide) (by decide) (by decide) (by decide) (by decide)⟩

theorem SlowStart.ack {k : ℕ} (h : SlowStart k s) (hk : k < 1431645) :
    ∃ t, s.step longFlow (.ack (1 + (k + 1) * 1500) 100000000) = some (t.sendPackets longFlow) ∧
      Opened (1 + (k + 1) * 1500) ((11 + (k + 1)) * 1500) (1 + (11 + 2 * k) * 1500)
        (1 + (11 + 2 * k) * 1500) t := by
  have hmax : max s.highestSent (1 + (k + 1) * 1500) = 1 + (11 + 2 * k) * 1500 := by
    rw [h.highestSent]
    exact max_eq_left (by omega)
  obtain ⟨t, ht, hopened⟩ := slowStart_ack (F := longFlow) (1 + (k + 1) * 1500) 100000000
    (.inl h.established) h.inFastRecovery h.ssthresh
    (by rw [h.lastAcked]; omega)
    (by rw [h.cwnd]; change _ + 1500 < _; omega)
    (by rw [hmax, h.cwnd]; change _ + 1500 ≤ _; omega)
    (by rw [hmax, h.cwnd]; omega)
  have hcwnd : (11 + k) * 1500 + longFlow.mss = (11 + (k + 1)) * 1500 := by
    change (11 + k) * 1500 + 1500 = _
    omega
  rw [hmax, h.cwnd, h.top, hcwnd] at hopened
  exact ⟨t, ht, hopened⟩

theorem SlowStart.succ {k : ℕ} (h : SlowStart k s) (hk : k < 1431644) :
    ∃ s', s.step longFlow (.ack (1 + (k + 1) * 1500) 100000000) = some s' ∧ SlowStart (k + 1) s' := by
  obtain ⟨t, ht, hopened⟩ := h.ack (by omega)
  refine ⟨_, ht, ?_⟩
  have hfill := hopened.fill 2 (by omega) (by omega) (by omega) le_rfl (by omega)
  have hsum : 1 + (k + 1) * 1500 + (11 + (k + 1)) * 1500 = 1 + (11 + 2 * (k + 1)) * 1500 := by omega
  rw [hsum] at hfill
  exact hfill

/-- The ACKs of `k` packets after that of the SYN. -/
def acks (k : ℕ) : List Event :=
  .ack 1 100000000 :: (List.range k).map fun i => .ack (1 + (i + 1) * 1500) 100000000

theorem acks_succ (k : ℕ) : acks (k + 1) = acks k ++ [.ack (1 + (k + 1) * 1500) 100000000] := by
  simp [acks, List.range_succ]

theorem slowStart_run {k : ℕ} (hk : k ≤ 1431644) :
    (system longFlow).Allowed (some (startflow longFlow)) (acks k) ∧
      ∃ s, (system longFlow).run (some (startflow longFlow)) (acks k) = some s ∧ SlowStart k s := by
  induction k with
  | zero => exact ⟨by decide +kernel, slowStart_zero⟩
  | succ k ih =>
    obtain ⟨hallowed, s, hs, hslow⟩ := ih (by omega)
    obtain ⟨s', hs', hslow'⟩ := hslow.succ (by omega)
    rw [acks_succ, System.allowed_append, System.run_append, hs]
    refine ⟨⟨hallowed, ⟨?_, ?_⟩, trivial⟩, s', hs', hslow'⟩
    · rw [hslow.top]
      omega
    · rw [hslow.top]
      change _ + 1500 < _
      omega

/-- With a window of `2 ^ 31` bytes `c` is negative, and so far below zero that `_last_acked + c`
wraps around: all of the flow that is left is sent, not only what the window allows. -/
theorem SlowStart.overrun (h : SlowStart 1431644 s) :
    ∃ t, s.step longFlow (.ack 2147467501 100000000) = some t ∧ t.lastAcked = 2147467501 ∧
      t.cwnd = 2147484000 ∧ t.oldHighest = 4294948501 ∧ t.highestSent = 4294953001 ∧
      t.top = 4294953001 ∧ 4294951502 ∈ t.burst := by
  obtain ⟨t, ht, hopened⟩ := h.ack (by norm_num)
  norm_num at ht hopened
  have hlimit := sendLimit_negative (F := longFlow) (s := t) (by decide)
    (by rw [hopened.cwnd]; norm_num) (by rw [hopened.lastAcked, hopened.cwnd]; norm_num)
  rw [hopened.lastAcked, hopened.cwnd] at hlimit
  norm_num at hlimit
  obtain ⟨hlast, hmem⟩ := sendLoop_count (F := longFlow) 18446744073709535821 3
    4294948501 (by decide) (by decide) (by decide)
  obtain ⟨hsend, hburst, hold⟩ := hopened.send (F := longFlow)
  rw [hlimit, hlast] at hsend
  refine ⟨_, ht, hsend.lastAcked, hsend.cwnd, hold, hsend.highestSent, hsend.top, ?_⟩
  rw [hburst, hlimit]
  exact hmem 2 (by norm_num)

/-- A slow start without a loss: all sequence numbers are below `2 ^ 32`, but at the end a
packet is sent that lies above the window. -/
theorem window_overrun :
    (system longFlow).Allowed (some (startflow longFlow)) (acks 1431645) ∧
      ∃ s, (system longFlow).run (some (startflow longFlow)) (acks 1431645) = some s ∧
        s.lastAcked + s.cwnd = 4294951501 ∧ s.oldHighest = 4294948501 ∧
        s.highestSent = 4294953001 ∧ s.top + longFlow.mss < 2 ^ 32 ∧ ¬ s.Laws longFlow := by
  obtain ⟨hallowed, s, hs, hslow⟩ := slowStart_run (le_refl 1431644)
  obtain ⟨t, ht, hack, hcwnd, hold, hhs, htop, hmem⟩ := hslow.overrun
  have hsplit : acks 1431645 = acks 1431644 ++ [.ack 2147467501 100000000] := acks_succ 1431644
  rw [hsplit, System.allowed_append, System.run_append, hs]
  refine ⟨⟨hallowed, ⟨?_, ?_⟩, trivial⟩, t, ht, ?_, hold, hhs, ?_, fun hlaws => ?_⟩
  · rw [hslow.top]
    norm_num
  · rw [hslow.top]
    change _ + 1500 < _
    norm_num
  · rw [hack, hcwnd]
  · rw [htop]
    change _ + 1500 < _
    norm_num
  · have hle := hlaws.burst _ hmem
    rw [hold, hack, hcwnd] at hle
    change 4294951502 + 1500 ≤ _ at hle
    norm_num at hle

end TcpSrc

end P4Survey.Ndp
