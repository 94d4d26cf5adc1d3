import P4Survey.Ndp.Mesh

/-! # The receiver-driven window

Every packet after the first window is sent for a pull or for a bounced packet.
Pull numbers count the arrivals at the sink and the source uses each of them once,
whatever the order and the losses.
-/

namespace P4Survey.Ndp
open Lib

/-- Pulls on their way do not exceed the arrivals, and what was sent beyond the window
does not exceed the pulls used and the packets that came back. -/
structure Credited (F : Flow) (s : Mesh) : Prop where
  only : ∃ l, FairPullQueue.Only F.id l s.world.pacer.pullQueue ∧
    ∀ x ∈ l, x.pullno ≤ s.world.sink.pullNo
  credit : ∀ p ∈ s.world.net, p.credit ≤ s.world.sink.pullNo
  lastPull : s.world.src.lastPull ≤ s.world.sink.pullNo
  arrived : s.arrived = s.world.sink.pullNo
  sent : s.world.src.packetsSent ≤ F.window + s.world.src.lastPull + s.returned

namespace Credited

variable {F : Flow} {s : Mesh}

theorem start (now packetDrainTime : ℕ) : Credited F (.start F now packetDrainTime) := by
  set src : Source := { Source.initial with
    highestSent := 0, lastAcked := 0, packetsSent := 0, pullWindow := 0, flightSize := 0#32
    firstWindowCount := 0 }
  have hfresh : Fresh F src := ⟨rfl, dvd_zero _, rfl⟩
  obtain ⟨hle, hsent⟩ := hfresh.windowLoop_sent (Nat.zero_le _) F.cwnd
  refine ⟨⟨[], FairPullQueue.only_empty, by simp⟩, ?_, (startflow_lastPull F).le, rfl, ?_⟩
  · exact fun p hp => (credit_of_mem_onWire hp).le
  · change (Source.initial.startflow F).1.packetsSent ≤
      F.window + (Source.initial.startflow F).1.lastPull + 0
    rw [startflow_packetsSent, startflow_lastPull]
    rw [hsent] at hle
    exact Nat.le_of_mul_le_mul_right ((Nat.le_add_left _ _).trans hle) F.mss_pos

/-- Fewer packets are on their way. -/
theorem drop (h : Credited F s) {net : Multiset Packet} (hnet : net ≤ s.world.net) :
    Credited F { s with world := { s.world with net := net } } :=
  { h with credit := fun p hp => h.credit p (Multiset.mem_of_le hnet hp) }

theorem arrive (h : Credited F s) (p : NdpPacket) (t draw : ℕ) :
    Credited F (s.deliver F (.ndp p) t draw) := by
  obtain ⟨l, hl, hqueued⟩ := h.only
  obtain ⟨r, hr⟩ := receivePacket_reaction hl s.world.sink t draw p
  obtain ⟨l', hl', hmem⟩ := hr.only
  have hpull := hr.pullNo
  have hlast := h.lastPull
  have harrived := h.arrived
  refine ⟨⟨l', hl', ?_⟩, ?_, ?_, ?_, h.sent⟩
  · intro x hx
    change x.pullno ≤ (s.world.sink.receivePacket F t draw p s.world.pacer).sink.pullNo
    rw [hpull]
    rcases hmem x hx with hx | hx
    · exact (hqueued x hx).trans (Nat.le_succ _)
    · exact hx.le
  · intro q hq
    change q.credit ≤ (s.world.sink.receivePacket F t draw p s.world.pacer).sink.pullNo
    rw [hpull]
    rcases Multiset.mem_cons.mp hq with rfl | hq
    · exact hr.credit
    · exact (h.credit q (Multiset.mem_of_mem_erase hq)).trans (Nat.le_succ _)
  · change s.world.src.lastPull ≤
      (s.world.sink.receivePacket F t draw p s.world.pacer).sink.pullNo
    omega
  · change s.arrived + 1 = (s.world.sink.receivePacket F t draw p s.world.pacer).sink.pullNo
    omega

/-- The source uses the pulls up to the one it is given. -/
theorem feedback (h : Credited F s) {p : Packet} (hp : p ∈ s.world.net) (hdata : p.isData = false)
    (t : ℕ) : Credited F { s with world := s.world.feedback F p t } := by
  obtain ⟨src, pacerNo, hrecv, hpull, hsent, -, -⟩ := receivePacket_eq F s.world.src hdata
  have hcredit := h.credit p hp
  have hlast := h.lastPull
  have hbound := h.sent
  have hlast' := @pullLoop_lastPull F src pacerNo (p.credit - s.world.src.lastPull)
  have hcount := @pullLoop_packetsSent F src pacerNo (p.credit - s.world.src.lastPull)
  have hlen := @pullLoop_length_le F src pacerNo (p.credit - s.world.src.lastPull)
  unfold World.feedback
  rw [hrecv]
  refine ⟨h.only, ?_, ?_, h.arrived, ?_⟩
  · intro q hq
    rcases Multiset.mem_add.mp hq with hq | hq
    · rw [credit_of_mem_onWire hq]
      exact Nat.zero_le _
    · exact h.credit q (Multiset.mem_of_mem_erase hq)
  · dsimp only
    omega
  · dsimp only
    omega

theorem deliver (h : Credited F s) {p : Packet} (hp : p ∈ s.world.net) (t draw : ℕ) :
    Credited F (s.deliver F p t draw) := by
  cases p with
  | ndp p => exact h.arrive p t draw
  | ack r =>
    obtain ⟨honly, hcredit, hlast, harrived, hsent⟩ := h.feedback hp rfl t
    exact ⟨honly, hcredit, hlast, harrived, hsent⟩
  | nack r =>
    obtain ⟨honly, hcredit, hlast, harrived, hsent⟩ := h.feedback hp rfl t
    exact ⟨honly, hcredit, hlast, harrived, hsent⟩
  | pull r =>
    obtain ⟨honly, hcredit, hlast, harrived, hsent⟩ := h.feedback hp rfl t
    exact ⟨honly, hcredit, hlast, harrived, hsent⟩

theorem giveBack (h : Credited F s) (p : NdpPacket) (t : ℕ) : Credited F (s.giveBack F p t) := by
  obtain ⟨hpull, hsent, -, -⟩ := noteRTS_eq F s.world.src p
  have hbound := h.sent
  have hlast := h.lastPull
  have hstep : (s.world.src.receivePacket F (.ndp p)).1.lastPull = s.world.src.lastPull ∧
      (s.world.src.receivePacket F (.ndp p)).1.packetsSent ≤ s.world.src.packetsSent + 1 := by
    rcases receivePacket_bounced F s.world.src p with he | he
    · have hcount := @sendPacket_packetsSent F (s.world.src.noteRTS F p) 0
      have hlen := sendPacket_length_le F (s.world.src.noteRTS F p) 0
      rw [he, sendPacket_lastPull]
      exact ⟨hpull, by omega⟩
    · rw [he]
      exact ⟨hpull, by dsimp only; omega⟩
  unfold Mesh.giveBack
  refine ⟨h.only, ?_, ?_, h.arrived, ?_⟩
  · intro q hq
    rcases Multiset.mem_add.mp hq with hq | hq
    · rw [credit_of_mem_onWire hq]
      exact Nat.zero_le _
    · exact h.credit q hq
  · dsimp only
    omega
  · dsimp only
    omega

theorem timer (h : Credited F s) (t draw : ℕ) :
    Credited F { s with world := s.world.timer t draw } := by
  obtain ⟨l, hl, hqueued⟩ := h.only
  obtain ⟨out, l', hsrc, hsink, hnet, hl', hout, hmem⟩ := timer_eq hl t draw
  refine ⟨⟨l', hl', ?_⟩, ?_, ?_, ?_, ?_⟩ <;> dsimp only
  · intro x hx
    rw [hsink]
    exact hqueued x (hmem x hx)
  · intro p hp
    rw [hnet] at hp
    rw [hsink]
    rcases Multiset.mem_add.mp hp with hp | hp
    · obtain ⟨y, hy, rfl⟩ := List.mem_map.mp (Multiset.mem_coe.mp hp)
      obtain ⟨x, hx, hxy⟩ := hout y hy
      exact hxy.le.trans (hqueued x hx)
    · exact h.credit p hp
  · rw [hsrc, hsink]
    exact h.lastPull
  · rw [hsink]
    exact h.arrived
  · rw [hsrc]
    exact h.sent

theorem trim (h : Credited F s) (p : NdpPacket) : Credited F { s with world := s.world.trim p } := by
  refine { h with credit := ?_ }
  intro q hq
  rcases Multiset.mem_cons.mp hq with rfl | hq
  · exact Nat.zero_le _
  · exact h.credit q (Multiset.mem_of_mem_erase hq)

end Credited

theorem credited_of_reachable {F : Flow} {s : Mesh} (h : (mesh F).Reachable s) : Credited F s := by
  apply h.invariant
  · rintro s ⟨now, packetDrainTime, rfl⟩
    exact Credited.start now packetDrainTime
  · intro s a _ hs ha
    cases a with
    | deliver p t draw => exact hs.deliver ha.1 t draw
    | trim p => exact hs.trim p
    | bounce p => exact { hs.drop (Multiset.erase_le _ _) with }
    | giveBack p t => exact hs.giveBack p t
    | timer t draw => exact hs.timer t draw
    | lose p => exact hs.drop (Multiset.erase_le _ _)
    | loseBounced p => exact { hs with }

/-- At most a window of packets is neither at the sink, as data or as a header, nor back
at the source, and the source never uses a pull that the sink has not made. -/
theorem receiver_driven_window {F : Flow} {s : Mesh} (h : (mesh F).Reachable s) :
    (s.world.src.packetsSent : ℤ) - s.arrived - s.returned ≤ F.window ∧
      s.world.src.lastPull ≤ s.world.sink.pullNo := by
  have hinv := credited_of_reachable h
  have hsent := hinv.sent
  have hlast := hinv.lastPull
  have harrived := hinv.arrived
  exact ⟨by omega, hlast⟩

/-- The first packet of a flow is bounced and comes back. -/
theorem receiver_driven_window_bounced :
    ∃ s, (mesh longFlow).Reachable s ∧ s.returned = 1 ∧
      (s.world.src.packetsSent : ℤ) - s.arrived - s.returned ≤ longFlow.window := by
  have hinit : (mesh longFlow).Reachable (.start longFlow 0 7200000) := .init ⟨_, _, rfl⟩
  have hs := hinit.run (l := [.bounce ⟨1, 0, false, false⟩, .giveBack ⟨1, 0, true, false⟩ 1])
    (by decide)
  exact ⟨_, hs, rfl, (receiver_driven_window hs).1⟩

end P4Survey.Ndp
