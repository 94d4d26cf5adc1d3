import P4Survey.Lib.Queues
import P4Survey.Lib.Inet
import P4Survey.Lib.System
import P4Survey.NetFpga.Stream

/-! # The trimming of packets in the NDP switch

`nf_ndp.v`: a packet of NDP whose output queue is full goes on as its header alone, in the
priority queue. The stage has no back pressure and reads its input queue, which is an
instance of `fallthrough_small_fifo`, word by word. The sums for the checksum of TCP are
left out, as nothing reads them, and so is the reset.
-/

namespace P4Survey.NetFpga

open Lib

/-- The bytes of `tdata` the other way round. -/
def swapBytes (d : BitVec 256) : BitVec 256 :=
  (BitVec.iunfoldr (fun k _ => ((), d.getLsbD (8 * (31 - k.val / 8) + k.val % 8))) ()).2

theorem getLsbD_swapBytes (d : BitVec 256) {k : ℕ} (hk : k < 256) :
    (swapBytes d).getLsbD k = d.getLsbD (8 * (31 - k / 8) + k % 8) :=
  BitVec.iunfoldr_getLsbD (fun _ => ()) ⟨k, hk⟩ fun _ => rfl

theorem swapBytes_swapBytes (d : BitVec 256) : swapBytes (swapBytes d) = d := by
  ext k hk
  rw [← BitVec.getLsbD_eq_getElem hk, getLsbD_swapBytes _ hk, getLsbD_swapBytes _ (by omega),
    ← BitVec.getLsbD_eq_getElem hk]
  congr 1
  omega

/-- Between the order of bytes of the stream and that of the network. -/
def bridge (w : Beat) : Beat := { w with tdata := swapBytes w.tdata, tkeep := w.tkeep.reverse }

@[simp] theorem bridge_bridge (w : Beat) : bridge (bridge w) = w := by
  simp [bridge, swapBytes_swapBytes]

@[simp] theorem bridge_tlast (w : Beat) : (bridge w).tlast = w.tlast := by
  rw [bridge]

@[simp] theorem bridge_tuser (w : Beat) : (bridge w).tuser = w.tuser := by
  rw [bridge]

namespace NfNdp

inductive State where
  | checkTcpOqStatus
  | ndpModeOff
  | ndpModeOn
  | lastWord
  | flushRestPkt
  | tcpWord
  | ndpModeOnPipe
  | tcpWordPipe
  | checkAckNack
  | ndpModeOffPipe
  | ackModeOn
  deriving DecidableEq

structure Regs where
  state : State
  tkeep : BitVec 32
  chunk0 : Beat
  tuserHQ : BitVec 8
  tuserPQ : BitVec 8
  ipHdr1 : BitVec 32
  ipHdr2 : BitVec 32
  ipHdr3 : BitVec 32

def Regs.reset : Regs :=
  ⟨.checkTcpOqStatus, 0xffffffff#32, ⟨⟨0#256, 0xffffffff#32, false⟩, 0#128⟩, 0#8, 0#8, 0#32, 0#32,
    0#32⟩

/-- The output ports of a packet, in its metadata. -/
def dstPorts (u : BitVec 128) : BitVec 8 := u.extractLsb' 24 8

/-- The metadata with other output ports, `hq` for the normal queues and `pq` for the priority
queues. -/
def setPorts (u : BitVec 128) (pq hq : BitVec 8) : BitVec 128 :=
  u.extractLsb' 40 88 ++ pq ++ hq ++ u.extractLsb' 0 24

/-- A field of 16 bits in a sum of 32 bits. -/
def half (d : BitVec 256) (low : ℕ) : BitVec 32 := (d.extractLsb' low 16).setWidth 32

/-- A first word with another length and another checksum in its IP header. -/
def splice (d : BitVec 256) (length sum : BitVec 16) : BitVec 256 :=
  d.extractLsb' 128 128 ++ length ++ d.extractLsb' 64 48 ++ sum ++ d.extractLsb' 0 48

/-- Whether the protocol of the IP header in the first word is NDP. -/
def isNdp (w : Beat) : Bool := w.tdata.extractLsb' 64 8 == 199#8

/-- Whether the first two words are those of an ACK, a NACK or a bare header. -/
def isControl (w x : Beat) : Bool :=
  x.tdata.getLsbD 233 || x.tdata.getLsbD 235 || w.tdata.extractLsb' 112 16 == 0x0028#16

/-- What the block `always @(*)` computes. -/
structure Logic where
  next : Regs
  mAxisTvalid : Bool
  mAxis : Beat
  inFifoRdEn : Bool

/-- Whether the normal queue of a port is full. -/
abbrev Full : Type := Fin 4 → Bool

section Logic

variable (hFull : Full)

/-- Whether a packet goes to a port whose queue is full. -/
def hits (w : Beat) (k : Fin 4) : Bool := w.tuser.getLsbD (24 + 2 * k.val) && hFull k

/-- What happens for a port if its queue is full. -/
def Regs.divert (r : Regs) (k : Fin 4) : Regs :=
  if hits hFull r.chunk0 k then
    { r with
      tuserHQ := r.tuserHQ &&& ~~~(1#8 <<< (2 * k.val))
      tuserPQ := r.tuserPQ ||| 1#8 <<< (2 * k.val)
      state := .ndpModeOn }
  else r

variable (r : Regs) (fifo : Beat) (inFifoEmpty : Bool)

def sumHeader : Regs :=
  { r with
    ipHdr1 := half r.chunk0.tdata 128 + 0x28#32 + half r.chunk0.tdata 96
    ipHdr2 := half r.chunk0.tdata 80 + half r.chunk0.tdata 64 + half r.chunk0.tdata 32
    ipHdr3 := half r.chunk0.tdata 16 + half r.chunk0.tdata 0 + half fifo.tdata 240
    state := .ndpModeOnPipe }

/-- The first word of a trimmed packet. Its length is that of the headers. -/
def trimmedHead : Beat :=
  let ipcksm := r.ipHdr1 + r.ipHdr2 + r.ipHdr3
  { tdata := splice r.chunk0.tdata 0x0028#16
      (~~~(ipcksm.extractLsb' 16 16 + ipcksm.extractLsb' 0 16))
    tkeep := fifo.tkeep
    tlast := false
    tuser := setPorts r.chunk0.tuser r.tuserPQ r.tuserHQ }

def trimmedTail : Beat :=
  { fifo with
    tdata := fifo.tdata.extractLsb' 112 144 ++ 0#16 ++ fifo.tdata.extractLsb' 0 96
    tkeep := 0xfffffc00#32
    tlast := true }

/-- The values at the top of the block. -/
def still : Logic := ⟨r, false, fifo, false⟩

/-- The words that leave. -/
def Logic.emitted (l : Logic) : List Beat := if l.mAxisTvalid then [l.mAxis] else []

/-- A word is passed on. -/
def pass (state : State) : Logic := ⟨{ r with state }, true, fifo, true⟩

def logic : Logic :=
  match r.state with
  | .checkTcpOqStatus =>
    let r' := { r with tuserHQ := dstPorts fifo.tuser, tuserPQ := 0#8 }
    if inFifoEmpty then still r' fifo
    else if isNdp fifo then ⟨{ r' with chunk0 := fifo, state := .checkAckNack }, false, fifo, true⟩
    else pass r' fifo .ndpModeOff
  | .checkAckNack =>
    if inFifoEmpty then still r fifo
    else if isControl r.chunk0 fifo then
      ⟨{ r with state := .ackModeOn }, true, { r.chunk0 with
        tuser := setPorts r.chunk0.tuser (dstPorts r.chunk0.tuser &&& 0x55#8) 0#8 }, false⟩
    else
      let r' := (List.finRange 4).foldl (Regs.divert hFull) { r with state := .ndpModeOffPipe }
      ⟨r', r'.state == .ndpModeOffPipe, r.chunk0, false⟩
  | .ackModeOn =>
    if inFifoEmpty then still r fifo
    else pass r fifo (if fifo.tlast then .checkTcpOqStatus else .ackModeOn)
  | .ndpModeOffPipe => pass r fifo (if fifo.tlast then .checkTcpOqStatus else .ndpModeOff)
  | .ndpModeOff =>
    if inFifoEmpty then still r fifo
    else pass r fifo (if fifo.tlast then .checkTcpOqStatus else .ndpModeOff)
  | .ndpModeOn => ⟨sumHeader r fifo, false, fifo, false⟩
  | .ndpModeOnPipe => ⟨{ r with state := .tcpWordPipe }, true, trimmedHead r fifo, false⟩
  | .tcpWordPipe => ⟨{ r with state := .tcpWord }, false, fifo, false⟩
  | .tcpWord =>
    ⟨{ r with state := if fifo.tlast then .checkTcpOqStatus else .flushRestPkt }, true,
      trimmedTail fifo, true⟩
  | .lastWord =>
    if inFifoEmpty then still r fifo
    else
      ⟨{ r with state := if fifo.tlast then .checkTcpOqStatus else .flushRestPkt }, true,
        { fifo with tkeep := r.tkeep, tlast := true }, true⟩
  | .flushRestPkt =>
    if inFifoEmpty then still r fifo
    else ⟨{ r with state := if fifo.tlast then .checkTcpOqStatus else .flushRestPkt }, false,
      fifo, true⟩

end Logic

end NfNdp

structure NfNdp (F : Fifo Beat) where
  inputFifo : F.State
  regs : NfNdp.Regs

namespace NfNdp

variable {F : Fifo Beat} (s : NfNdp F) (hFull : Full) (sAxis : Option Beat)

def empty : Bool := F.empty s.inputFifo

def fifo : Beat := F.dout s.inputFifo

def comb : Logic := logic hFull s.regs s.fifo s.empty

/-- The word that the input queue takes. -/
def accepted : Option Beat := if F.nearlyFull s.inputFifo then none else sAxis

def clock : NfNdp F :=
  ⟨F.clock s.inputFifo ((s.accepted sAxis).map bridge) (s.comb hFull).inFifoRdEn,
    (s.comb hFull).next⟩

/-- The word on the output. -/
def output : Option Beat :=
  if (s.comb hFull).mAxisTvalid then some (bridge (s.comb hFull).mAxis) else none

/-! ## What becomes of a packet -/

section Forward

variable (hFull : Full)

/-- Whether one of the queues for a packet is full. -/
def blocked (w : Beat) : Bool := (List.finRange 4).any (hits hFull w)

/-- The priority queues that get the header. -/
def diverted (w : Beat) : BitVec 8 :=
  (List.finRange 4).foldl (fun m k => if hits hFull w k then m ||| 1#8 <<< (2 * k.val) else m) 0#8

/-- The sum of the IP header with the length of a packet of headers alone. -/
def headerSum (w x : Beat) : BitVec 32 :=
  half w.tdata 128 + 0x28#32 + half w.tdata 96 +
    (half w.tdata 80 + half w.tdata 64 + half w.tdata 32) +
    (half w.tdata 16 + half w.tdata 0 + half x.tdata 240)

/-- A packet that becomes its header. -/
def trimmed (w x : Beat) : Beat :=
  { tdata := splice w.tdata 0x0028#16
      (~~~((headerSum w x).extractLsb' 16 16 + (headerSum w x).extractLsb' 0 16))
    tkeep := x.tkeep
    tlast := false
    tuser := setPorts w.tuser (diverted hFull w) (dstPorts w.tuser &&& ~~~diverted hFull w) }

/-- A packet for the priority queues. -/
def prioritized (w : Beat) : Beat :=
  { w with tuser := setPorts w.tuser (dstPorts w.tuser &&& 0x55#8) 0#8 }

def Trims (w x : Beat) : Prop := isNdp w = true ∧ isControl w x = false ∧ blocked hFull w = true

instance (w x : Beat) : Decidable (Trims hFull w x) :=
  inferInstanceAs (Decidable (_ ∧ _))

/-- The packet that goes on for a packet, if the normal queues are full as `hFull` says. -/
def forward : List Beat → List Beat
  | w :: x :: l =>
    if isNdp w && isControl w x then prioritized w :: x :: l
    else if Trims hFull w x then [trimmed hFull w x, trimmedTail x]
    else w :: x :: l
  | l => l

end Forward

section Divert

variable (hFull : Full)

theorem divert_foldl (ks : List (Fin 4)) {r : Regs} {d : BitVec 8}
    (h : r.tuserHQ = d &&& ~~~r.tuserPQ) :
    (ks.foldl (Regs.divert hFull) r).chunk0 = r.chunk0 ∧
      (ks.foldl (Regs.divert hFull) r).tuserPQ =
        ks.foldl (fun m k => if hits hFull r.chunk0 k then m ||| 1#8 <<< (2 * k.val) else m)
          r.tuserPQ ∧
      (ks.foldl (Regs.divert hFull) r).tuserHQ =
        d &&& ~~~(ks.foldl (Regs.divert hFull) r).tuserPQ ∧
      (ks.foldl (Regs.divert hFull) r).state =
        if ks.any (hits hFull r.chunk0) then .ndpModeOn else r.state := by
  induction ks generalizing r with
  | nil => exact ⟨rfl, rfl, h, rfl⟩
  | cons k ks ih =>
    rw [List.foldl_cons, List.foldl_cons, List.any_cons]
    by_cases hk : hits hFull r.chunk0 k = true
    · have hr : r.divert hFull k = { r with
          tuserHQ := r.tuserHQ &&& ~~~(1#8 <<< (2 * k.val))
          tuserPQ := r.tuserPQ ||| 1#8 <<< (2 * k.val)
          state := .ndpModeOn } := if_pos hk
      have hd : (r.divert hFull k).tuserHQ = d &&& ~~~(r.divert hFull k).tuserPQ := by
        rw [hr]
        change r.tuserHQ &&& ~~~(1#8 <<< (2 * k.val)) = d &&& ~~~(r.tuserPQ ||| 1#8 <<< (2 * k.val))
        rw [h, BitVec.and_assoc, BitVec.not_or]
      obtain ⟨hw, hpq, hhq, hst⟩ := ih hd
      rw [hk, Bool.true_or, if_pos rfl, if_pos rfl]
      refine ⟨hw.trans (by rw [hr]), hpq.trans (by rw [hr]), hhq, hst.trans ?_⟩
      rw [hr]
      exact ite_self _
    · have hr : r.divert hFull k = r := if_neg hk
      rw [hr, if_neg hk, (Bool.not_eq_true _).mp hk, Bool.false_or]
      exact ih h

/-- The check of all ports. -/
theorem divert_all {r : Regs} (hHQ : r.tuserHQ = dstPorts r.chunk0.tuser)
    (hPQ : r.tuserPQ = 0#8) (hs : r.state = .ndpModeOffPipe) :
    ((List.finRange 4).foldl (Regs.divert hFull) r).chunk0 = r.chunk0 ∧
      ((List.finRange 4).foldl (Regs.divert hFull) r).tuserPQ = diverted hFull r.chunk0 ∧
      ((List.finRange 4).foldl (Regs.divert hFull) r).tuserHQ =
        dstPorts r.chunk0.tuser &&& ~~~diverted hFull r.chunk0 ∧
      ((List.finRange 4).foldl (Regs.divert hFull) r).state =
        if blocked hFull r.chunk0 then .ndpModeOn else .ndpModeOffPipe := by
  have h : r.tuserHQ = dstPorts r.chunk0.tuser &&& ~~~r.tuserPQ := by
    rw [hHQ, hPQ, BitVec.not_zero, BitVec.and_allOnes]
  obtain ⟨hw, hpq, hhq, hst⟩ := divert_foldl hFull (List.finRange 4) h
  rw [hPQ] at hpq
  rw [hs] at hst
  exact ⟨hw, hpq, hhq.trans (by rw [hpq]; rfl), hst⟩

end Divert

/-- Where the stage is in a packet: the word that the queue shows, the words that were read of
the packet, and what was sent for it. -/
inductive Stage (hFull : Full) (r : Regs) (shown : Option Beat) : List Beat → List Beat → Prop
  | start (hs : r.state = .checkTcpOqStatus) : Stage hFull r shown [] []
  | held (hs : r.state = .checkAckNack) (hw : isNdp r.chunk0 = true)
      (hHQ : r.tuserHQ = dstPorts r.chunk0.tuser) (hPQ : r.tuserPQ = 0#8) :
      Stage hFull r shown [r.chunk0] []
  | controlFirst {x : Beat} (hs : r.state = .ackModeOn) (hx : shown = some x)
      (hc : (isNdp r.chunk0 && isControl r.chunk0 x) = true) :
      Stage hFull r shown [r.chunk0] [prioritized r.chunk0]
  | control {w x : Beat} {l : List Beat} (hs : r.state = .ackModeOn)
      (hc : (isNdp w && isControl w x) = true) :
      Stage hFull r shown (w :: x :: l) (prioritized w :: x :: l)
  | plainFirst {x : Beat} (hs : r.state = .ndpModeOffPipe) (hx : shown = some x)
      (hp : ∀ l, forward hFull (r.chunk0 :: x :: l) = r.chunk0 :: x :: l) :
      Stage hFull r shown [r.chunk0] [r.chunk0]
  | plain {w : Beat} {l : List Beat} (hs : r.state = .ndpModeOff)
      (hp : ∀ l', forward hFull (w :: l ++ l') = w :: l ++ l') :
      Stage hFull r shown (w :: l) (w :: l)
  | trimFirst {x : Beat} (hs : r.state = .ndpModeOn) (hx : shown = some x)
      (ht : Trims hFull r.chunk0 x)
      (hHQ : r.tuserHQ = dstPorts r.chunk0.tuser &&& ~~~diverted hFull r.chunk0)
      (hPQ : r.tuserPQ = diverted hFull r.chunk0) : Stage hFull r shown [r.chunk0] []
  | trimSum {x : Beat} (hs : r.state = .ndpModeOnPipe) (hx : shown = some x)
      (ht : Trims hFull r.chunk0 x) (hhead : trimmedHead r x = trimmed hFull r.chunk0 x) :
      Stage hFull r shown [r.chunk0] []
  | trimTail {x : Beat} (hs : r.state = .tcpWordPipe ∨ r.state = .tcpWord) (hx : shown = some x)
      (ht : Trims hFull r.chunk0 x) :
      Stage hFull r shown [r.chunk0] [trimmed hFull r.chunk0 x]
  | flush {w x : Beat} {l : List Beat} (hs : r.state = .flushRestPkt) (ht : Trims hFull w x) :
      Stage hFull r shown (w :: x :: l) [trimmed hFull w x, trimmedTail x]

section Stage

variable {hFull : Full} {r : Regs} {shown : Option Beat} {p o : List Beat}

theorem forward_of_not_ndp {w : Beat} (hw : isNdp w = false) (l : List Beat) :
    forward hFull (w :: l) = w :: l := by
  cases l with
  | nil => rfl
  | cons x l =>
    have ht : ¬Trims hFull w x := fun ht => absurd (hw.symm.trans ht.1) (by decide)
    rw [forward, hw, Bool.false_and, if_neg Bool.false_ne_true, if_neg ht]

theorem forward_of_control {w x : Beat} (hc : (isNdp w && isControl w x) = true) (l : List Beat) :
    forward hFull (w :: x :: l) = prioritized w :: x :: l :=
  if_pos hc

theorem forward_of_trims {w x : Beat} (ht : Trims hFull w x) (l : List Beat) :
    forward hFull (w :: x :: l) = [trimmed hFull w x, trimmedTail x] := by
  rw [forward, ht.2.1, Bool.and_false, if_neg Bool.false_ne_true, if_pos ht]

theorem forward_of_free {w x : Beat} (hc : isControl w x = false)
    (hb : blocked hFull w = false) (l : List Beat) :
    forward hFull (w :: x :: l) = w :: x :: l := by
  have ht : ¬Trims hFull w x := fun ht => absurd (hb.symm.trans ht.2.2) (by decide)
  rw [forward, hc, Bool.and_false, if_neg Bool.false_ne_true, if_neg ht]

/-- What was sent is the beginning of the packet that goes on. -/
theorem Stage.prefix (h : Stage hFull r shown p o) {l : List Beat} (hl : ∀ x ∈ shown, l.head? = some x) :
    o <+: forward hFull (p ++ l) := by
  have hshown {x : Beat} (hx : shown = some x) : ∃ l', l = x :: l' :=
    List.head?_eq_some_iff.1 (hl x hx)
  cases h with
  | start => exact List.nil_prefix
  | held => exact List.nil_prefix
  | controlFirst hs hx hc =>
    obtain ⟨l', rfl⟩ := hshown hx
    rw [List.singleton_append, forward_of_control hc]
    exact ⟨_, rfl⟩
  | @control w x l₀ hs hc =>
    rw [List.cons_append, List.cons_append, forward_of_control hc]
    exact ⟨l, rfl⟩
  | plainFirst hs hx hp =>
    obtain ⟨l', rfl⟩ := hshown hx
    rw [List.singleton_append, hp]
    exact ⟨_, rfl⟩
  | plain hs hp =>
    rw [hp]
    exact List.prefix_append _ _
  | trimFirst => exact List.nil_prefix
  | trimSum => exact List.nil_prefix
  | trimTail hs hx ht =>
    obtain ⟨l', rfl⟩ := hshown hx
    rw [List.singleton_append, forward_of_trims ht]
    exact ⟨_, rfl⟩
  | flush hs ht =>
    rw [List.cons_append, List.cons_append, forward_of_trims ht]

/-- What a cycle does with the packet under way. -/
def Advances (hFull : Full) (l : Logic) (fifo : Beat) (inFifoEmpty : Bool) (p o : List Beat) :
    Prop :=
  if l.inFifoRdEn then
    inFifoEmpty = false ∧
      if fifo.tlast then
        l.next.state = .checkTcpOqStatus ∧ o ++ l.emitted = forward hFull (p ++ [fifo])
      else ∀ shown, Stage hFull l.next shown (p ++ [fifo]) (o ++ l.emitted)
  else ∀ shown, (inFifoEmpty = false → shown = some fifo) →
    Stage hFull l.next shown p (o ++ l.emitted)

variable {full : Full} {fifo : Beat}

/-- A word that goes on as it is, in the middle of a packet. -/
theorem advances_pass {last more : State} (hlast : last = .checkTcpOqStatus)
    (hend : fifo.tlast = true → o ++ [fifo] = forward hFull (p ++ [fifo]))
    (hmore : fifo.tlast = false →
      ∀ shown, Stage hFull { r with state := more } shown (p ++ [fifo]) (o ++ [fifo])) :
    Advances hFull (pass r fifo (if fifo.tlast then last else more)) fifo false p o := by
  subst hlast
  rw [Advances, if_pos (show (pass r fifo _).inFifoRdEn = true from rfl)]
  refine ⟨rfl, ?_⟩
  cases hl : fifo.tlast with
  | true => exact ⟨rfl, hend hl⟩
  | false => exact hmore hl

/-- A cycle in which nothing happens. -/
theorem advances_still (hst : ∀ shown, Stage hFull r shown p o) :
    Advances hFull (still r fifo) fifo true p o := by
  rw [Advances, if_neg (show ¬(still r fifo).inFifoRdEn = true from Bool.false_ne_true)]
  intro shown _
  rw [show (still r fifo).emitted = [] from rfl, List.append_nil]
  exact hst shown

/-- The check of the queues. -/
theorem advances_held (hs : r.state = .checkAckNack) (hw : isNdp r.chunk0 = true)
    (hHQ : r.tuserHQ = dstPorts r.chunk0.tuser) (hPQ : r.tuserPQ = 0#8) (e : Bool) :
    Advances full (logic full r fifo e) fifo e [r.chunk0] [] := by
  cases e with
  | true =>
    have hl : logic full r fifo true = still r fifo := by rw [logic, hs]; rfl
    rw [hl]
    exact advances_still fun shown => .held hs hw hHQ hPQ
  | false =>
    by_cases hc : isControl r.chunk0 fifo = true
    · have hl : logic full r fifo false =
          ⟨{ r with state := .ackModeOn }, true, prioritized r.chunk0, false⟩ := by
        rw [logic, hs]
        exact if_pos hc
      rw [hl]
      intro shown hshown
      exact .controlFirst rfl (hshown rfl) (by rw [hw, hc]; rfl)
    · obtain ⟨hw', hpq, hhq, hst⟩ := divert_all full
        (r := { r with state := .ndpModeOffPipe }) hHQ hPQ rfl
      have hl : logic full r fifo false =
          ⟨(List.finRange 4).foldl (Regs.divert full) { r with state := .ndpModeOffPipe },
            ((List.finRange 4).foldl (Regs.divert full)
              { r with state := .ndpModeOffPipe }).state == .ndpModeOffPipe, r.chunk0, false⟩ := by
        rw [logic, hs]
        exact if_neg hc
      rw [hl]
      generalize (List.finRange 4).foldl (Regs.divert full) { r with state := .ndpModeOffPipe } = r'
        at hw' hpq hhq hst
      change r'.chunk0 = r.chunk0 at hw'
      rw [← hw'] at hw hc hpq hhq hst ⊢
      have hc := (Bool.not_eq_true _).mp hc
      intro shown hshown
      by_cases hb : blocked full r'.chunk0 = true
      · rw [if_pos hb] at hst
        rw [show Logic.emitted _ = if (r'.state == .ndpModeOffPipe) = true then [r'.chunk0] else []
          from rfl, hst]
        exact .trimFirst hst (hshown rfl) ⟨hw, hc, hb⟩ hhq hpq
      · rw [if_neg hb] at hst
        rw [show Logic.emitted _ = if (r'.state == .ndpModeOffPipe) = true then [r'.chunk0] else []
          from rfl, hst]
        exact .plainFirst hst (hshown rfl)
          (forward_of_free hc ((Bool.not_eq_true _).mp hb))

/-- The first word of a packet. -/
theorem advances_start (hs : r.state = .checkTcpOqStatus) {e : Bool}
    (hfirst : e = false → fifo.tlast = false) :
    Advances hFull (logic full r fifo e) fifo e [] [] := by
  cases e with
  | true =>
    have hl : logic full r fifo true =
        still { r with tuserHQ := dstPorts fifo.tuser, tuserPQ := 0#8 } fifo := by
      rw [logic, hs]
      rfl
    rw [hl]
    exact advances_still fun shown => .start hs
  | false =>
    have hlast := hfirst rfl
    by_cases hw : isNdp fifo = true
    · have hl : logic full r fifo false = ⟨{ r with
          tuserHQ := dstPorts fifo.tuser, tuserPQ := 0#8, chunk0 := fifo, state := .checkAckNack },
          false, fifo, true⟩ := by
        rw [logic, hs]
        exact if_pos hw
      rw [hl, Advances, if_pos rfl, if_neg (by rw [hlast]; exact Bool.false_ne_true)]
      exact ⟨rfl, fun shown => .held rfl hw rfl rfl⟩
    · have hl : logic full r fifo false =
          pass { r with tuserHQ := dstPorts fifo.tuser, tuserPQ := 0#8 } fifo .ndpModeOff := by
        rw [logic, hs]
        exact if_neg hw
      rw [hl, Advances, if_pos (show (pass _ fifo _).inFifoRdEn = true from rfl),
        if_neg (by rw [hlast]; exact Bool.false_ne_true)]
      exact ⟨rfl, fun shown => .plain rfl fun l' =>
        forward_of_not_ndp ((Bool.not_eq_true _).mp hw) _⟩

/-- The words after the first ones of a packet that goes on whole. -/
theorem advances_more (more : State) {e : Bool} (hl : logic full r fifo e =
      if e then still r fifo else pass r fifo (if fifo.tlast then .checkTcpOqStatus else more))
    (hst : ∀ shown, Stage hFull r shown p o)
    (hend : o ++ [fifo] = forward hFull (p ++ [fifo]))
    (hmore : ∀ shown, Stage hFull { r with state := more } shown (p ++ [fifo]) (o ++ [fifo])) :
    Advances hFull (logic full r fifo e) fifo e p o := by
  rw [hl]
  cases e with
  | true => exact advances_still hst
  | false => exact advances_pass rfl (fun _ => hend) fun _ => hmore

/-- The sum of the header of a packet that is to be trimmed. -/
theorem advances_trimFirst (hs : r.state = .ndpModeOn) (ht : Trims hFull r.chunk0 fifo)
    (hHQ : r.tuserHQ = dstPorts r.chunk0.tuser &&& ~~~diverted hFull r.chunk0)
    (hPQ : r.tuserPQ = diverted hFull r.chunk0) :
    Advances hFull (logic full r fifo false) fifo false [r.chunk0] [] := by
  have hl : logic full r fifo false = ⟨sumHeader r fifo, false, fifo, false⟩ := by rw [logic, hs]
  rw [hl]
  intro shown hshown
  apply Stage.trimSum (r := sumHeader r fifo) rfl (hshown rfl) ht
  rw [trimmedHead, trimmed]
  change (⟨⟨_, _, _⟩, setPorts _ r.tuserPQ r.tuserHQ⟩ : Beat) = _
  rw [hPQ, hHQ]
  rfl

/-- The first word of the trimmed packet leaves. -/
theorem advances_trimSum (hs : r.state = .ndpModeOnPipe) (ht : Trims hFull r.chunk0 fifo)
    (hhead : trimmedHead r fifo = trimmed hFull r.chunk0 fifo) :
    Advances hFull (logic full r fifo false) fifo false [r.chunk0] [] := by
  have hl : logic full r fifo false =
      ⟨{ r with state := .tcpWordPipe }, true, trimmedHead r fifo, false⟩ := by rw [logic, hs]
  rw [hl, hhead]
  intro shown hshown
  exact .trimTail (.inl rfl) (hshown rfl) ht

/-- The second word of the trimmed packet leaves after a cycle of waiting. -/
theorem advances_trimTail (hs : r.state = .tcpWordPipe ∨ r.state = .tcpWord)
    (ht : Trims hFull r.chunk0 fifo) :
    Advances hFull (logic full r fifo false) fifo false [r.chunk0]
      [trimmed hFull r.chunk0 fifo] := by
  rcases hs with hs | hs
  · have hl : logic full r fifo false = ⟨{ r with state := .tcpWord }, false, fifo, false⟩ := by
      rw [logic, hs]
    rw [hl]
    intro shown hshown
    exact .trimTail (.inr rfl) (hshown rfl) ht
  · have hl : logic full r fifo false =
        ⟨{ r with state := if fifo.tlast then .checkTcpOqStatus else .flushRestPkt }, true,
          trimmedTail fifo, true⟩ := by rw [logic, hs]
    rw [hl, Advances, if_pos rfl]
    refine ⟨rfl, ?_⟩
    cases hlast : fifo.tlast with
    | true => exact ⟨rfl, (forward_of_trims ht []).symm⟩
    | false => exact fun shown => .flush rfl ht

/-- The words behind the header of a trimmed packet are read and do not leave. -/
theorem advances_flush {w x : Beat} {l : List Beat} (hs : r.state = .flushRestPkt)
    (ht : Trims hFull w x) (e : Bool) :
    Advances hFull (logic full r fifo e) fifo e (w :: x :: l)
      [trimmed hFull w x, trimmedTail x] := by
  have hl : logic full r fifo e = if e then still r fifo
      else ⟨{ r with state := if fifo.tlast then .checkTcpOqStatus else .flushRestPkt }, false,
        fifo, true⟩ := by rw [logic, hs]
  rw [hl]
  cases e with
  | true => exact advances_still fun shown => .flush hs ht
  | false =>
    rw [if_neg Bool.false_ne_true, Advances, if_pos rfl]
    refine ⟨rfl, ?_⟩
    cases hlast : fifo.tlast with
    | true => exact ⟨rfl, (forward_of_trims ht _).symm⟩
    | false => exact fun shown => .flush rfl ht

theorem Stage.step {e : Bool} (h : Stage hFull r (if e then none else some fifo) p o)
    (hfirst : p = [] → e = false → fifo.tlast = false) (full : Full) :
    Advances (if r.state = .checkAckNack then full else hFull) (logic full r fifo e) fifo e p o := by
  have hshows {x : Beat} (hx : (if e then none else some fifo) = some x) : e = false ∧ fifo = x := by
    cases e with
    | true => cases hx
    | false => exact ⟨rfl, Option.some.inj hx⟩
  have hkept {state : State} (hs : r.state = state) (hne : state ≠ .checkAckNack) :
      (if r.state = .checkAckNack then full else hFull) = hFull := if_neg (hs ▸ hne)
  cases h with
  | start hs =>
    rw [hkept hs (by decide)]
    exact advances_start hs (hfirst rfl)
  | held hs hw hHQ hPQ =>
    rw [if_pos hs]
    exact advances_held hs hw hHQ hPQ e
  | controlFirst hs hx hc =>
    obtain ⟨rfl, rfl⟩ := hshows hx
    rw [hkept hs (by decide), show logic full r fifo false = pass r fifo
      (if fifo.tlast then .checkTcpOqStatus else .ackModeOn) by rw [logic, hs]; rfl]
    exact advances_pass rfl (fun _ => (forward_of_control hc []).symm) fun _ _ => .control rfl hc
  | @control w x l hs hc =>
    rw [hkept hs (by decide)]
    apply advances_more .ackModeOn (by rw [logic, hs])
    · exact fun shown => .control hs hc
    · exact (forward_of_control hc _).symm
    · exact fun shown => .control rfl hc
  | plainFirst hs hx hp =>
    obtain ⟨rfl, rfl⟩ := hshows hx
    rw [hkept hs (by decide), show logic full r fifo false = pass r fifo
      (if fifo.tlast then .checkTcpOqStatus else .ndpModeOff) by rw [logic, hs]]
    exact advances_pass rfl (fun _ => (hp []).symm) fun _ _ => .plain rfl hp
  | @plain w l hs hp =>
    rw [hkept hs (by decide)]
    apply advances_more .ndpModeOff (by rw [logic, hs])
    · exact fun shown => .plain hs hp
    · exact (hp [fifo]).symm
    · intro shown
      apply Stage.plain rfl
      intro l'
      have := hp ([fifo] ++ l')
      simpa using this
  | trimFirst hs hx ht hHQ hPQ =>
    obtain ⟨rfl, rfl⟩ := hshows hx
    rw [hkept hs (by decide)]
    exact advances_trimFirst hs ht hHQ hPQ
  | trimSum hs hx ht hhead =>
    obtain ⟨rfl, rfl⟩ := hshows hx
    rw [hkept hs (by decide)]
    exact advances_trimSum hs ht hhead
  | trimTail hs hx ht =>
    obtain ⟨rfl, rfl⟩ := hshows hx
    rw [if_neg (by rcases hs with hs | hs <;> rw [hs] <;> decide)]
    exact advances_trimTail hs ht
  | flush hs ht =>
    rw [hkept hs (by decide)]
    exact advances_flush hs ht e

end Stage

end NfNdp

/-- The stage, with the words that it took and those that left. In the order of the network:
the words read of the packet under way, and the packets before it, each with the full queues
in the last cycle of its check. -/
structure Trimmer (F : Fifo Beat) where
  ndp : NfNdp F
  accepted : List Beat
  out : List Beat
  packet : List Beat
  hFull : NfNdp.Full
  done : List (List Beat × NfNdp.Full)

namespace Trimmer

open NfNdp

variable {F : Fifo Beat}

def start : Trimmer F := ⟨⟨F.init, Regs.reset⟩, [], [], [], fun _ => false, []⟩

/-- The signals from outside in a cycle. -/
structure Cycle where
  hFull : Full
  sAxis : Option Beat

def clock (s : Trimmer F) (c : Cycle) : Trimmer F :=
  let rdEn := (s.ndp.comb c.hFull).inFifoRdEn
  let hFull := if s.ndp.regs.state = .checkAckNack then c.hFull else s.hFull
  { ndp := s.ndp.clock c.hFull c.sAxis
    accepted := s.accepted ++ (s.ndp.accepted c.sAxis).toList
    out := s.out ++ (s.ndp.output c.hFull).toList
    packet :=
      if rdEn then if s.ndp.fifo.tlast then [] else s.packet ++ [s.ndp.fifo] else s.packet
    hFull
    done :=
      if rdEn && s.ndp.fifo.tlast then s.done ++ [(s.packet ++ [s.ndp.fifo], hFull)] else s.done }

/-- The input brings packets of at least two words. -/
def trimmer (F : Fifo Beat) : System (Trimmer F) Cycle where
  init s := s = start
  enabled s c := Framed (fun _ => True) false (s.accepted ++ (s.ndp.accepted c.sAxis).toList)
  next := clock

instance (s : Trimmer F) (c : Cycle) : Decidable ((trimmer F).enabled s c) :=
  inferInstanceAs (Decidable (Framed _ _ _))

/-- The packets before the one under way, as they were and as they went on. -/
def arrived (s : Trimmer F) : List Beat := s.done.flatMap (·.1)

def left (s : Trimmer F) : List Beat := s.done.flatMap fun d => forward d.2 d.1

def shown (s : Trimmer F) : Option Beat := if s.ndp.empty then none else some s.ndp.fifo

structure Inv (s : Trimmer F) (sent : List Beat) : Prop where
  words : s.accepted.map bridge = s.arrived ++ s.packet ++ F.contents s.ndp.inputFifo
  framed : Framed (fun _ => True) false (s.accepted.map bridge)
  whole : ∀ d ∈ s.done, IsPacket d.1
  begun : ∀ w ∈ s.packet, w.tlast = false
  out : s.out.map bridge = s.left ++ sent
  stage : Stage s.hFull s.ndp.regs s.shown s.packet sent

theorem framed_map_bridge {started : Bool} {l : List Beat} :
    Framed (fun _ => True) started (l.map bridge) ↔ Framed (fun _ => True) started l := by
  induction l generalizing started with
  | nil => simp [Framed]
  | cons w l ih => cases started <;> simp [Framed, ih]

theorem midPacket_map_bridge (started : Bool) (l : List Beat) :
    midPacket started (l.map bridge) = midPacket started l := by
  induction l generalizing started with
  | nil => rfl
  | cons w l ih => exact ih _

variable {s : Trimmer F} {sent : List Beat} {c : Cycle}

/-- A packet does not end with its first word. -/
theorem Inv.first (h : Inv s sent) (hF : F.Lawful) (hp : s.packet = [])
    (he : s.ndp.empty = false) : s.ndp.fifo.tlast = false := by
  obtain ⟨l, hl⟩ := hF.contents_shown he
  have hframed := h.framed
  rw [h.words, hp, List.append_nil, framed_append, arrived, midPacket_flatMap h.whole, hl]
    at hframed
  exact hframed.2.2.1

theorem Inv.advances (h : Inv s sent) (hF : F.Lawful) (c : Cycle) :
    Advances (s.clock c).hFull (s.ndp.comb c.hFull) s.ndp.fifo s.ndp.empty s.packet sent :=
  h.stage.step (h.first hF) c.hFull

/-- A word is read only if there is one. -/
theorem Inv.reads (h : Inv s sent) (hF : F.Lawful)
    (hrd : (s.ndp.comb c.hFull).inFifoRdEn = true) : s.ndp.empty = false := by
  have hadv := h.advances hF c
  rw [Advances, if_pos hrd] at hadv
  exact hadv.1

theorem Inv.ready (h : Inv s sent) (hF : F.Lawful) (c : Cycle) :
    F.Ready s.ndp.inputFifo ((s.ndp.accepted c.sAxis).map bridge)
      (s.ndp.comb c.hFull).inFifoRdEn := by
  refine ⟨h.reads hF, fun hwr => .inl ?_⟩
  by_contra hfull
  rw [NfNdp.accepted, if_pos ((Bool.not_eq_false _).mp hfull)] at hwr
  exact absurd hwr (by decide)

theorem out_clock (s : Trimmer F) (c : Cycle) :
    (s.clock c).out.map bridge = s.out.map bridge ++ (s.ndp.comb c.hFull).emitted := by
  change (s.out ++ (s.ndp.output c.hFull).toList).map bridge = _
  rw [List.map_append, NfNdp.output, Logic.emitted]
  split_ifs <;> simp

theorem accepted_clock (s : Trimmer F) (c : Cycle) : (s.clock c).accepted.map bridge =
    s.accepted.map bridge ++ ((s.ndp.accepted c.sAxis).map bridge).toList := by
  change (s.accepted ++ (s.ndp.accepted c.sAxis).toList).map bridge = _
  rw [List.map_append, Option.toList_map]

/-- The words that were accepted are those before the cycle, with the word that was read taken
from the queue. -/
theorem Inv.words_clock (h : Inv s sent) (hF : F.Lawful) (c : Cycle) :
    (s.clock c).accepted.map bridge = s.arrived ++ s.packet ++
      (if (s.ndp.comb c.hFull).inFifoRdEn then [s.ndp.fifo] else []) ++
        F.contents (s.clock c).ndp.inputFifo := by
  have hcontents : F.contents (s.clock c).ndp.inputFifo = _ := hF.contents_clock (h.ready hF c)
  rw [s.accepted_clock, h.words, hcontents]
  by_cases hrd : (s.ndp.comb c.hFull).inFifoRdEn = true
  · obtain ⟨l, hl⟩ := hF.contents_shown (h.reads hF hrd)
    rw [if_pos hrd, if_pos hrd, hl, List.tail_cons]
    simp [NfNdp.fifo]
  · rw [if_neg hrd, if_neg hrd, List.append_nil, List.append_assoc]

/-- The last word of a packet is read. -/
theorem Inv.clock_last (h : Inv s sent) (hF : F.Lawful) (hen : (trimmer F).enabled s c)
    (hrd : (s.ndp.comb c.hFull).inFifoRdEn = true) (hlast : s.ndp.fifo.tlast = true) :
    Inv (s.clock c) [] := by
  have hadv := h.advances hF c
  rw [Advances, if_pos hrd, if_pos hlast] at hadv
  obtain ⟨he, hstate, hforward⟩ := hadv
  have hwords := h.words_clock hF c
  rw [if_pos hrd] at hwords
  have hdone : (s.clock c).done = s.done ++ [(s.packet ++ [s.ndp.fifo], (s.clock c).hFull)] :=
    if_pos (by rw [hrd, hlast]; rfl)
  have hpacket : (s.clock c).packet = [] := (if_pos hrd).trans (if_pos hlast)
  refine ⟨?_, framed_map_bridge.2 hen, ?_, ?_, ?_, ?_⟩
  · rw [hwords, hpacket, arrived, arrived, hdone, List.flatMap_append]
    simp
  · rw [hdone]
    intro d hd
    rcases List.mem_append.1 hd with hd | hd
    · exact h.whole d hd
    · rw [List.mem_singleton.1 hd]
      refine ⟨_, _, rfl, fun hp => ?_, h.begun, hlast⟩
      exact absurd (hlast.symm.trans (h.first hF hp he)) (by decide)
  · rw [hpacket]
    exact fun w hw => absurd hw List.not_mem_nil
  · rw [s.out_clock, h.out, left, left, hdone, List.flatMap_append, List.append_nil,
      List.append_assoc, hforward]
    simp
  · rw [hpacket]
    exact .start hstate

/-- A word is read, and the packet goes on. -/
theorem Inv.clock_middle (h : Inv s sent) (hF : F.Lawful) (hen : (trimmer F).enabled s c)
    (hrd : (s.ndp.comb c.hFull).inFifoRdEn = true) (hmore : s.ndp.fifo.tlast = false) :
    Inv (s.clock c) (sent ++ (s.ndp.comb c.hFull).emitted) := by
  have hne : ¬s.ndp.fifo.tlast = true := by
    rw [hmore]
    exact Bool.false_ne_true
  have hadv := h.advances hF c
  rw [Advances, if_pos hrd, if_neg hne] at hadv
  have hwords := h.words_clock hF c
  rw [if_pos hrd] at hwords
  have hdone : (s.clock c).done = s.done :=
    if_neg (by rw [hmore, Bool.and_false]; exact Bool.false_ne_true)
  have hpacket : (s.clock c).packet = s.packet ++ [s.ndp.fifo] :=
    (if_pos hrd).trans (if_neg hne)
  refine ⟨?_, framed_map_bridge.2 hen, ?_, ?_, ?_, ?_⟩
  · rw [hwords, hpacket, arrived, arrived, hdone]
    simp
  · rw [hdone]
    exact h.whole
  · rw [hpacket]
    intro w hw
    rcases List.mem_append.1 hw with hw | hw
    · exact h.begun w hw
    · rw [List.mem_singleton.1 hw]
      exact hmore
  · rw [s.out_clock, h.out, left, left, hdone, List.append_assoc]
  · rw [hpacket]
    exact hadv.2 _

/-- No word is read. The queue goes on to show the word it has shown, if any. -/
theorem Inv.clock_wait (h : Inv s sent) (hF : F.Lawful) (hen : (trimmer F).enabled s c)
    (hrd : (s.ndp.comb c.hFull).inFifoRdEn = false) :
    Inv (s.clock c) (sent ++ (s.ndp.comb c.hFull).emitted) := by
  have hno : ¬(s.ndp.comb c.hFull).inFifoRdEn = true := by
    rw [hrd]
    exact Bool.false_ne_true
  have hadv := h.advances hF c
  rw [Advances, if_neg hno] at hadv
  have hwords := h.words_clock hF c
  rw [if_neg hno, List.append_nil] at hwords
  have hdone : (s.clock c).done = s.done :=
    if_neg (by rw [hrd, Bool.false_and]; exact Bool.false_ne_true)
  have hpacket : (s.clock c).packet = s.packet := if_neg hno
  refine ⟨?_, framed_map_bridge.2 hen, ?_, ?_, ?_, ?_⟩
  · rw [hwords, hpacket, arrived, arrived, hdone]
  · rw [hdone]
    exact h.whole
  · rw [hpacket]
    exact h.begun
  · rw [s.out_clock, h.out, left, left, hdone, List.append_assoc]
  · rw [hpacket]
    apply hadv
    intro he
    have hready := h.ready hF c
    rw [hrd] at hready
    obtain ⟨he', hd⟩ := hF.waits hready he
    change (if F.empty (F.clock _ _ (s.ndp.comb c.hFull).inFifoRdEn) then none
      else some (F.dout (F.clock _ _ (s.ndp.comb c.hFull).inFifoRdEn))) = _
    rw [hrd, he', hd]
    rfl

theorem Inv.clock (h : Inv s sent) (hF : F.Lawful) (hen : (trimmer F).enabled s c) :
    ∃ sent', Inv (s.clock c) sent' := by
  cases hrd : (s.ndp.comb c.hFull).inFifoRdEn with
  | false => exact ⟨_, h.clock_wait hF hen hrd⟩
  | true =>
    cases hlast : s.ndp.fifo.tlast with
    | true => exact ⟨_, h.clock_last hF hen hrd hlast⟩
    | false => exact ⟨_, h.clock_middle hF hen hrd hlast⟩

theorem inv_reachable (hF : F.Lawful) (hs : (trimmer F).Reachable s) : ∃ sent, Inv s sent := by
  induction hs with
  | init h =>
    subst h
    refine ⟨[], ?_, trivial, ?_, ?_, rfl, .start rfl⟩
    · exact hF.contents_init.symm
    · exact fun d hd => absurd hd List.not_mem_nil
    · exact fun w hw => absurd hw List.not_mem_nil
  | step _ hen ih =>
    obtain ⟨sent, h⟩ := ih
    exact h.clock hF hen

/-- What was sent is the beginning of what goes on for the packet under way. -/
theorem Inv.sent_prefix (h : Inv s sent) (hF : F.Lawful) :
    sent <+: forward s.hFull (s.packet ++ F.contents s.ndp.inputFifo) := by
  refine h.stage.prefix fun x hx => ?_
  rw [shown] at hx
  split_ifs at hx with he
  · cases hx
  · obtain rfl := Option.some.inj hx
    obtain ⟨l, hl⟩ := hF.contents_shown ((Bool.not_eq_true _).mp he)
    rw [hl]
    rfl

/-- Each packet goes on whole, or as its header if a queue for it is full, in the order of their
arrival. -/
theorem trimmer_forwards (hF : F.Lawful) (hs : (trimmer F).Reachable s) :
    s.accepted.map bridge = s.arrived ++ s.packet ++ F.contents s.ndp.inputFifo ∧
      (∀ d ∈ s.done, IsPacket d.1) ∧
      ∃ sent, s.out.map bridge = s.left ++ sent ∧
        sent <+: forward s.hFull (s.packet ++ F.contents s.ndp.inputFifo) := by
  obtain ⟨sent, h⟩ := inv_reachable hF hs
  exact ⟨h.words, h.whole, sent, h.out, h.sent_prefix hF⟩

/-- A packet for the first port, of three words. -/
def labPacket : List Beat :=
  [⟨⟨199#256 <<< 64 ||| 90#256 <<< 112, 0xffffffff#32, false⟩, 1#128 <<< 24⟩,
    ⟨⟨0#256, 0xffffffff#32, false⟩, 0#128⟩, ⟨⟨0#256, 0xffffffff#32, true⟩, 0#128⟩]

def labCycles : List Cycle :=
  (labPacket.map fun w => ⟨fun k => decide (k.val = 0), some (bridge w)⟩) ++
    List.replicate 8 ⟨fun k => decide (k.val = 0), none⟩

/-- The queue of the port is full, so that two words leave. -/
theorem trimmer_forwards_labPacket :
    let s := (trimmer (Fifo.ofList 16 16 1 default)).run start labCycles
    s.out.length = 2 ∧ s.done.map (·.1.length) = [3] ∧
      s.accepted.map bridge = s.arrived ++ s.packet ++ Fifo.contents _ s.ndp.inputFifo ∧
      ∃ sent, s.out.map bridge = s.left ++ sent := by
  intro s
  have hs : (trimmer (Fifo.ofList 16 16 1 default)).Reachable s :=
    (System.Reachable.init rfl).run (by decide +kernel)
  obtain ⟨hin, -, sent, hout, -⟩ := trimmer_forwards (Fifo.lawful_ofList ..) hs
  exact ⟨by decide +kernel, by decide +kernel, hin, sent, hout⟩

end Trimmer

end P4Survey.NetFpga
