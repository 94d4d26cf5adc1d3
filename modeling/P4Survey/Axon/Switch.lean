import P4Survey.Lib.Register
import P4Survey.Lib.Wire
import P4Survey.Lib.Wiring

/-! # Axon source routing

`axon.p4`: a packet lists the ports by which it still has to leave a switch and
the ports by which it came in. When the packet is too short for the next header,
or a header stack is full, the parser stops: what it has extracted so far is
valid and the rest is payload.
-/

namespace P4Survey.Axon
open Lib

/-- The capacity of the header stacks `axon_fwdHop` and `axon_revHop`. -/
abbrev stackSize : ℕ := 64

structure AxonHead where
  preamble : BitVec 64
  axonType : BitVec 8
  axonLength : BitVec 16
  fwdHopCount : BitVec 8
  revHopCount : BitVec 8
  deriving DecidableEq, Inhabited

namespace AxonHead

def bits (h : AxonHead) : List Bool :=
  Lib.bits h.preamble ++ (Lib.bits h.axonType ++ (Lib.bits h.axonLength ++
    (Lib.bits h.fwdHopCount ++ Lib.bits h.revHopCount)))

def extract : List Bool → Option (AxonHead × List Bool) :=
  take 64 fun preamble => take 8 fun axonType => take 16 fun axonLength =>
    take 8 fun fwdHopCount => take 8 fun revHopCount =>
    fun l => some (⟨preamble, axonType, axonLength, fwdHopCount, revHopCount⟩, l)

@[simp] theorem extract_bits (h : AxonHead) (rest : List Bool) :
    extract (h.bits ++ rest) = some (h, rest) := by
  simp only [extract, bits, List.append_assoc, take_bits_append]

end AxonHead

/-- The valid headers; a stack is the list of its valid elements. -/
structure Headers where
  headValid : Bool
  head : AxonHead
  fwdHop : List (BitVec 8)
  revHop : List (BitVec 8)
  deriving DecidableEq, Inhabited

/-- What the parser hands to the ingress control, `my_metadata.headerLen` included. -/
structure Parsed where
  hdr : Headers
  headerLen : BitVec 16
  payload : List Bool
  deriving DecidableEq

/-- The loops `parse_next_fwdHop` and `parse_next_revHop`, with the elements still to be
extracted and the room left in the stack: what was extracted, what is left of the
packet, and whether the parser goes on. -/
def parseHops : ℕ → ℕ → List Bool → List (BitVec 8) × List Bool × Bool
  | 0, _, l => ([], l, true)
  | _ + 1, 0, l => ([], l, false)
  | count + 1, room + 1, l =>
    match field 8 l with
    | none => ([], l, false)
    | some (port, l) =>
      let r := parseHops count room l
      (port :: r.1, r.2.1, r.2.2)

def parseHead (l : List Bool) : Parsed :=
  match AxonHead.extract l with
  | none => ⟨default, 0#16, l⟩
  | some (head, l) =>
    let headerLen := 2#16 + head.fwdHopCount.setWidth 16 + head.revHopCount.setWidth 16
    if head.fwdHopCount = 0#8 then ⟨⟨true, head, [], []⟩, headerLen, l⟩
    else
      let fwd := parseHops head.fwdHopCount.toNat stackSize l
      if fwd.2.2 then
        let rev := parseHops head.revHopCount.toNat stackSize fwd.2.1
        ⟨⟨true, head, fwd.1, rev.1⟩, headerLen, rev.2.1⟩
      else ⟨⟨true, head, fwd.1, []⟩, headerLen, fwd.2.1⟩

/-- Packets that do not start with 64 zero bits go to the ingress control as they are. -/
def parse (l : List Bool) : Parsed :=
  match field 64 l with
  | none => ⟨default, 0#16, l⟩
  | some (preamble, _) => if preamble = 0#64 then parseHead l else ⟨default, 0#16, l⟩

def hopBits (l : List (BitVec 8)) : List Bool := l.flatMap fun port => bits port

def deparse (h : Headers) (payload : List Bool) : List Bool :=
  (if h.headValid then h.head.bits else []) ++ (hopBits h.fwdHop ++ (hopBits h.revHop ++ payload))

inductive Action where
  | drop
  | route
  | noAction
  deriving DecidableEq

/-- The entries of the two tables; the repository has no commands for this program. -/
structure Entries where
  dropPkt : Action
  routePkt : Bool → Bool → Action

/-- The action `route`; pushing onto a full stack loses its last element. -/
def Headers.route (ingressPort : BitVec 9) (h : Headers) : BitVec 9 × Headers :=
  ((h.fwdHop.getD 0 0#8).setWidth 9,
    { h with
      head := { h.head with
        fwdHopCount := h.head.fwdHopCount - 1#8, revHopCount := h.head.revHopCount + 1#8 }
      fwdHop := h.fwdHop.tail
      revHop := (ingressPort.setWidth 8 :: h.revHop).take stackSize })

/-- The egress port after an action, and the headers. -/
def Action.apply (ingressPort : BitVec 9) (h : Headers) : Action → BitVec 9 × Headers
  | .drop => (dropPort, h)
  | .route => h.route ingressPort
  | .noAction => (0#9, h)

def ingress (e : Entries) (ingressPort : BitVec 9) (p : Parsed) : BitVec 9 × Headers :=
  if p.hdr.head.axonLength ≠ p.headerLen then e.dropPkt.apply ingressPort p.hdr
  else (e.routePkt p.hdr.headValid (!p.hdr.fwdHop.isEmpty)).apply ingressPort p.hdr

/-- One packet through a switch: the port by which it leaves and its bits, if it does. -/
def switch (e : Entries) (ingressPort : BitVec 9) (l : List Bool) :
    Option (BitVec 9 × List Bool) :=
  let p := parse l
  let r := ingress e ingressPort p
  if r.1 = dropPort then none else some (r.1, deparse r.2 p.payload)

/-- The headers of a packet with the given forward and reverse hops. -/
def header (axonType : BitVec 8) (fwd rev : List (BitVec 8)) : Headers where
  headValid := true
  head := ⟨0#64, axonType, BitVec.ofNat 16 (2 + fwd.length + rev.length),
    BitVec.ofNat 8 fwd.length, BitVec.ofNat 8 rev.length⟩
  fwdHop := fwd
  revHop := rev

/-- A packet as a host sends it and as a switch passes it on. -/
def packet (axonType : BitVec 8) (fwd rev : List (BitVec 8)) (payload : List Bool) : List Bool :=
  deparse (header axonType fwd rev) payload

theorem parseHops_bits (hops : List (BitVec 8)) {room : ℕ} (hr : hops.length ≤ room)
    (rest : List Bool) :
    parseHops hops.length room (hopBits hops ++ rest) = (hops, rest, true) := by
  induction hops generalizing room with
  | nil => rfl
  | cons port hops ih =>
    cases room with
    | zero => simp at hr
    | succ room =>
      have hl : hopBits (port :: hops) ++ rest = bits port ++ (hopBits hops ++ rest) := by
        simp [hopBits]
      rw [List.length_cons, hl, parseHops, field_bits_append]
      dsimp only
      rw [ih (Nat.le_of_succ_le_succ hr)]

/-- Parsing undoes deparsing as long as the hops fit into the stacks. -/
theorem parse_packet (axonType : BitVec 8) {fwd rev : List (BitVec 8)} (payload : List Bool)
    (hne : fwd ≠ []) (hf : fwd.length ≤ stackSize) (hr : rev.length ≤ stackSize) :
    parse (packet axonType fwd rev payload) =
      ⟨header axonType fwd rev, (header axonType fwd rev).head.axonLength, payload⟩ := by
  have hfl : (BitVec.ofNat 8 fwd.length).toNat = fwd.length := by
    rw [BitVec.toNat_ofNat]
    exact Nat.mod_eq_of_lt (by simp only [stackSize] at hf; omega)
  have hrl : (BitVec.ofNat 8 rev.length).toNat = rev.length := by
    rw [BitVec.toNat_ofNat]
    exact Nat.mod_eq_of_lt (by simp only [stackSize] at hr; omega)
  have hpos : 0 < fwd.length := List.length_pos_iff.mpr hne
  have hcount : BitVec.ofNat 8 fwd.length ≠ 0#8 := by
    intro h0
    rw [h0] at hfl
    exact absurd hfl (Nat.ne_of_lt hpos)
  have hbits : packet axonType fwd rev payload =
      (header axonType fwd rev).head.bits ++ (hopBits fwd ++ (hopBits rev ++ payload)) := rfl
  have hpre (l : List Bool) : ∃ l', (header axonType fwd rev).head.bits ++ l = bits 0#64 ++ l' :=
    ⟨_, by rw [AxonHead.bits, List.append_assoc]; rfl⟩
  have hlen : 2#16 + (BitVec.ofNat 8 fwd.length).setWidth 16 +
      (BitVec.ofNat 8 rev.length).setWidth 16 = BitVec.ofNat 16 (2 + fwd.length + rev.length) := by
    apply BitVec.eq_of_toNat_eq
    simp only [BitVec.toNat_add, BitVec.toNat_setWidth, hfl, hrl, BitVec.toNat_ofNat]
    omega
  have hhead : parse (packet axonType fwd rev payload) =
      parseHead (packet axonType fwd rev payload) := by
    obtain ⟨l', hl'⟩ := hpre (hopBits fwd ++ (hopBits rev ++ payload))
    rw [parse, hbits, hl', field_bits_append]
    rfl
  rw [hhead, parseHead, hbits, AxonHead.extract_bits]
  dsimp only [header]
  rw [if_neg hcount, hfl, parseHops_bits fwd hf]
  dsimp only
  rw [if_pos rfl, hrl, parseHops_bits rev hr, hlen]

/-- A switch takes the first forward hop and notes the ingress port. -/
theorem switch_packet {e : Entries} (he : e.routePkt true true = .route) (axonType : BitVec 8)
    (ingressPort : BitVec 9) (port : BitVec 8) {fwd rev : List (BitVec 8)} (payload : List Bool)
    (hroom : (port :: fwd).length + rev.length ≤ stackSize) :
    switch e ingressPort (packet axonType (port :: fwd) rev payload) =
      some (port.setWidth 9, packet axonType fwd (ingressPort.setWidth 8 :: rev) payload) := by
  have hf : (port :: fwd).length ≤ stackSize := by omega
  have hr : rev.length ≤ stackSize := by omega
  have hr' : (ingressPort.setWidth 8 :: rev).length ≤ stackSize := by
    simp only [List.length_cons] at hroom ⊢
    omega
  have hport : port.setWidth 9 ≠ dropPort := by
    intro h
    have := congrArg BitVec.toNat h
    have := port.isLt
    simp only [dropPort, BitVec.toNat_setWidth, BitVec.toNat_ofNat] at *
    omega
  have hroute : (header axonType (port :: fwd) rev).route ingressPort =
      (port.setWidth 9, header axonType fwd (ingressPort.setWidth 8 :: rev)) := by
    have hlen : 2 + (port :: fwd).length + rev.length =
        2 + fwd.length + (ingressPort.setWidth 8 :: rev).length := by
      simp only [List.length_cons]
      omega
    have hfc : BitVec.ofNat 8 (port :: fwd).length - 1#8 = BitVec.ofNat 8 fwd.length := by
      rw [List.length_cons]
      bv_omega
    have hrc : BitVec.ofNat 8 rev.length + 1#8 =
        BitVec.ofNat 8 (ingressPort.setWidth 8 :: rev).length := by
      rw [List.length_cons]
      bv_omega
    unfold Headers.route header
    simp only [List.getD_cons_zero, List.tail_cons, hlen, hfc, hrc, List.take_of_length_le hr']
  unfold switch
  rw [parse_packet axonType payload (List.cons_ne_nil _ _) hf hr]
  have hin : ingress e ingressPort ⟨header axonType (port :: fwd) rev,
      (header axonType (port :: fwd) rev).head.axonLength, payload⟩ =
      (header axonType (port :: fwd) rev).route ingressPort := by
    rw [ingress, if_neg (fun h => h rfl)]
    change Action.apply ingressPort _ (e.routePkt true true) = _
    rw [he]
    rfl
  dsimp only
  rw [hin, hroute, if_neg hport]
  rfl

section Network

variable {σ : Type*} (e : Entries) (w : Wiring σ (BitVec 9))

/-- A packet that enters switch `s` by port `p` is carried along the links until it
comes out of a port without one. -/
def carry : ℕ → σ → BitVec 9 → List Bool → Option (σ × BitVec 9 × List Bool)
  | 0, _, _, _ => none
  | fuel + 1, s, p, l =>
    match switch e p l with
    | none => none
    | some (q, l') =>
      match w.link s q with
      | none => some (s, q, l')
      | some (s', p') => carry fuel s' p' l'

/-- The port numbers that a hop can hold. -/
def narrow (l : List (BitVec 9)) : List (BitVec 8) := l.map fun p => p.setWidth 8

def wide (l : List (BitVec 8)) : List (BitVec 9) := l.map fun p => p.setWidth 9

theorem narrow_wide (l : List (BitVec 8)) : narrow (wide l) = l := by
  rw [narrow, wide, List.map_map]
  apply List.map_id''
  intro p
  apply BitVec.eq_of_toNat_eq
  have := p.isLt
  simp only [Function.comp_apply, BitVec.toNat_setWidth]
  omega

theorem wide_narrow {l : List (BitVec 9)} (h : ∀ p ∈ l, p.toNat < 256) : wide (narrow l) = l := by
  induction l with
  | nil => rfl
  | cons p l ih =>
    have hp : (p.setWidth 8).setWidth 9 = p := by
      apply BitVec.eq_of_toNat_eq
      have := h p List.mem_cons_self
      simp only [BitVec.toNat_setWidth]
      omega
    rw [narrow, wide, List.map_cons, List.map_cons, hp]
    exact congrArg _ (ih fun q hq => h q (List.mem_cons_of_mem p hq))

variable {e w} {s t : σ} {p q : BitVec 9} {back noted : List (BitVec 9)}

theorem ports_of_trace (hports : ∀ {s p x}, w.link s p = some x → p.toNat < 256)
    {route : List (BitVec 9)} (hp : p.toNat < 256) (hb : ∀ x ∈ back, x.toNat < 256)
    (h : w.trace s p route back = some (t, q, noted)) : ∀ x ∈ noted, x.toNat < 256 := by
  induction route generalizing s p back with
  | nil => simp [Wiring.trace] at h
  | cons q' route ih =>
    have hb' : ∀ x ∈ p :: back, x.toNat < 256 := by
      intro x hx
      rcases List.mem_cons.mp hx with rfl | hx
      · exact hp
      · exact hb x hx
    rw [Wiring.trace_cons] at h
    rcases Wiring.leave_eq_some h with ⟨-, -, he⟩ | ⟨s', p', hl, h'⟩
    · obtain ⟨-, -, rfl⟩ : t = s ∧ q = q' ∧ noted = p :: back := by simpa using he
      exact hb'
    · exact ih (hports (w.symm hl)) hb' h'

/-- The network carries a packet along its route, and the reverse hops are those noted. -/
theorem carry_packet (he : e.routePkt true true = .route) (axonType : BitVec 8)
    (payload : List Bool) {route : List (BitVec 8)} {fuel : ℕ} (hfuel : route.length ≤ fuel)
    (hroom : route.length + back.length ≤ stackSize)
    (h : w.trace s p (wide route) back = some (t, q, noted)) :
    carry e w fuel s p (packet axonType route (narrow back) payload) =
      some (t, q, packet axonType [] (narrow noted) payload) := by
  induction route generalizing s p back fuel with
  | nil => simp [wide, Wiring.trace] at h
  | cons port route ih =>
    cases fuel with
    | zero => simp at hfuel
    | succ fuel =>
      have hlen : (port :: route).length + (narrow back).length ≤ stackSize := by
        simpa [narrow] using hroom
      have hsw := switch_packet he axonType p port payload hlen
      have hw : wide (port :: route) = port.setWidth 9 :: wide route := rfl
      rw [hw, Wiring.trace_cons] at h
      rcases Wiring.leave_eq_some h with ⟨hl, hnil, heq⟩ | ⟨s', p', hl, h'⟩
      · obtain ⟨rfl, rfl, rfl⟩ : t = s ∧ q = port.setWidth 9 ∧ noted = p :: back := by
          simpa using heq
        obtain rfl : route = [] := List.map_eq_nil_iff.mp hnil
        simp only [carry, hsw, hl]
        rfl
      · have hroom' : route.length + (p :: back).length ≤ stackSize := by
          simp only [List.length_cons] at hroom ⊢
          omega
        have hrest := ih (Nat.le_of_succ_le_succ hfuel) hroom' h'
        simp only [carry, hsw, hl]
        exact hrest

/-- A packet that gets through the network brings its receiver a way back: the reply
that takes its reverse hops as forward hops arrives where the packet was sent, and
brings the forward hops of the packet as its own reverse hops. -/
theorem reply_retraces (he : e.routePkt true true = .route)
    (hports : ∀ {s p x}, w.link s p = some x → p.toNat < 256) (hp : p.toNat < 256)
    (hout : w.link s p = none) {route : List (BitVec 8)} (hroom : route.length ≤ stackSize)
    (h : w.trace s p (wide route) [] = some (t, q, noted)) (type type' : BitVec 8)
    (payload payload' : List Bool) :
    ∃ back : List (BitVec 8), back.length = route.length ∧ ∀ fuel, route.length ≤ fuel →
      carry e w fuel s p (packet type route [] payload) =
        some (t, q, packet type [] back payload) ∧
      carry e w fuel t q (packet type' back [] payload') =
        some (s, p, packet type' [] route payload') := by
  have hlen : (narrow noted).length = route.length := by
    have := Wiring.length_of_trace h
    simpa [narrow, wide] using this
  have hback : wide (narrow noted) = noted :=
    wide_narrow (ports_of_trace hports hp (fun _ hx => absurd hx List.not_mem_nil) h)
  refine ⟨narrow noted, hlen, fun fuel hfuel => ⟨?_, ?_⟩⟩
  · have hroom' : route.length + ([] : List (BitVec 9)).length ≤ stackSize := hroom
    have hcarry := carry_packet he type payload hfuel hroom' h
    exact hcarry
  · have hrev := Wiring.trace_outer hout h
    have hroom' : (narrow noted).length + ([] : List (BitVec 9)).length ≤ stackSize :=
      hlen.symm ▸ hroom
    rw [← hback] at hrev
    have hcarry := carry_packet he type' payload' (hlen.symm ▸ hfuel) hroom' hrev
    rwa [narrow_wide] at hcarry

end Network

/-- One entry that routes packets with a header and a forward hop, and drops for the rest. -/
def dropOthers : Entries where
  dropPkt := .drop
  routePkt headValid fwdValid := if headValid && fwdValid then .route else .drop

theorem twoSwitches_symm {s : Bool} {p : BitVec 9} {s' : Bool} {p' : BitVec 9}
    (h : (if p = 2#9 then some (!s, 2#9) else none) = some (s', p')) :
    (if p' = 2#9 then some (!s', 2#9) else none) = some (s, p) := by
  split_ifs at h with hp
  obtain ⟨rfl, rfl⟩ := Prod.mk.inj (Option.some.inj h)
  rw [if_pos rfl, Bool.not_not, hp]

/-- Two switches, linked by their ports 2. -/
def twoSwitches : Wiring Bool (BitVec 9) where
  link s p := if p = 2#9 then some (!s, 2#9) else none
  symm := twoSwitches_symm

/-- Out of the first switch by port 2, out of the second by port 3, and back. -/
theorem reply_retraces_twoSwitches :
    ∃ back : List (BitVec 8), back.length = 2 ∧
      carry dropOthers twoSwitches 2 false 1#9 (packet 1#8 [2#8, 3#8] [] [true]) =
        some (true, 3#9, packet 1#8 [] back [true]) ∧
      carry dropOthers twoSwitches 2 true 3#9 (packet 0#8 back [] []) =
        some (false, 1#9, packet 0#8 [] [2#8, 3#8] []) := by
  have hports {s : Bool} {p : BitVec 9} {x : Bool × BitVec 9}
      (h : twoSwitches.link s p = some x) : p.toNat < 256 := by
    unfold twoSwitches at h
    dsimp only at h
    split_ifs at h with hp
    rw [hp]
    decide
  have he : dropOthers.routePkt true true = .route := rfl
  have hout : twoSwitches.link false 1#9 = none := by decide
  have htrace : twoSwitches.trace false 1#9 (wide [2#8, 3#8]) [] = some (true, 3#9, [2#9, 1#9]) := by
    decide
  obtain ⟨back, hlen, hall⟩ := reply_retraces he hports (by decide) hout (by decide) htrace
    1#8 0#8 [true] []
  exact ⟨back, hlen, hall 2 (by decide)⟩

end P4Survey.Axon
