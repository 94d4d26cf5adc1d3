import P4Survey.Lib.System
import P4Survey.Speedlight.Counting

/-! # A network of Speedlight switches

Switches with any number of ports, cabled in any way. Packets come in from hosts
and from the control planes at any time, and a packet that is queued in a switch
or on a cable may be taken up late, never, or more than once. The forwarding
logic is not part of the program, so a step names the port it has chosen.

The log is for the statements only. It has an entry for each packet that a unit
has handled, with the identifier the unit held before and after.
-/

namespace P4Survey.Speedlight
open Lib

inductive Direction
  | ingress
  | egress
  deriving DecidableEq

/-- The number of channels into the units of one direction. -/
def Config.neighbors (C : Config) : Direction → ℕ
  | .ingress => C.neighborsIng
  | .egress => C.neighborsEgr

/-- A processing unit. -/
structure ProcUnit (S : Type*) where
  switch : S
  direction : Direction
  port : BitVec 9
  deriving DecidableEq

/-- The number of ports of each switch and the cables between them. A port without a cable
leads to a host. -/
structure Topology (S : Type*) where
  ports : S → ℕ
  snapshots : ℕ
  snapshots_pos : 0 < snapshots
  link : S → BitVec 9 → Option (S × BitVec 9)
  link_port : ∀ {s t : S} {q p : BitVec 9}, link s q = some (t, p) →
    1 ≤ p.toNat ∧ p.toNat ≤ ports t

/-- An entry of the log. The packet left with the identifier `leaves`, unless it was dropped;
`prev` is the position of the entry that the same packet made at its previous unit. -/
structure Event (S : Type*) where
  unit : ProcUnit S
  initiation : Bool
  before : BitVec 16
  after : BitVec 16
  leaves : Option (BitVec 16)
  prev : Option ℕ

/-- A packet between the ingress and the egress of a switch. -/
structure Queued (S : Type*) where
  switch : S
  hdr : Headers
  payload : List Bool
  md : SnapshotMetadata
  tocpu : Tocpu
  ingressPort : BitVec 9
  egressPort : BitVec 9
  event : ℕ

/-- A packet on its way to a port of a switch. -/
structure Sent (S : Type*) where
  switch : S
  port : BitVec 9
  bits : List Bool
  event : ℕ

section

variable {S : Type*} [DecidableEq S]

namespace Topology

variable (N : Topology S)

def config (s : S) : Config := ⟨N.ports s, N.snapshots⟩

/-- The unit belongs to a port with rules. -/
def Has (u : ProcUnit S) : Prop := (N.config u.switch).HasPort u.port

/-- A packet can go from `u` to `v` without passing another unit. -/
def Follows (u v : ProcUnit S) : Prop :=
  match u.direction with
  | .ingress => v.direction = .egress ∧ v.switch = u.switch
  | .egress => v.direction = .ingress ∧ N.link u.switch u.port = some (v.switch, v.port)

end Topology

variable {N : Topology S}

structure Fabric (N : Topology S) where
  switch : (s : S) → Switch (N.config s)
  queued : List (Queued S)
  wire : List (Sent S)
  log : List (Event S)

namespace Fabric

def start (N : Topology S) : Fabric N := ⟨fun s => .zero (N.config s), [], [], []⟩

/-- The registers of one direction of a switch. -/
def regs (f : Fabric N) (s : S) :
    (d : Direction) → Regs (N.config s) ((N.config s).neighbors d)
  | .ingress => (f.switch s).ingress
  | .egress => (f.switch s).egress

/-- The identifier that a unit holds. -/
def held (f : Fabric N) (u : ProcUnit S) : BitVec 16 := (f.regs u.switch u.direction).heldId u.port

def counter (f : Fabric N) (u : ProcUnit S) : BitVec 32 :=
  (f.regs u.switch u.direction).counter.read u.port.toNat

/-- The snapshot value of a unit for an identifier. -/
def saved (f : Fabric N) (u : ProcUnit S) (i : BitVec 16) : BitVec 32 :=
  (f.regs u.switch u.direction).saved u.port i

/-- A packet at the ingress of a switch. -/
def arriving (f : Fabric N) (s : S) (port : BitVec 9) (h : Headers) (forward : BitVec 9) :
    Ingress (N.config s) :=
  ⟨(f.switch s).ingress, h, default, default, port, forward, 0#9, [], false⟩

/-- The packet goes through ingress and is queued. -/
def accept (f : Fabric N) (s : S) (port : BitVec 9) (h : Headers) (payload : List Bool)
    (forward : BitVec 9) (prev : Option ℕ) : Fabric N :=
  let x := f.arriving s port h forward
  let y := x.ingress
  { f with
    switch := Function.update f.switch s { f.switch s with ingress := y.regs }
    queued := ⟨s, y.hdr, payload, y.md, y.tocpu, port, y.egressSpec, f.log.length⟩ :: f.queued
    log := f.log ++ [⟨⟨s, .ingress, y.md.effectivePort⟩, decide (y.md.snapshotFeature = 2#2),
      x.regs.heldId y.md.effectivePort, y.regs.heldId y.md.effectivePort,
      some y.hdr.snapshotHeader.snapshotId, prev⟩] }

def enter (f : Fabric N) (s : S) (port : BitVec 9) (bits : List Bool) (forward : BitVec 9)
    (prev : Option ℕ) : Fabric N :=
  f.accept s port (parse bits).1 (parse bits).2 forward prev

/-- A packet at the egress of a switch. -/
def leaving (f : Fabric N) (q : Queued S) : Egress (N.config q.switch) :=
  ⟨(f.switch q.switch).egress, q.hdr, q.md, q.tocpu, q.ingressPort, q.egressPort, q.egressPort, [],
    false⟩

/-- The packet goes through egress and, unless it is dropped, onto the cable of its port. A
packet for the control plane does not pass a unit. -/
def transmit (f : Fabric N) (q : Queued S) : Fabric N :=
  let x := f.leaving q
  let y := x.egress
  if q.egressPort = cpuPort then f
  else
    { f with
      switch := Function.update f.switch q.switch { f.switch q.switch with egress := y.regs }
      wire :=
        match N.link q.switch q.egressPort with
        | some (t, p) =>
          if y.dropped then f.wire
          else ⟨t, p, deparse (ipv4ChksumCalcSnapshot y.hdr) q.payload, f.log.length⟩ :: f.wire
        | none => f.wire
      log := f.log ++ [⟨⟨q.switch, .egress, y.md.effectivePort⟩,
        decide (y.md.snapshotFeature = 2#2), x.regs.heldId y.md.effectivePort,
        y.regs.heldId y.md.effectivePort,
        if y.dropped then none else some y.hdr.snapshotHeader.snapshotId, some q.event⟩] }

end Fabric

inductive NetLabel (S : Type*)
  | inject (s : S) (port : BitVec 9) (bits : List Bool) (forward : BitVec 9)
  | receive (m : Sent S) (forward : BitVec 9)
  | transmit (q : Queued S)

/-- A complete packet of a host, of another switch or of the control plane. An initiation
names one of the ports, and snapshot identifiers are below the maximum. -/
structure Admissible (C : Config) (port : BitVec 9) (h : Headers) : Prop where
  framed : h.Framed
  ihl : 5 ≤ h.ipv4.ihl.toNat
  port : C.HasPort (h.unitPort port)
  snapshotId : h.snapshotHeaderValid = true → h.snapshotHeader.snapshotId.toNat < C.snapshots

/-- The forwarding logic chooses a port of the switch or the one of the control plane. -/
def Forwards (C : Config) (forward : BitVec 9) : Prop := forward = cpuPort ∨ C.HasPort forward

def network (N : Topology S) : System (Fabric N) (NetLabel S) where
  init f := f = .start N
  enabled f
    | .inject s port bits forward =>
      Admissible (N.config s) port (parse bits).1 ∧ Forwards (N.config s) forward
    | .receive m forward => m ∈ f.wire ∧ Forwards (N.config m.switch) forward
    | .transmit q => q ∈ f.queued
  next f
    | .inject s port bits forward => f.enter s port bits forward none
    | .receive m forward => f.enter m.switch m.port m.bits forward (some m.event)
    | .transmit q => f.transmit q

end

end P4Survey.Speedlight
