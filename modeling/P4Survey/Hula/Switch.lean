import P4Survey.Lib.Inet
import P4Survey.Lib.Register
import P4Survey.Lib.System

/-! # The HULA switch

A probe travels along its source route and collects the largest queue depth on
the way. The destination ToR keeps the best path from each source and returns
the probes that improve on it; on their way back these set the next hop to the
destination. Data packets follow the next hop, and a flow keeps the port its
first packet was given.
-/

namespace P4Survey.Hula
open Lib

section Headers

/-- A header and its validity bit. The fields of an invalid header have what was left in them. -/
structure Header (α : Type) where
  isValid : Bool
  fields : α
  deriving DecidableEq, Inhabited

structure SrcRoute where
  bos : BitVec 1
  port : BitVec 15
  deriving DecidableEq, Inhabited

structure HulaHdr where
  dir : BitVec 1
  qdepth : BitVec 15
  digest : BitVec 32
  deriving DecidableEq, Inhabited

/-- The valid elements of the header stack are the list `srcRoutes`. -/
structure Headers where
  ethernet : Ethernet
  srcRoutes : List SrcRoute
  ipv4 : Header Ipv4
  udp : Header Udp
  hula : Header HulaHdr
  deriving DecidableEq, Inhabited

/-- The source, the destination and the UDP source port that the hash is taken of. -/
def Headers.flow (h : Headers) : BitVec 32 × BitVec 32 × BitVec 16 :=
  (h.ipv4.fields.srcAddr, h.ipv4.fields.dstAddr, h.udp.fields.srcPort)

/-- The hash has base 0 and 65536 values, so it is the check sequence itself. -/
def flowHash (flow : BitVec 32 × BitVec 32 × BitVec 16) : ℕ :=
  (crc16 (bits flow.1 ++ (bits flow.2.1 ++ bits flow.2.2))).toNat

end Headers

section Tables

/-- An entry of a table with a longest-prefix match on an address. -/
structure Route (α : Type) where
  addr : BitVec 32
  len : ℕ
  action : α
  deriving DecidableEq

def Route.covers {α : Type} (r : Route α) (a : BitVec 32) : Bool :=
  a >>> (32 - r.len) == r.addr >>> (32 - r.len)

/-- The entry that covers the address with the most bits. -/
def lpm {α : Type} (l : List (Route α)) (a : BitVec 32) : Option (Route α) :=
  l.foldl (fun best r => if r.covers a && best.all (·.len < r.len) then some r else best) none

inductive FwdAction
  | hulaDst (index : BitVec 32)
  | srcRouteNhop
  deriving DecidableEq

inductive SrcAction
  | drop
  | srcRouteNhop
  deriving DecidableEq

inductive NhopAction
  | hulaGetNhop (index : BitVec 32)
  | drop
  deriving DecidableEq

inductive DmacAction
  | setDmac (dstAddr : BitVec 48)
  | nop
  deriving DecidableEq

/-- The entries of the five tables. The only action of `hula_bwd` is `hula_set_nhop`. -/
structure Tables where
  hulaFwd : List ((BitVec 32 × BitVec 32) × FwdAction)
  hulaBwd : List (Route (BitVec 32))
  hulaSrc : List (BitVec 32 × SrcAction)
  hulaNhop : List (Route NhopAction)
  dmac : List (BitVec 9 × DmacAction)

namespace Tables

variable (t : Tables)

def fwdAction (dstAddr srcAddr : BitVec 32) : FwdAction :=
  (t.hulaFwd.lookup (dstAddr, srcAddr)).getD .srcRouteNhop

def srcAction (srcAddr : BitVec 32) : SrcAction := (t.hulaSrc.lookup srcAddr).getD .srcRouteNhop

def nhopAction (dstAddr : BitVec 32) : NhopAction :=
  ((lpm t.hulaNhop dstAddr).map Route.action).getD .drop

def dmacAction (egressSpec : BitVec 9) : DmacAction := (t.dmac.lookup egressSpec).getD .nop

end Tables

end Tables

structure Regs where
  srcindexQdepth : Register 15 32
  srcindexDigest : Register 32 32
  dstindexNhop : Register 16 32
  flowPort : Register 16 65536

/-- A packet in the tables of ingress. -/
structure Pass where
  regs : Regs
  hdr : Headers
  index : BitVec 32
  ingressPort : BitVec 9
  egressSpec : BitVec 9

namespace Pass

section Actions

def drop (x : Pass) : Pass := { x with egressSpec := dropPort }

def updateTtl (x : Pass) : Pass :=
  { x with hdr.ipv4.fields.ttl := x.hdr.ipv4.fields.ttl - 1#8 }

def setDmac (x : Pass) (dstAddr : BitVec 48) : Pass :=
  { x with
    hdr.ethernet := { x.hdr.ethernet with srcAddr := x.hdr.ethernet.dstAddr, dstAddr := dstAddr } }

def srcRouteNhop (x : Pass) : Pass :=
  { x with
    egressSpec := (x.hdr.srcRoutes.headD default).port.setWidth 9
    hdr.srcRoutes := x.hdr.srcRoutes.drop 1 }

def hulaDst (x : Pass) (index : BitVec 32) : Pass := { x with index := index }

def hulaSetNhop (x : Pass) (index : BitVec 32) : Pass :=
  { x with
    regs.dstindexNhop := x.regs.dstindexNhop.write index.toNat (x.ingressPort.setWidth 16) }

def hulaGetNhop (x : Pass) (index : BitVec 32) : Pass :=
  { x with egressSpec := (x.regs.dstindexNhop.read index.toNat).setWidth 9 }

def changeBestPathAtDst (x : Pass) : Pass :=
  { x with
    regs := { x.regs with
      srcindexQdepth := x.regs.srcindexQdepth.write x.index.toNat x.hdr.hula.fields.qdepth
      srcindexDigest := x.regs.srcindexDigest.write x.index.toNat x.hdr.hula.fields.digest } }

def returnHulaToSrc (x : Pass) : Pass :=
  { x with hdr.hula.fields.dir := 1#1, egressSpec := x.ingressPort }

end Actions

section Apply

variable (t : Tables)

/-- The branch of a probe at its destination ToR. -/
def atDst (x : Pass) : Pass :=
  let oldQdepth := x.regs.srcindexQdepth.read x.index.toNat
  if oldQdepth > x.hdr.hula.fields.qdepth then x.changeBestPathAtDst.returnHulaToSrc
  else
    let oldDigest := x.regs.srcindexDigest.read x.index.toNat
    if oldDigest = x.hdr.hula.fields.digest then
      drop { x with
        regs.srcindexQdepth := x.regs.srcindexQdepth.write x.index.toNat x.hdr.hula.fields.qdepth }
    else x.drop

def hulaFwd (x : Pass) : Pass :=
  match t.fwdAction x.hdr.ipv4.fields.dstAddr x.hdr.ipv4.fields.srcAddr with
  | .hulaDst index => (x.hulaDst index).atDst
  | .srcRouteNhop => x.srcRouteNhop

def hulaBwd (x : Pass) : Pass :=
  match lpm t.hulaBwd x.hdr.ipv4.fields.dstAddr with
  | some r => x.hulaSetNhop r.action
  | none => x

def hulaSrc (x : Pass) : Pass :=
  match t.srcAction x.hdr.ipv4.fields.srcAddr with
  | .drop => x.drop
  | .srcRouteNhop => x.srcRouteNhop

def hulaNhop (x : Pass) : Pass :=
  match t.nhopAction x.hdr.ipv4.fields.dstAddr with
  | .hulaGetNhop index => x.hulaGetNhop index
  | .drop => x.drop

def dmac (x : Pass) : Pass :=
  match t.dmacAction x.egressSpec with
  | .setDmac dstAddr => x.setDmac dstAddr
  | .nop => x

/-- The branch of a data packet, up to the table `dmac`. -/
def dataPort (x : Pass) : Pass :=
  let hash := flowHash x.hdr.flow
  let port := x.regs.flowPort.read hash
  if port = 0#16 then
    let x := x.hulaNhop t
    { x with regs.flowPort := x.regs.flowPort.write hash (x.egressSpec.setWidth 16) }
  else { x with egressSpec := port.setWidth 9 }

def branches (x : Pass) : Pass :=
  if x.hdr.hula.isValid then
    if x.hdr.hula.fields.dir = 0#1 then x.hulaFwd t else (x.hulaBwd t).hulaSrc t
  else if x.hdr.ipv4.isValid then (x.dataPort t).dmac t
  else x.drop

def ingress (x : Pass) : Pass :=
  let x := x.branches t
  if x.hdr.ipv4.isValid then x.updateTtl else x

end Apply

end Pass

/-- A probe on its forward path takes the larger of its own depth and the depth of the queue. -/
def egress (deqQdepth : BitVec 19) (h : Headers) : Headers :=
  if h.hula.isValid ∧ h.hula.fields.dir = 0#1 then
    if h.hula.fields.qdepth < deqQdepth.setWidth 15 then
      { h with hula.fields.qdepth := deqQdepth.setWidth 15 }
    else h
  else h

/-- A packet as it arrives. The port packets are dropped at is none a packet comes from. -/
structure Arrival where
  hdr : Headers
  port : BitVec 9
  deqQdepth : BitVec 19
  port_ne : port ≠ dropPort
  deriving DecidableEq

def Arrival.pass (a : Arrival) (regs : Regs) : Pass := ⟨regs, a.hdr, 0#32, a.port, 0#9⟩

/-- The registers after a packet. -/
def Tables.regs (t : Tables) (r : Regs) (a : Arrival) : Regs := ((a.pass r).ingress t).regs

/-- The port and the headers a packet leaves with, unless it is dropped. -/
def Tables.emit (t : Tables) (r : Regs) (a : Arrival) : Option (BitVec 9 × Headers) :=
  let x := (a.pass r).ingress t
  if x.egressSpec = dropPort then none else some (x.egressSpec, egress a.deqQdepth x.hdr)

section Runs

/-- The initial depths and next hops that the control plane writes. -/
structure Boot where
  qdepth : Register 15 32
  nhop : Register 9 32

def Boot.regs (b : Boot) : Regs :=
  ⟨b.qdepth, .fill _ 0#32, ⟨fun i => (b.nhop.cell i).setWidth 16⟩, .fill _ 0#16⟩

/-- A packet the switch has handled and the registers it found. -/
structure Entry where
  arrival : Arrival
  regs : Regs

/-- A switch and the packets it has handled, the last one first. -/
structure Switch where
  regs : Regs
  log : List Entry

variable (t : Tables)

/-- How the packet has left. -/
def Entry.out (e : Entry) : Option (BitVec 9 × Headers) := t.emit e.regs e.arrival

def Switch.receive (s : Switch) (a : Arrival) : Switch :=
  ⟨t.regs s.regs a, ⟨a, s.regs⟩ :: s.log⟩

def switch (b : Boot) : System Switch Arrival where
  init s := s = ⟨b.regs, []⟩
  enabled _ _ := True
  next s a := s.receive t a

/-- The routes to the three ToRs, which all switches have. -/
def torRoutes : List (Route (BitVec 32)) :=
  [⟨0x0a000100#32, 24, 0#32⟩, ⟨0x0a000200#32, 24, 1#32⟩, ⟨0x0a000300#32, 24, 2#32⟩]

/-- The first ToR, as `s1-commands.txt` sets it up. -/
def s1 : Tables where
  hulaFwd :=
    [((0x0a000100#32, 0x0a000100#32), .hulaDst 0#32),
      ((0x0a000100#32, 0x0a000200#32), .hulaDst 1#32),
      ((0x0a000100#32, 0x0a000300#32), .hulaDst 2#32)]
  hulaBwd := torRoutes
  hulaSrc := [(0x0a000100#32, .drop)]
  hulaNhop := torRoutes.map fun r => ⟨r.addr, r.len, .hulaGetNhop r.action⟩
  dmac := [(1#9, .setDmac 0x000000000101#48)]

def s1Boot : Boot where
  qdepth := (((Register.fill 32 0#15).write 0 256#15).write 1 256#15).write 2 256#15
  nhop := (Register.fill 32 0#9).write 0 1#9

end Runs

end P4Survey.Hula
