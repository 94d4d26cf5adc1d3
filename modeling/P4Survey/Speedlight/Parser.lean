import P4Survey.Lib.Inet

/-! # Headers and parser of Speedlight

The snapshot header follows an IPv4 option. The option numbers tell the packets
of other switches from the initiations of the control plane; a packet without
either comes from a host.
-/

namespace P4Survey.Speedlight
open Lib

structure Ipv4Option where
  copyFlag : BitVec 1
  optClass : BitVec 2
  option : BitVec 5
  optionLength : BitVec 8
  deriving DecidableEq, Inhabited

structure SnapshotHeader where
  snapshotId : BitVec 16
  pad1 : BitVec 7
  portId : BitVec 9
  pad2 : BitVec 16
  deriving DecidableEq, Inhabited

/-- The notification for the control plane. -/
structure Tocpu where
  messageType : BitVec 8
  currentPort : BitVec 16
  currentId : BitVec 16
  deriving DecidableEq, Inhabited

structure Headers where
  ethernetValid : Bool
  ethernet : Ethernet
  tocpuNotifValid : Bool
  tocpuNotif : Tocpu
  ipv4Valid : Bool
  ipv4 : Ipv4
  ipv4OptionValid : Bool
  ipv4Option : Ipv4Option
  snapshotHeaderValid : Bool
  snapshotHeader : SnapshotHeader
  deriving DecidableEq, Inhabited

namespace Ipv4Option

def bits (h : Ipv4Option) : List Bool :=
  Lib.bits h.copyFlag ++ (Lib.bits h.optClass ++ (Lib.bits h.option ++ Lib.bits h.optionLength))

def extract : List Bool → Option (Ipv4Option × List Bool) :=
  take 1 fun copyFlag => take 2 fun optClass => take 5 fun option => take 8 fun optionLength =>
    fun l => some (⟨copyFlag, optClass, option, optionLength⟩, l)

@[simp] theorem extract_bits (h : Ipv4Option) (rest : List Bool) :
    extract (h.bits ++ rest) = some (h, rest) := by
  simp only [extract, bits, List.append_assoc, take_bits_append]

end Ipv4Option

namespace SnapshotHeader

def bits (h : SnapshotHeader) : List Bool :=
  Lib.bits h.snapshotId ++ (Lib.bits h.pad1 ++ (Lib.bits h.portId ++ Lib.bits h.pad2))

def extract : List Bool → Option (SnapshotHeader × List Bool) :=
  take 16 fun snapshotId => take 7 fun pad1 => take 9 fun portId => take 16 fun pad2 =>
    fun l => some (⟨snapshotId, pad1, portId, pad2⟩, l)

@[simp] theorem extract_bits (h : SnapshotHeader) (rest : List Bool) :
    extract (h.bits ++ rest) = some (h, rest) := by
  simp only [extract, bits, List.append_assoc, take_bits_append]

end SnapshotHeader

namespace Tocpu

def bits (h : Tocpu) : List Bool :=
  Lib.bits h.messageType ++ (Lib.bits h.currentPort ++ Lib.bits h.currentId)

def extract : List Bool → Option (Tocpu × List Bool) :=
  take 8 fun messageType => take 16 fun currentPort => take 16 fun currentId =>
    fun l => some (⟨messageType, currentPort, currentId⟩, l)

end Tocpu

/-- The option of a packet from another switch. -/
def ipv4OptionSs : BitVec 5 := 31#5

/-- The option of an initiation. -/
def ipv4OptionSsCpu : BitVec 5 := 30#5

def parseSnapshot (h : Headers) (l : List Bool) : Headers × List Bool :=
  match SnapshotHeader.extract l with
  | none => (h, l)
  | some (x, l) => ({ h with snapshotHeaderValid := true, snapshotHeader := x }, l)

def parseIpv4Option (h : Headers) (l : List Bool) : Headers × List Bool :=
  match Ipv4Option.extract l with
  | none => (h, l)
  | some (x, l) =>
    let h := { h with ipv4OptionValid := true, ipv4Option := x }
    if x.option = ipv4OptionSs ∨ x.option = ipv4OptionSsCpu then parseSnapshot h l else (h, l)

def parseIpv4 (h : Headers) (l : List Bool) : Headers × List Bool :=
  match Ipv4.extract l with
  | none => (h, l)
  | some (x, l) =>
    let h := { h with ipv4Valid := true, ipv4 := x }
    if x.ihl = 5#4 then (h, l) else parseIpv4Option h l

def parseTocpu (h : Headers) (l : List Bool) : Headers × List Bool :=
  match Tocpu.extract l with
  | none => (h, l)
  | some (x, l) => ({ h with tocpuNotifValid := true, tocpuNotif := x }, l)

/-- The mask of the second case is all ones, so it takes the type zero only and the
other types go on to the notification. -/
def parseEthernet (h : Headers) (l : List Bool) : Headers × List Bool :=
  match Ethernet.extract l with
  | none => (h, l)
  | some (x, l) =>
    let h := { h with ethernetValid := true, ethernet := x }
    if x.etherType = 0x800#16 then parseIpv4 h l
    else if x.etherType = 0#16 then (h, l)
    else parseTocpu h l

/-- The headers of a packet and its payload. -/
def parse (l : List Bool) : Headers × List Bool := parseEthernet default l

def deparse (h : Headers) (payload : List Bool) : List Bool :=
  (if h.ethernetValid then h.ethernet.bits else []) ++
    ((if h.tocpuNotifValid then h.tocpuNotif.bits else []) ++
      ((if h.ipv4Valid then h.ipv4.bits else []) ++
        ((if h.ipv4OptionValid then h.ipv4Option.bits else []) ++
          ((if h.snapshotHeaderValid then h.snapshotHeader.bits else []) ++ payload))))

/-- The field list of the checksum is fixed, so headers that are not valid are in it. -/
def ipv4ChksumCalcSnapshot (h : Headers) : Headers :=
  let ip := h.ipv4
  let opt := h.ipv4Option
  let snap := h.snapshotHeader
  { h with
    ipv4 := { ip with hdrChecksum := csum16 (bits ip.version ++ bits ip.ihl ++ bits ip.diffserv ++
      bits ip.totalLen ++ bits ip.identification ++ bits ip.flags ++ bits ip.fragOffset ++
      bits ip.ttl ++ bits ip.protocol ++ bits ip.srcAddr ++ bits ip.dstAddr ++ opt.bits ++
      snap.bits) } }

namespace Headers

/-- What the option of a packet says about it. -/
def IsInitiation (h : Headers) : Prop :=
  h.ipv4OptionValid = true ∧ h.ipv4Option.option = ipv4OptionSsCpu

instance (h : Headers) : Decidable h.IsInitiation := inferInstanceAs (Decidable (_ ∧ _))

/-- A complete IPv4 packet as the parser takes it apart. -/
structure Framed (h : Headers) : Prop where
  ethernet : h.ethernetValid = true ∧ h.ethernet.etherType = 0x800#16
  tocpuNotif : h.tocpuNotifValid = false ∧ h.tocpuNotif = default
  ipv4 : h.ipv4Valid = true
  ipv4Option : if h.ipv4.ihl = 5#4 then h.ipv4OptionValid = false ∧ h.ipv4Option = default
    else h.ipv4OptionValid = true
  snapshotHeader :
    if h.ipv4OptionValid = true ∧
        (h.ipv4Option.option = ipv4OptionSs ∨ h.ipv4Option.option = ipv4OptionSsCpu) then
      h.snapshotHeaderValid = true
    else h.snapshotHeaderValid = false ∧ h.snapshotHeader = default

end Headers

/-- Parsing undoes deparsing. -/
theorem parse_deparse {h : Headers} (hf : h.Framed) (payload : List Bool) :
    parse (deparse h payload) = (h, payload) := by
  obtain ⟨⟨hev, het⟩, ⟨htv, ht⟩, hiv, hopt, hsnap⟩ := hf
  rcases h with ⟨ev, e, tv, t, iv, ip, ov, opt, sv, snap⟩
  dsimp only at hev het htv ht hiv hopt hsnap
  subst ev tv t iv
  simp only [parse, parseEthernet, deparse, if_true, Bool.false_eq_true, if_false,
    Ethernet.extract_bits, List.nil_append, het, parseIpv4, Ipv4.extract_bits]
  by_cases hihl : ip.ihl = 5#4
  · rw [if_pos hihl] at hopt ⊢
    obtain ⟨rfl, rfl⟩ := hopt
    rw [if_neg (by simp)] at hsnap
    obtain ⟨rfl, rfl⟩ := hsnap
    rfl
  · rw [if_neg hihl] at hopt ⊢
    subst ov
    simp only [if_true, parseIpv4Option, Ipv4Option.extract_bits]
    by_cases hss : opt.option = ipv4OptionSs ∨ opt.option = ipv4OptionSsCpu
    · rw [if_pos ⟨rfl, hss⟩] at hsnap
      subst sv
      simp only [if_pos hss, if_true, parseSnapshot, SnapshotHeader.extract_bits]
      rfl
    · rw [if_neg (fun h => hss h.2)] at hsnap
      obtain ⟨rfl, rfl⟩ := hsnap
      rw [if_neg hss]
      rfl

end P4Survey.Speedlight
