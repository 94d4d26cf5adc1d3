import P4Survey.NetChain.Parser

/-! # The client, and the groups of the controller

The requests that `read_req` and `write_req` of `nc_socket.py` put on the wire,
and the lists of keys that `failure_recovery` makes of the virtual groups. A
result `none` stands for the exception with which the script ends.
-/

namespace P4Survey.NetChain
open Lib

/-- The dictionaries `ENTRY` and `chains`: the keys of a virtual node, and for each
virtual node in the order of the loops the addresses of its chain. -/
structure Ring where
  entry : ℕ → Option (List ℕ)
  chains : List (ℕ × List (BitVec 32))

/-- The loop of `get_chain_of_key`. -/
def getChainOfKey (entry : ℕ → Option (List ℕ)) (key : ℕ) :
    List (ℕ × List (BitVec 32)) → Option (List (BitVec 32))
  | [] => some []
  | (i, chain) :: l =>
    match entry i with
    | none => none
    | some keys => if key ∈ keys then some chain else getChainOfKey entry key l

/-- The quotient that `read_req` and `write_req` compute for a key, in integers. -/
def requestVgroup (numKv sizeVgroup key : ℕ) : Option ℕ :=
  if sizeVgroup = 0 ∨ numKv / sizeVgroup = 0 then none
  else some ((key - 2018) / (numKv / sizeVgroup))

/-- `struct.pack` with the format `>H`. -/
def packH (v : ℕ) : Option (BitVec 16) := if v < 2 ^ 16 then some (BitVec.ofNat 16 v) else none

/-- The header fields that the network stack of the client fills in. -/
structure Socket where
  ethernet : Ethernet
  ipv4 : Ipv4
  udp : Udp

/-- A datagram of the socket with an overlay list and a NetChain header in it. -/
def Socket.sendto (s : Socket) (overlay : List (BitVec 32)) (ncHdr : NcHdr) (dst : BitVec 32) :
    Headers :=
  let size := (overlayBits overlay ++ ncHdr.bits).length / 8
  { ethernetValid := true
    ethernet := { s.ethernet with etherType := 0x800#16 }
    ipv4Valid := true
    ipv4 := { s.ipv4 with
      version := 4#4
      ihl := 5#4
      totalLen := BitVec.ofNat 16 (20 + 8 + size)
      protocol := 17#8
      dstAddr := dst }
    udpValid := true
    udp := { s.udp with dstPort := 8888#16, len := BitVec.ofNat 16 (8 + size) }
    tcpValid := false
    tcp := default
    overlay := overlay
    ncHdrValid := true
    ncHdr := ncHdr }

/-- The request of `read_req` for the key at an index of `ENTRY[1]`. -/
def readReq (s : Socket) (r : Ring) (numKv sizeVgroup index : ℕ) : Option Headers := do
  let keys ← r.entry 1
  let key ← keys[index]?
  let vgroup ← requestVgroup numKv sizeVgroup key
  let vgroup ← packH vgroup
  let chain ← getChainOfKey r.entry key r.chains
  let s0 ← chain[0]?
  let s1 ← chain[1]?
  let s2 ← chain[2]?
  let readIp ← chain.getLast?
  return s.sendto [s2, s1, s0, 0#32] ⟨10#8, 4#8, 0#16, BitVec.ofNat 128 key, 0#128, vgroup⟩ readIp

/-- The request of `write_req` for the key at an index of `ENTRY[1]`. -/
def writeReq (s : Socket) (r : Ring) (numKv sizeVgroup index : ℕ) : Option Headers := do
  let keys ← r.entry 1
  let key ← keys[index]?
  let vgroup ← requestVgroup numKv sizeVgroup key
  let vgroup ← packH vgroup
  let chain ← getChainOfKey r.entry key r.chains
  let s0 ← chain[0]?
  let s1 ← chain[1]?
  let s2 ← chain[2]?
  return s.sendto [s0, s1, s2, 0#32] ⟨12#8, 4#8, 0#16, BitVec.ofNat 128 key, 222#128, vgroup⟩ s0

/-- The inner loop of `failure_recovery`: the next `count` keys from `sKey` on, and
the key after them. -/
def takeKeys : ℕ → ℕ → List ℕ × ℕ
  | 0, sKey => ([], sKey)
  | count + 1, sKey => (sKey :: (takeKeys count (sKey + 1)).1, (takeKeys count (sKey + 1)).2)

/-- The outer loop: one list after the other, for as many groups as are left. -/
def fillGroups (count : ℕ) : ℕ → ℕ → List (List ℕ)
  | 0, _ => []
  | groups + 1, sKey => (takeKeys count sKey).1 :: fillGroups count groups (takeKeys count sKey).2

/-- The lists `vgroup` of the controller. -/
def recoveryVgroups (numKv sizeVgroup : ℕ) : List (List ℕ) :=
  fillGroups (numKv / sizeVgroup) sizeVgroup 2018

theorem takeKeys_eq (count sKey : ℕ) :
    takeKeys count sKey = (List.range' sKey count, sKey + count) := by
  induction count generalizing sKey with
  | zero => rfl
  | succ count ih =>
    rw [takeKeys, ih, List.range'_succ]
    congr 1
    omega

theorem fillGroups_length (count groups sKey : ℕ) :
    (fillGroups count groups sKey).length = groups := by
  induction groups generalizing sKey with
  | zero => rfl
  | succ groups ih => rw [fillGroups, List.length_cons, ih]

/-- The groups are consecutive ranges of the same length. -/
theorem fillGroups_getElem? (count : ℕ) {groups g : ℕ} (hg : g < groups) (sKey : ℕ) :
    (fillGroups count groups sKey)[g]? = some (List.range' (sKey + g * count) count) := by
  induction groups generalizing g sKey with
  | zero => exact absurd hg (Nat.not_lt_zero g)
  | succ groups ih =>
    rw [fillGroups, takeKeys_eq]
    cases g with
    | zero => simp
    | succ g =>
      rw [List.getElem?_cons_succ, ih (Nat.lt_of_succ_lt_succ hg)]
      congr 2
      ring

theorem recoveryVgroups_getElem? {numKv sizeVgroup g : ℕ} (hg : g < sizeVgroup) :
    (recoveryVgroups numKv sizeVgroup)[g]? =
      some (List.range' (2018 + g * (numKv / sizeVgroup)) (numKv / sizeVgroup)) :=
  fillGroups_getElem? _ hg 2018

/-- The controller has a list for the group, and the key is in it. -/
def InRecoveryVgroup (numKv sizeVgroup g key : ℕ) : Prop :=
  ∃ keys, (recoveryVgroups numKv sizeVgroup)[g]? = some keys ∧ key ∈ keys

theorem inRecoveryVgroup_iff {numKv sizeVgroup g key : ℕ} :
    InRecoveryVgroup numKv sizeVgroup g key ↔ g < sizeVgroup ∧
      2018 + g * (numKv / sizeVgroup) ≤ key ∧
        key < 2018 + g * (numKv / sizeVgroup) + numKv / sizeVgroup := by
  constructor
  · rintro ⟨keys, hk, hmem⟩
    have hg : g < sizeVgroup := by
      have := (List.getElem?_eq_some_iff.mp hk).1
      rwa [recoveryVgroups, fillGroups_length] at this
    rw [recoveryVgroups_getElem? hg] at hk
    obtain rfl := Option.some.inj hk
    exact ⟨hg, List.mem_range'_1.mp hmem⟩
  · rintro ⟨hg, hmem⟩
    exact ⟨_, recoveryVgroups_getElem? hg, List.mem_range'_1.mpr hmem⟩

theorem requestVgroup_eq {numKv sizeVgroup : ℕ} (h0 : 0 < sizeVgroup) (hle : sizeVgroup ≤ numKv)
    (key : ℕ) : requestVgroup numKv sizeVgroup key = some ((key - 2018) / (numKv / sizeVgroup)) := by
  have hq : 0 < numKv / sizeVgroup := Nat.div_pos hle h0
  unfold requestVgroup
  rw [if_neg]
  omega

/-- The client asks for a group of the controller with the key in it exactly for the
keys before the remainder that the division by the number of groups leaves. -/
theorem vgroups_agree_iff {numKv sizeVgroup : ℕ} (h0 : 0 < sizeVgroup)
    (hle : sizeVgroup ≤ numKv) (i : ℕ) :
    (∃ g, requestVgroup numKv sizeVgroup (2018 + i) = some g ∧
      InRecoveryVgroup numKv sizeVgroup g (2018 + i)) ↔ i < numKv - numKv % sizeVgroup := by
  have hq : 0 < numKv / sizeVgroup := Nat.div_pos hle h0
  have hcover : sizeVgroup * (numKv / sizeVgroup) = numKv - numKv % sizeVgroup := by
    have := Nat.div_add_mod numKv sizeVgroup
    omega
  rw [requestVgroup_eq h0 hle, Nat.add_sub_cancel_left, ← hcover, ← Nat.div_lt_iff_lt_mul hq]
  constructor
  · rintro ⟨g, hg, hin⟩
    obtain rfl := Option.some.inj hg
    exact (inRecoveryVgroup_iff.mp hin).1
  · intro hg
    refine ⟨_, rfl, inRecoveryVgroup_iff.mpr ⟨hg, ?_, ?_⟩⟩
    · have := Nat.div_mul_le_self i (numKv / sizeVgroup)
      omega
    · have := Nat.lt_div_mul_add hq (a := i)
      omega

/-- The last of three keys in two groups. -/
theorem vgroups_agree_three :
    (∃ g, requestVgroup 3 2 (2018 + 1) = some g ∧ InRecoveryVgroup 3 2 g (2018 + 1)) ↔
      1 < 3 - 3 % 2 :=
  vgroups_agree_iff (by decide) (by decide) 1

/-- With three keys in two groups the client puts the last key into a third group. -/
theorem vgroups_disagree :
    ¬ ∀ numKv sizeVgroup i : ℕ, 0 < sizeVgroup → sizeVgroup ≤ numKv → i < numKv →
      ∃ g, requestVgroup numKv sizeVgroup (2018 + i) = some g ∧
        InRecoveryVgroup numKv sizeVgroup g (2018 + i) := by
  intro hall
  obtain ⟨g, hg, keys, hk, -⟩ := hall 3 2 2 (by decide) (by decide) (by decide)
  obtain rfl : 2 = g := Option.some.inj hg
  simp [recoveryVgroups, fillGroups, takeKeys] at hk

end P4Survey.NetChain
