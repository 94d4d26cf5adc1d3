import P4Survey.NetChain.Ingress

/-! # Chains of switches and their tables

The tables that `init_flowtable` and the `commands` files install on the
switches of a chain: every key has the same index everywhere, the first switch
is the head (role 100), the last one the tail (role 102), and only the tail
pops the chain again.
-/

namespace P4Survey.NetChain
open Lib

/-- A chain of `n` switches with its keys. Routes and MAC addresses are free. -/
structure Chain (n : ℕ) where
  pos : 0 < n
  ip : Fin n → BitVec 32
  ip_injective : Function.Injective ip
  ip_ne_zero : ∀ j, ip j ≠ 0#32
  index : BitVec 128 → Option (BitVec 16)
  index_lt : ∀ {k i}, index k = some i → i.toNat < regSize
  index_injective : ∀ {k k' i}, index k = some i → index k' = some i → k = k'
  ipv4Route : Fin n → BitVec 32 → Option (BitVec 9)
  ethernetSetMac : Fin n → BitVec 9 → Option (BitVec 48 × BitVec 48)

namespace Chain

variable {n : ℕ} (c : Chain n)

def head : Fin n := ⟨0, c.pos⟩

/-- The entries `gen_reply` has on every switch. -/
def genReply (op : BitVec 8) : Option (BitVec 8) :=
  if op = 10#8 then some 11#8 else if op = 12#8 then some 13#8 else none

def role (j : Fin n) : BitVec 16 :=
  if j.val = 0 then 100#16 else if j.val + 1 = n then 102#16 else 101#16

def tables (j : Fin n) : Tables where
  getMyAddress k := (c.index k).map fun _ => (c.ip j, role j)
  findIndex := c.index
  genReply := genReply
  failureRecovery _ _ _ := .nop
  ipv4Route := c.ipv4Route j
  ethernetSetMac := c.ethernetSetMac j
  popChainAgain := role j = 102#16

/-- The overlay of a packet on its way to position `j`. -/
def overlayFrom (j : ℕ) : List (BitVec 32) := (List.ofFn c.ip).drop j ++ [0#32]

theorem overlayFrom_eq_cons (j : Fin n) :
    c.overlayFrom j = c.ip j :: c.overlayFrom (j + 1) := by
  unfold overlayFrom
  rw [List.drop_eq_getElem_cons (by simp), List.getElem_ofFn]
  rfl

theorem overlayFrom_last : c.overlayFrom n = [0#32] := by
  simp [overlayFrom]

theorem role_eq_head {j : Fin n} : role j = 100#16 ↔ j = c.head := by
  unfold role head
  rw [Fin.ext_iff]
  split_ifs with h0 h1
  · simp [h0]
  · simp [h0]
  · simp [h0]

theorem role_eq_tail {j : Fin n} : role j = 102#16 ↔ j.val ≠ 0 ∧ j.val + 1 = n := by
  unfold role
  split_ifs with h0 h1
  · simp [h0]
  · simp [h0, h1]
  · simp [h1]

variable {c} {j : Fin n} {k : BitVec 128} {i : BitVec 16}

theorem tables_myAddress (hk : c.index k = some i) : (c.tables j).myAddress k = c.ip j := by
  simp [Tables.myAddress, tables, hk]

theorem tables_role (hk : c.index k = some i) : (c.tables j).role k = role j := by
  simp [Tables.role, tables, hk]

theorem tables_index (hk : c.index k = some i) : (c.tables j).index k = i := by
  simp [Tables.index, tables, hk]

/-- A switch serves no packet of an unknown key that has a real destination. -/
theorem index_isSome_of_serves {h : Headers} (hs : (c.tables j).Serves h)
    (hd : h.ipv4.dstAddr ≠ 0#32) : ∃ i, c.index h.ncHdr.key = some i := by
  cases hk : c.index h.ncHdr.key with
  | some i => exact ⟨i, rfl⟩
  | none =>
    have := hs.2
    simp [Tables.myAddress, tables, hk] at this
    exact absurd this hd

theorem dst_of_serves {h : Headers} (hs : (c.tables j).Serves h)
    (hk : c.index h.ncHdr.key = some i) : h.ipv4.dstAddr = c.ip j := by
  rw [hs.2, tables_myAddress hk]

end Chain

theorem lab_pos : 0 < 3 := by decide

theorem lab_ip_injective :
    Function.Injective fun j : Fin 3 => BitVec.ofNat 32 (0x0a006401 + j.val) := by decide

theorem lab_ip_ne_zero (j : Fin 3) : BitVec.ofNat 32 (0x0a006401 + j.val) ≠ 0#32 := by
  revert j
  decide

theorem lab_index_lt {k : BitVec 128} {i : BitVec 16}
    (h : (if 2018 ≤ k.toNat ∧ k.toNat < 2138 then some (BitVec.ofNat 16 (k.toNat - 2018))
      else none) = some i) : i.toNat < regSize := by
  split_ifs at h with hk
  obtain rfl := Option.some.inj h
  simp only [BitVec.toNat_ofNat, regSize]
  omega

theorem lab_index_injective {k k' : BitVec 128} {i : BitVec 16}
    (h : (if 2018 ≤ k.toNat ∧ k.toNat < 2138 then some (BitVec.ofNat 16 (k.toNat - 2018))
      else none) = some i)
    (h' : (if 2018 ≤ k'.toNat ∧ k'.toNat < 2138 then some (BitVec.ofNat 16 (k'.toNat - 2018))
      else none) = some i) : k = k' := by
  split_ifs at h h' with hk hk'
  obtain rfl := Option.some.inj h
  have he := congrArg BitVec.toNat (Option.some.inj h')
  simp only [BitVec.toNat_ofNat] at he
  apply BitVec.eq_of_toNat_eq
  omega

/-- The three switches of `commands.txt`, `commands_1.txt` and `commands_2.txt`,
with addresses from `10.0.100.1` on and the 120 keys from 2018 on. -/
def lab : Chain 3 where
  pos := lab_pos
  ip j := BitVec.ofNat 32 (0x0a006401 + j.val)
  ip_injective := lab_ip_injective
  ip_ne_zero := lab_ip_ne_zero
  index k :=
    if 2018 ≤ k.toNat ∧ k.toNat < 2138 then some (BitVec.ofNat 16 (k.toNat - 2018)) else none
  index_lt := lab_index_lt
  index_injective := lab_index_injective
  ipv4Route j dst :=
    let routes : List (BitVec 32 × BitVec 9) := match j with
      | 0 => [(0x0a000001#32, 1#9), (0x0a000002#32, 1#9), (0x0a006402#32, 2#9),
          (0x0a006403#32, 1#9), (0x0a006404#32, 1#9)]
      | 1 => [(0x0a000001#32, 1#9), (0x0a000002#32, 1#9), (0x0a006401#32, 2#9),
          (0x0a006403#32, 3#9), (0x0a006404#32, 1#9)]
      | 2 => [(0x0a000001#32, 1#9), (0x0a000002#32, 1#9), (0x0a006401#32, 1#9),
          (0x0a006402#32, 2#9), (0x0a006404#32, 1#9)]
    routes.lookup dst
  ethernetSetMac j port :=
    let macs : List (BitVec 9 × BitVec 48 × BitVec 48) := match j with
      | 0 => [(1#9, 0xaabbccddee11#48, 0xaabbccddee43#48),
          (2#9, 0xaabbccddee12#48, 0xaabbccddee22#48)]
      | 1 => [(1#9, 0xaabbccddee21#48, 0xaabbccddee44#48),
          (2#9, 0xaabbccddee22#48, 0xaabbccddee12#48),
          (3#9, 0xaabbccddee23#48, 0xaabbccddee32#48)]
      | 2 => [(1#9, 0xaabbccddee31#48, 0xaabbccddee45#48),
          (2#9, 0xaabbccddee32#48, 0xaabbccddee23#48)]
    macs.lookup port

/-- A write of 222 to key 2018 as the client `10.0.0.2` sends it into `lab`. -/
def labRequest : Headers where
  ethernetValid := true
  ethernet := ⟨0#48, 0#48, 0x800#16⟩
  ipv4Valid := true
  ipv4 := ⟨4#4, 5#4, 0#8, 82#16, 0#16, 0#3, 0#13, 64#8, 17#8, 0#16, 0x0a000002#32, 0x0a006401#32⟩
  udpValid := true
  udp := ⟨8888#16, 8888#16, 62#16, 0#16⟩
  tcpValid := false
  tcp := default
  overlay := [0x0a006401#32, 0x0a006402#32, 0x0a006403#32, 0#32]
  ncHdrValid := true
  ncHdr := ⟨12#8, 4#8, 0#16, 2018#128, 222#128, 0#16⟩

/-- The first two switches of `lab` as a chain of their own. -/
def pair : Chain 2 where
  pos := by decide
  ip j := lab.ip j.castSucc
  ip_injective := by decide
  ip_ne_zero := by decide
  index := lab.index
  index_lt := lab.index_lt
  index_injective := lab.index_injective
  ipv4Route j := lab.ipv4Route j.castSucc
  ethernetSetMac j := lab.ethernetSetMac j.castSucc

/-- A write of 222 to key 2018 as a client sends it into `pair`. -/
def pairRequest : Headers where
  ethernetValid := true
  ethernet := ⟨0#48, 0#48, 0x800#16⟩
  ipv4Valid := true
  ipv4 := ⟨4#4, 5#4, 0#8, 78#16, 0#16, 0#3, 0#13, 64#8, 17#8, 0#16, 0x0a000002#32, 0x0a006401#32⟩
  udpValid := true
  udp := ⟨8888#16, 8888#16, 58#16, 0#16⟩
  tcpValid := false
  tcp := default
  overlay := [0x0a006401#32, 0x0a006402#32, 0#32]
  ncHdrValid := true
  ncHdr := ⟨12#8, 4#8, 0#16, 2018#128, 222#128, 0#16⟩

end P4Survey.NetChain
