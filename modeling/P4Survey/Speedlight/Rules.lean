import P4Survey.Speedlight.Network
import P4Survey.Speedlight.Wrap

/-! # The generated rules of Speedlight

`generate_rules.py` writes the register indices into the rules and
`generate_p4vars.py` the sizes of the registers into the program, each from the
numbers of ports and snapshots. The rules of a register take different cells for
what they tell apart. The snapshot identifiers of the rules go up to the maximum
and so one past the rows of the snapshot values: the rules of the last identifier
do not fit in any configuration.
-/

namespace P4Survey.Speedlight

/-- The three programs. -/
inductive Variant
  | pkt
  | pktW
  | pktWC
  deriving DecidableEq

namespace Variant

/-- The name of the program has `_W` or `_WC` in it. -/
def wraps : Variant → Bool
  | pkt => false
  | pktW => true
  | pktWC => true

/-- The name of the program has `_WC` in it. -/
def hasChannelState : Variant → Bool
  | pkt => false
  | pktW => false
  | pktWC => true

end Variant

inductive RegName
  | counter
  | lastSeen
  | snapshotId
  | snapshotValue
  deriving DecidableEq

/-- The sizes `PORTS_TBL_SIZE`, `NEIGHBORS_TBL_SIZE_ING`, `NEIGHBORS_TBL_SIZE_EGR` and
`SSTABLE_SIZE`. -/
def Config.instanceCount (C : Config) : Direction → RegName → ℕ
  | _, .counter => C.ports + 1
  | .ingress, .lastSeen => C.ports * 2
  | .egress, .lastSeen => C.ports * C.ports
  | _, .snapshotId => C.ports + 1
  | _, .snapshotValue => C.snapshots * C.ports

/-- What a rule tells apart: a port, the origin of a packet at an ingress port, the port by
which a packet came to an egress port, with zero for the control plane, or a snapshot at a
port. -/
inductive Key
  | port (port : ℕ)
  | origin (port snapshotFeature : ℕ)
  | neighbor (currentPort fromPort : ℕ)
  | snapshot (snapshotId port : ℕ)
  deriving DecidableEq

/-- A rule that gives an index into a register. -/
structure Rule where
  direction : Direction
  register : RegName
  key : Key
  index : ℕ
  deriving DecidableEq

/-- The `get_index` of `tiUpdateLastSeen`. -/
def tiLastSeenCell (portNum snapshotFeature : ℕ) : ℕ :=
  if snapshotFeature = 2 then (portNum - 1) * 2 else (portNum - 1) * 2 + 1

/-- The `get_index` of `teUpdateLastSeen`. -/
def teLastSeenCell (currentPort maxPortNum fromPort : ℕ) : ℕ :=
  if fromPort < currentPort then (currentPort - 1) * maxPortNum + fromPort
  else (currentPort - 1) * maxPortNum + fromPort - 1

/-- The `get_index` of the tables that take a snapshot. -/
def snapshotCell (snapshotId maxPortNum port : ℕ) : ℕ := snapshotId * maxPortNum + port - 1

/-- The pipelines read the registers at these cells. -/
theorem pipeline_cells (C : Config) (i : BitVec 16) (f : BitVec 2) (p : BitVec 9) (q : ℕ) :
    valueIndex C i p = snapshotCell i.toNat C.ports p.toNat ∧
      Config.lastSeenIng f p.toNat = tiLastSeenCell p.toNat f.toNat ∧
      C.lastSeenEgr p.toNat q = teLastSeenCell p.toNat C.ports q := by
  refine ⟨rfl, ?_, rfl⟩
  have hf : f = 2#2 ↔ f.toNat = 2 := BitVec.toNat_inj.symm
  simp only [Config.lastSeenIng, tiLastSeenCell, hf]

/-- The pipelines have registers of these sizes. -/
theorem pipeline_sizes (C : Config) (d : Direction) :
    C.neighbors d = C.instanceCount d .lastSeen := by
  cases d <;> rfl

namespace Config

variable (C : Config)

/-- The ports of a loop, from 1 on. -/
def portRange : List ℕ := List.range' 1 C.ports

/-- The effective port is an index into two registers. Ingress has each rule twice, for
packets with and without a snapshot header. -/
def setEffectivePort (d : Direction) : List Rule :=
  C.portRange.flatMap fun x => [⟨d, .counter, .port x, x⟩, ⟨d, .snapshotId, .port x, x⟩]

def tiUpdateLastSeen : List Rule :=
  C.portRange.flatMap fun x =>
    [⟨.ingress, .lastSeen, .origin x 2, tiLastSeenCell x 2⟩,
      ⟨.ingress, .lastSeen, .origin x 1, tiLastSeenCell x 1⟩]

def teUpdateLastSeen : List Rule :=
  C.portRange.flatMap fun currentPort =>
    ⟨.egress, .lastSeen, .neighbor currentPort 0, teLastSeenCell currentPort C.ports 0⟩ ::
      (C.portRange.filter (· ≠ currentPort)).map fun fromPort =>
        ⟨.egress, .lastSeen, .neighbor currentPort fromPort,
          teLastSeenCell currentPort C.ports fromPort⟩

/-- The rules of `tiTakeSnapshot` and `teTakeSnapshot`. -/
def takeSnapshot (d : Direction) : List Rule :=
  (List.range (C.snapshots + 1)).flatMap fun snapshotId => C.portRange.map fun port =>
    ⟨d, .snapshotValue, .snapshot snapshotId port, snapshotCell snapshotId C.ports port⟩

/-- The rules of `tiUpdateSnapshotValue` and `teUpdateSnapshotValue`, two for each snapshot at a
port: one takes it and the other adds a packet in flight. -/
def updateSnapshotValue (d : Direction) : List Rule :=
  (List.range (C.snapshots + 1)).flatMap fun snapshotId => C.portRange.flatMap fun port =>
    List.replicate 2
      ⟨d, .snapshotValue, .snapshot snapshotId port, snapshotCell snapshotId C.ports port⟩

def installIngressRules (v : Variant) : List Rule :=
  C.setEffectivePort .ingress ++
    ((if v.wraps then C.tiUpdateLastSeen else []) ++
      if v.hasChannelState then C.updateSnapshotValue .ingress else C.takeSnapshot .ingress)

def installEgressRules (v : Variant) : List Rule :=
  C.setEffectivePort .egress ++
    ((if v.wraps then C.teUpdateLastSeen else []) ++
      if v.hasChannelState then C.updateSnapshotValue .egress else C.takeSnapshot .egress)

/-- The rules of a program that give an index into a register. -/
def rules (v : Variant) : List Rule := C.installIngressRules v ++ C.installEgressRules v

/-- The rule takes a cell of its register, and another rule for that register and cell tells
nothing else apart. -/
structure Addresses (v : Variant) (r : Rule) : Prop where
  bound : r.index < C.instanceCount r.direction r.register
  injective : ∀ r' ∈ C.rules v, r'.direction = r.direction → r'.register = r.register →
    r'.index = r.index → r'.key = r.key

end Config

/-- The rules that the loops go through. -/
inductive Generated (C : Config) : Rule → Prop
  | port {d : Direction} {n : RegName} {p : ℕ} : n = .counter ∨ n = .snapshotId → 1 ≤ p →
    p ≤ C.ports → Generated C ⟨d, n, .port p, p⟩
  | origin {p f : ℕ} : 1 ≤ p → p ≤ C.ports → f = 1 ∨ f = 2 →
    Generated C ⟨.ingress, .lastSeen, .origin p f, tiLastSeenCell p f⟩
  | neighbor {p q : ℕ} : 1 ≤ p → p ≤ C.ports → q ≤ C.ports → q ≠ p →
    Generated C ⟨.egress, .lastSeen, .neighbor p q, teLastSeenCell p C.ports q⟩
  | snapshot {d : Direction} {i p : ℕ} : i ≤ C.snapshots → 1 ≤ p → p ≤ C.ports →
    Generated C ⟨d, .snapshotValue, .snapshot i p, snapshotCell i C.ports p⟩

section

variable {C : Config} {v : Variant} {r : Rule}

theorem Config.mem_portRange {p : ℕ} : p ∈ C.portRange ↔ 1 ≤ p ∧ p ≤ C.ports := by
  rw [portRange, List.mem_range'_1]
  omega

theorem generated_setEffectivePort {d : Direction} (h : r ∈ C.setEffectivePort d) :
    Generated C r := by
  obtain ⟨p, hp, hr⟩ := List.mem_flatMap.mp h
  obtain ⟨hpos, hle⟩ := Config.mem_portRange.mp hp
  simp only [List.mem_cons, List.not_mem_nil, or_false] at hr
  rcases hr with rfl | rfl
  · exact .port (.inl rfl) hpos hle
  · exact .port (.inr rfl) hpos hle

theorem generated_tiUpdateLastSeen (h : r ∈ C.tiUpdateLastSeen) : Generated C r := by
  obtain ⟨p, hp, hr⟩ := List.mem_flatMap.mp h
  obtain ⟨hpos, hle⟩ := Config.mem_portRange.mp hp
  simp only [List.mem_cons, List.not_mem_nil, or_false] at hr
  rcases hr with rfl | rfl
  · exact .origin hpos hle (.inr rfl)
  · exact .origin hpos hle (.inl rfl)

theorem generated_teUpdateLastSeen (h : r ∈ C.teUpdateLastSeen) : Generated C r := by
  obtain ⟨p, hp, hr⟩ := List.mem_flatMap.mp h
  obtain ⟨hpos, hle⟩ := Config.mem_portRange.mp hp
  rcases List.mem_cons.mp hr with rfl | hr
  · exact .neighbor hpos hle (Nat.zero_le _) (by omega)
  · obtain ⟨q, hq, rfl⟩ := List.mem_map.mp hr
    obtain ⟨hq, hne⟩ := List.mem_filter.mp hq
    exact .neighbor hpos hle (Config.mem_portRange.mp hq).2 (of_decide_eq_true hne)

theorem mem_takeSnapshot {d : Direction} : r ∈ C.takeSnapshot d ↔
    ∃ i ≤ C.snapshots, ∃ p, 1 ≤ p ∧ p ≤ C.ports ∧
      r = ⟨d, .snapshotValue, .snapshot i p, snapshotCell i C.ports p⟩ := by
  simp only [Config.takeSnapshot, List.mem_flatMap, List.mem_range, Nat.lt_succ_iff, List.mem_map,
    Config.mem_portRange, and_assoc, eq_comm]

theorem mem_updateSnapshotValue {d : Direction} :
    r ∈ C.updateSnapshotValue d ↔ r ∈ C.takeSnapshot d := by
  rw [mem_takeSnapshot]
  simp only [Config.updateSnapshotValue, List.mem_flatMap, List.mem_range, Nat.lt_succ_iff,
    Config.mem_portRange, and_assoc, List.mem_replicate, ne_eq, OfNat.ofNat_ne_zero,
    not_false_eq_true, true_and]

theorem generated_takeSnapshot {d : Direction} (h : r ∈ C.takeSnapshot d) : Generated C r := by
  obtain ⟨i, hi, p, hpos, hle, rfl⟩ := mem_takeSnapshot.mp h
  exact .snapshot hi hpos hle

theorem generated_of_mem (h : r ∈ C.rules v) : Generated C r := by
  have hvalue {d : Direction} (h : r ∈ if v.hasChannelState then C.updateSnapshotValue d
      else C.takeSnapshot d) : Generated C r := by
    split at h
    · exact generated_takeSnapshot (mem_updateSnapshotValue.mp h)
    · exact generated_takeSnapshot h
  rcases List.mem_append.mp h with h | h
  · rcases List.mem_append.mp h with h | h
    · exact generated_setEffectivePort h
    · rcases List.mem_append.mp h with h | h
      · split at h
        · exact generated_tiUpdateLastSeen h
        · cases h
      · exact hvalue h
  · rcases List.mem_append.mp h with h | h
    · exact generated_setEffectivePort h
    · rcases List.mem_append.mp h with h | h
      · split at h
        · exact generated_teUpdateLastSeen h
        · cases h
      · exact hvalue h

/-- The row of an egress port has a cell for the control plane and one for each other port. -/
theorem teLastSeenCell_eq {p q : ℕ} (hpos : 1 ≤ p) (hp : p ≤ C.ports) (hq : q ≤ C.ports) :
    ∃ k < C.ports, teLastSeenCell p C.ports q = (p - 1) * C.ports + k ∧
      k = if q < p then q else q - 1 := by
  refine ⟨_, ?_, ?_, rfl⟩
  · split <;> omega
  · rw [teLastSeenCell]
    split
    · rfl
    · omega

theorem snapshotCell_eq {i p : ℕ} (hpos : 1 ≤ p) :
    snapshotCell i C.ports p = i * C.ports + (p - 1) :=
  Nat.add_sub_assoc hpos _

/-- A row of `n` cells ends where the next one starts. -/
theorem mul_add_lt {n m a b : ℕ} (ha : a < m) (hb : b < n) : a * n + b < m * n :=
  calc a * n + b < a * n + n := Nat.add_lt_add_left hb _
    _ = (a + 1) * n := (Nat.succ_mul a n).symm
    _ ≤ m * n := Nat.mul_le_mul_right n ha

/-- A rule takes a cell of its register unless it is for the last snapshot. -/
theorem Generated.bound_iff (h : Generated C r) :
    r.index < C.instanceCount r.direction r.register ↔
      ∀ port, r.key ≠ .snapshot C.snapshots port := by
  cases h with
  | port hn hpos hle =>
    refine iff_of_true ?_ fun _ => by simp
    rcases hn with rfl | rfl <;> exact Nat.lt_succ_of_le hle
  | @origin p f hpos hle hf =>
    refine iff_of_true ?_ fun _ => by simp
    change tiLastSeenCell p f < C.ports * 2
    unfold tiLastSeenCell
    split <;> omega
  | neighbor hpos hle hq hne =>
    refine iff_of_true ?_ fun _ => by simp
    obtain ⟨k, hk, hcell, -⟩ := teLastSeenCell_eq hpos hle hq
    rw [hcell]
    exact mul_add_lt (by omega) hk
  | @snapshot d i p hi hpos hle =>
    change snapshotCell i C.ports p < C.snapshots * C.ports ↔ _
    rw [snapshotCell_eq hpos]
    constructor
    · rintro hlt port ⟨⟩
      exact absurd (Nat.le_add_right _ _) hlt.not_ge
    · intro hne
      have hlt : i < C.snapshots := hi.lt_of_ne fun he => hne p (by rw [he])
      exact mul_add_lt hlt (by omega)

/-- Rules of one register with one cell have one key. -/
theorem Generated.key_eq {r' : Rule} (h : Generated C r) (h' : Generated C r')
    (hd : r'.direction = r.direction) (hn : r'.register = r.register) (hi : r'.index = r.index) :
    r'.key = r.key := by
  cases h with
  | port hreg hpos hle =>
    cases h' with
    | port => exact congrArg Key.port hi
    | origin => subst hn; simp at hreg
    | neighbor => subst hn; simp at hreg
    | snapshot => subst hn; simp at hreg
  | @origin p f hpos hle hf =>
    cases h' with
    | port hreg => subst hn; simp at hreg
    | @origin p' f' hpos' hle' hf' =>
      change tiLastSeenCell p' f' = tiLastSeenCell p f at hi
      rcases hf with rfl | rfl <;> rcases hf' with rfl | rfl <;> simp [tiLastSeenCell] at hi ⊢ <;>
        omega
    | neighbor => cases hd
    | snapshot => cases hn
  | @neighbor p q hpos hle hq hne =>
    cases h' with
    | port hreg => subst hn; simp at hreg
    | origin => cases hd
    | @neighbor p' q' hpos' hle' hq' hne' =>
      obtain ⟨k, hk, hcell, hkq⟩ := teLastSeenCell_eq hpos hle hq
      obtain ⟨k', hk', hcell', hkq'⟩ := teLastSeenCell_eq hpos' hle' hq'
      obtain ⟨hrow, hcol⟩ := mul_add_inj hk' hk (hcell'.symm.trans (hi.trans hcell))
      have hp : p' = p := by omega
      have hqq : q' = q := by
        subst hp hcol
        split_ifs at hkq hkq' <;> omega
      rw [hp, hqq]
    | snapshot => cases hn
  | @snapshot d i p hid hpos hle =>
    cases h' with
    | port hreg => subst hn; simp at hreg
    | origin => cases hn
    | neighbor => cases hn
    | @snapshot d' i' p' hid' hpos' hle' =>
      have hcell : i' * C.ports + (p' - 1) = i * C.ports + (p - 1) := by
        rw [← snapshotCell_eq hpos', ← snapshotCell_eq hpos]
        exact hi
      obtain ⟨hrow, hcol⟩ := mul_add_inj (by omega) (by omega) hcell
      have hp : p' = p := by omega
      rw [hrow, hp]

/-- Every configuration has the rules of the last snapshot. -/
theorem last_snapshot_mem (v : Variant) (hports : 0 < C.ports) :
    (⟨.ingress, .snapshotValue, .snapshot C.snapshots 1, snapshotCell C.snapshots C.ports 1⟩ : Rule) ∈
      C.rules v := by
  have htake : (⟨.ingress, .snapshotValue, .snapshot C.snapshots 1,
      snapshotCell C.snapshots C.ports 1⟩ : Rule) ∈ C.takeSnapshot .ingress :=
    mem_takeSnapshot.mpr ⟨C.snapshots, le_rfl, 1, le_rfl, hports, rfl⟩
  apply List.mem_append_left
  apply List.mem_append_right
  apply List.mem_append_right
  split
  · exact mem_updateSnapshotValue.mpr htake
  · exact htake

end

/-- The rules address their registers, all but those of the last snapshot, which every
configuration has. -/
theorem rules_address_iff (v : Variant) (C : Config) (hports : 0 < C.ports) :
    (∀ r ∈ C.rules v, C.Addresses v r ↔ ∀ port, r.key ≠ .snapshot C.snapshots port) ∧
      ¬∀ r ∈ C.rules v, C.Addresses v r := by
  have hiff : ∀ r ∈ C.rules v, C.Addresses v r ↔ ∀ port, r.key ≠ .snapshot C.snapshots port := by
    intro r hr
    have hgen := generated_of_mem hr
    refine ⟨fun h => hgen.bound_iff.mp h.bound, fun h => ⟨hgen.bound_iff.mpr h, ?_⟩⟩
    intro r' hr' hd hn hi
    exact hgen.key_eq (generated_of_mem hr') hd hn hi
  refine ⟨hiff, fun hall => ?_⟩
  have hlast := last_snapshot_mem v hports
  exact (hiff _ hlast).mp (hall _ hlast) 1 rfl

/-- The last cell of a switch with three ports, for packets from port 2 to port 3. -/
theorem rules_address_three :
    Config.Addresses ⟨3, 4⟩ .pktWC ⟨.egress, .lastSeen, .neighbor 3 2, 8⟩ :=
  ((rules_address_iff .pktWC ⟨3, 4⟩ (by decide)).1 _ (by decide)).mpr (by simp)

/-- One port and one snapshot: the rules have two rows of one cell and the register has one. -/
theorem rules_overflow :
    ¬∀ (v : Variant) (C : Config), 0 < C.ports → 0 < C.snapshots →
      ∀ r ∈ C.rules v, r.index < C.instanceCount r.direction r.register := by
  intro h
  have := h .pkt ⟨1, 1⟩ (by decide) (by decide)
    ⟨.ingress, .snapshotValue, .snapshot 1 1, 1⟩ (by decide)
  exact absurd this (by decide)

end P4Survey.Speedlight
